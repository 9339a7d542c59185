import ShaderLift.Proofs.Container.Reads
import ShaderLift.Proofs.Decode.Tiling

/-!
Data blocks with immediate constants. Each of them is decoded to a declaration that keeps its words
as bytes, and no other frame is.
-/

namespace ShaderLift

namespace Word

theorem ofByteList_flatMap_bytes {words : List UInt32} :
    ofByteList (words.flatMap bytes) = words := by
  induction words
  case nil => rfl
  case cons word words hi =>
    obtain ⟨a, b, c, d, hbytes, hword⟩ := exists_bytes word
    rw [List.flatMap_cons, hbytes, List.cons_append, List.cons_append, List.cons_append,
      List.cons_append, List.nil_append, ofByteList, hword, hi]

end Word

-- The bytes of immediate constants.
def Declared.immediates? : Declared → Option (List UInt8)
  | immediateConstantBuffer bytes => some bytes
  | _ => none

namespace Decoder

variable {α β : Type} {P : α → Prop} {R : β → Prop} {m : Decoder α} {k : α → Decoder β}

-- What is returned, whatever there is to read.
def Gives (P : α → Prop) (m : Decoder α) : Prop :=
  ∀ r a r', m r = .ok a r' → P a

namespace Gives

theorem pure {a : α} (h : P a) : Gives P (Pure.pure a) := by
  intro _ _ _ hr
  cases hr
  exact h

theorem throw {e : DecodeError} : Gives P (throw e) := by
  intro _ _ _ hr
  cases hr

theorem skip (h : ∀ a, Gives R (k a)) : Gives R (m >>= k) := by
  intro _ _ _ hr
  obtain ⟨a, _, _, hr⟩ := exists_of_bind hr
  exact h a _ _ _ hr

end Gives

variable {stage : Stage} {start : Nat} {op : Opcode} {token : UInt32}

theorem immediates?_of_declared :
    Gives (fun d => d.immediates? = none) (declared start op token) := by
  unfold declared
  extract_lets field coherent
  split
  case h_2 =>
    refine .skip fun (_, op) => ?_
    dsimp only
    split
    case h_1 => exact .pure rfl
    case h_2 => exact .throw
  -- Every other declaration is a chain of steps whose answers do not matter.
  all_goals
    repeat' first
      | exact .throw
      | exact .pure rfl
      | refine .skip fun _ => ?_

theorem immediates?_of_declaration :
    Gives (fun d => d.immediates? = none) (declaration stage start op token) := by
  refine .skip fun _ r d r' hr => ?_
  obtain ⟨declared, r₁, hdeclared, hr⟩ := exists_of_bind hr
  have hnone := immediates?_of_declared _ _ _ hdeclared
  split at hr
  case isTrue => cases hr
  case isFalse =>
    cases hr
    exact hnone

end Decoder

namespace Element

def immediates? : Element → Option (List UInt8)
  | declaration declared _ => declared.immediates?
  | instruction _ | skipped => none

theorem filterMap_declarations {before : Nat} {es : List Element} :
    (declarations before es).filterMap (·.declared.immediates?) = es.filterMap immediates? := by
  induction es generalizing before
  case nil => rfl
  case cons e es hi =>
    cases e
    case declaration => simp [declarations, List.filterMap_cons, immediates?, hi]
    case instruction | skipped => exact hi

end Element

namespace Frame

variable {stage : Stage} {f : Frame} {e : Element}

-- The words of a data block with immediate constants, behind the one that holds its length.
def payload? (f : Frame) : Option (List UInt32) :=
  if f.opcode = .customData ∧ f.token >>> 11 = 3 then some (f.words.drop 1) else none

theorem immediates?_of_readAs (h : f.ReadAs stage e) :
    e.immediates? = f.payload?.map (·.flatMap Word.bytes) := by
  obtain ⟨arena, arena', h⟩ := h
  obtain ⟨hdata, rfl, _⟩ | ⟨hdata, _, _, _, _, hr⟩ := exists_body_of_read h
  case inl =>
    unfold readData payload?
    split
    case isTrue hclass => simp [hdata, hclass, Element.immediates?, Declared.immediates?]
    case isFalse hclass => simp [hclass, Element.immediates?]
  case inr =>
    have hnone : f.payload? = none := by simp [payload?, hdata]
    rw [hnone, Option.map_none]
    unfold readBody at hr
    split at hr
    case isTrue =>
      obtain ⟨declared, _, hdeclared, hr⟩ := Decoder.exists_of_bind hr
      cases hr
      exact Decoder.immediates?_of_declaration _ _ _ hdeclared
    case isFalse =>
      obtain ⟨_, _, _, hr⟩ := Decoder.exists_of_bind hr
      cases hr
      rfl

end Frame

namespace Program

variable {tokens : List UInt32} {p : Program}

-- The data blocks are kept in their order.
theorem exists_payloads_of_decode (h : decode tokens = .ok p) :
    ∃ length fs, p.Keeps tokens length fs ∧ p.declarations.filterMap (·.declared.immediates?) =
      (fs.filterMap Frame.payload?).map (·.flatMap Word.bytes) := by
  obtain ⟨length, fs, stage, es, hkeeps, hread, hdeclarations⟩ := exists_elements_of_decode h
  refine ⟨length, fs, hkeeps, ?_⟩
  rw [hdeclarations, Element.filterMap_declarations]
  clear hkeeps hdeclarations
  induction hread
  case nil => rfl
  case cons hf _ hi =>
    rw [List.filterMap_cons, List.filterMap_cons, Frame.immediates?_of_readAs hf, hi]
    cases Frame.payload? _ <;> rfl

end Program

end ShaderLift
