import Mathlib.Data.List.Perm.Subperm
import Mathlib.Data.List.Nodup
import Mathlib.Order.Nat
import ShaderLift.Decode.Operand

/-!
What reading operands leaves in the arena: each operand has a shape that its register kind and its
component count allow, its indices name operands that were pushed before it, and nobody else does.
-/

namespace ShaderLift

theorem Quad.get_ofList {α : Type} {rest : α} {l : List α} {i : Nat} (hi : i < 4) :
    (ofList rest l).get i = l[i]?.getD rest := by
  match i, hi with
  | 0, _ | 1, _ | 2, _ | 3, _ => rfl

-- Selections are for operands of four components, which cannot do without one.
def Selection.Fits : ComponentCount → Selection → Prop
  | .four, mask m => m.bits < 16
  | .four, swizzle lanes => ∀ lane ∈ lanes.toList, lane < 4
  | .four, select component => component < 4
  | .four, nothing => False
  | _, s => s = nothing

-- The values of an operand: immediates have one for each component, or for each pair of them if the
-- values are wide, and other operands have none. The lanes behind those that are given hold zero.
def Immediate.Fits (kind : RegisterKind) (count : ComponentCount) : Option Immediate → Prop
  | some (words lanes n) => kind = .immediate32 ∧ (∀ i < 4, n ≤ i → lanes.get i = 0) ∧
      (count = .one ∧ n = 1 ∨ count = .four ∧ n = 4)
  | some (longs _ zw n) => kind = .immediate64 ∧
      (count = .one ∧ n = 1 ∧ zw = 0 ∨ count = .four ∧ n = 2)
  | none => kind ≠ .immediate32 ∧ kind ≠ .immediate64

structure Operand.WellFormed (op : Operand) : Prop where
  indices      : op.indices.length ≤ 3
  selection    : op.selection.Fits op.components
  minPrecision : op.minPrecision < 8
  immediate    : Immediate.Fits op.register op.components op.immediate

def Index.relatives (i : Index) : List OperandId :=
  i.relative?.toList

-- The operands that are added to the indices of an operand.
def Operand.relatives (op : Operand) : List OperandId :=
  op.indices.flatMap Index.relatives

namespace Arena

def relatives (arena : Arena) : List OperandId :=
  arena.toList.flatMap Operand.relatives

@[simp] theorem relatives_push {arena : Arena} {op : Operand} :
    relatives (arena.push op) = arena.relatives ++ op.relatives := by
  simp [relatives]

-- An arena some of whose operands are `held` from outside.
structure Sound (held : List OperandId) (arena : Arena) : Prop where
  once     : (held ++ arena.relatives).Nodup
  inside   : ∀ id ∈ held, id < arena.size
  descends : ∀ (id : OperandId) op, arena[id]? = some op → ∀ id' ∈ op.relatives, id' < id
  operands : ∀ op ∈ arena, op.WellFormed

theorem sound_empty : Sound [] #[] where
  once := by simp [relatives]
  inside := by simp
  descends := by simp
  operands := by simp

namespace Sound

variable {arena : Arena} {held held' : List OperandId} {id : OperandId} {op : Operand}

theorem lt_size_of_relative (h : Sound held arena) (hid : id ∈ arena.relatives) :
    id < arena.size := by
  have ⟨op, hop, hid⟩ := List.mem_flatMap.mp hid
  have ⟨i, hi, hop⟩ := List.getElem_of_mem hop
  have hop : arena[i]? = some op := hop ▸ Array.getElem?_eq_getElem hi
  exact (h.descends i op hop id hid).trans hi

theorem perm (h : Sound held arena) (hp : held.Perm held') : Sound held' arena where
  once := (hp.append_right _).nodup_iff.mp h.once
  inside id hid := h.inside id (hp.mem_iff.mpr hid)
  descends := h.descends
  operands := h.operands

theorem sublist (h : Sound held arena) (hs : held'.Sublist held) : Sound held' arena where
  once := h.once.sublist (hs.append (.refl _))
  inside id hid := h.inside id (hs.subset hid)
  descends := h.descends
  operands := h.operands

-- The operand takes over what its indices name, and is itself new.
theorem push (h : Sound (op.relatives ++ held) arena) (hop : op.WellFormed) :
    Sound (arena.size :: held) (arena.push op) where
  once := by
    have hperm : (held ++ (arena.relatives ++ op.relatives)).Perm
        (op.relatives ++ held ++ arena.relatives) := by
      rw [← List.append_assoc]
      exact List.perm_append_comm.trans (by simp)
    have hnew : arena.size ∉ held ++ (arena.relatives ++ op.relatives) := by
      intro hm
      have hm := hperm.mem_iff.mp hm
      cases List.mem_append.mp hm
      case inl hm => exact (h.inside _ hm).ne rfl
      case inr hm => exact (h.lt_size_of_relative hm).ne rfl
    rw [relatives_push]
    exact List.nodup_cons.mpr ⟨hnew, hperm.nodup_iff.mpr h.once⟩
  inside id hid := by
    rw [Array.size_push]
    cases hid
    case head => exact Nat.lt_succ_self _
    case tail hid => exact (h.inside id (List.mem_append_right _ hid)).trans (Nat.lt_succ_self _)
  descends id op' hop' id' hid' := by
    rw [Array.getElem?_push] at hop'
    split at hop'
    case isTrue hid =>
      cases hop'
      exact hid ▸ h.inside id' (List.mem_append_left _ hid')
    case isFalse => exact h.descends id op' hop' id' hid'
  operands op' hop' := by
    cases Array.mem_push.mp hop'
    case inl hm => exact h.operands op' hm
    case inr he => exact he ▸ hop

end Sound

end Arena

open Arena (Sound)

namespace Decoder

-- A decoder that takes over the operands `before` and hands on those that `after` tells from its
-- answer. Whoever holds others meanwhile keeps them.
def Turns {α : Type} (before : List OperandId) (m : Decoder α) (after : α → List OperandId)
    (P : α → Prop) : Prop :=
  ∀ held r a r', Sound (before ++ held) r.operands → m r = .ok a r' →
    Sound (after a ++ held) r'.operands ∧ P a

namespace Turns

variable {α β : Type} {before : List OperandId} {m : Decoder α} {mid : α → List OperandId}
variable {k : α → Decoder β} {after : β → List OperandId} {P : α → Prop} {Q : β → Prop}

theorem pure {b : β} (hb : Q b) (hs : (after b).Subperm before) :
    Turns before (Pure.pure b) after Q := by
  intro held r _ _ hr h
  cases h
  have ⟨_, hp, hs⟩ := hs
  exact ⟨(hr.sublist (hs.append_right held)).perm (hp.append_right held), hb⟩

theorem throw {e : DecodeError} : Turns before (throw e : Decoder β) after Q :=
  nofun

theorem bind (hm : Turns before m mid P) (hk : ∀ a, P a → Turns (mid a) (k a) after Q) :
    Turns before (m >>= k) after Q := by
  intro held r b r' hr h
  simp only [Bind.bind, EStateM.bind] at h
  split at h
  case h_1 a r₁ hm' =>
    have ⟨hr, ha⟩ := hm held r a r₁ hr hm'
    exact hk a ha held r₁ b r' hr h
  case h_2 => cases h

-- What a decoder does with the operands that it reads, it does beside all others.
theorem beside (hm : Turns [] m mid P) : Turns before m (fun a => mid a ++ before) P := by
  intro held r a r' hr h
  rw [List.append_assoc]
  exact hm _ r a r' hr h

theorem mono {mid' : α → List OperandId} {P' : α → Prop} (hm : Turns before m mid P)
    (hs : ∀ a, (mid' a).Subperm (mid a)) (hp : ∀ a, P a → P' a) : Turns before m mid' P' := by
  intro held r a r' hr h
  have ⟨hr, ha⟩ := hm held r a r' hr h
  have ⟨_, hperm, hsub⟩ := hs a
  exact ⟨(hr.sublist (hsub.append_right held)).perm (hperm.append_right held), hp a ha⟩

-- Decoders that push nothing.
theorem quiet (hm : ∀ r a r', m r = .ok a r' → r'.operands = r.operands ∧ P a) :
    Turns before m (fun _ => before) P := by
  intro held r a r' hr h
  have ⟨ho, ha⟩ := hm r a r' h
  exact ⟨ho ▸ hr, ha⟩

end Turns

end Decoder

namespace OperandToken

theorem fits_of_readSelection {token : UInt32} {count : ComponentCount} {s : Selection}
    (h : readSelection token count = .ok s) : s.Fits count := by
  have hlane (offset : Nat) := Word.bits_lt token offset 2
  cases count
  case zero | one =>
    cases h
    rfl
  case four =>
    simp only [readSelection] at h
    split at h <;> cases h
    case h_1 =>
      have hmask := Word.bits_lt token 4 4
      simp only [Selection.Fits, UInt8.lt_iff_toNat_lt, UInt8.toNat_ofNat']
      exact (Nat.mod_le _ _).trans_lt hmask
    case h_2 => simpa [Selection.Fits, Quad.toList] using ⟨hlane 4, hlane 6, hlane 8, hlane 10⟩
    case h_3 => exact hlane 4

theorem fits_of_read {token : UInt32} {t : OperandToken} (h : read token = .ok t) :
    t.selection.Fits t.components ∧ t.forms.length ≤ 3 := by
  simp only [read, bind, Except.bind] at h
  split at h
  case h_1 => cases h
  case h_2 =>
    split at h
    case h_1 => cases h
    case h_2 s hs =>
      split at h <;> cases h
      exact ⟨fits_of_readSelection hs, by grind⟩

end OperandToken

theorem OperandExtension.minPrecision_of_add {e e' : OperandExtension} {word : UInt32}
    (he : e.minPrecision < 8) (h : e.add word = .ok e') : e'.minPrecision < 8 := by
  have hbits := Word.bits_lt word 14 3
  unfold add at h
  split at h
  case h_1 =>
    cases h
    exact he
  case h_2 => split at h <;> cases h <;> exact hbits
  case h_3 => cases h

namespace Decoder

variable {before : List OperandId} {n start : Nat} {token : OperandToken}

theorem turns_position : Turns before position (fun _ => before) fun _ => True := by
  refine .quiet fun r _ _ h => ?_
  cases h
  exact ⟨rfl, trivial⟩

theorem turns_word : Turns before word (fun _ => before) fun _ => True := by
  refine .quiet fun r _ _ h => ?_
  unfold word at h
  split at h <;> cases h
  exact ⟨rfl, trivial⟩

theorem turns_slice : Turns before (slice n) (fun _ => before) fun _ => True := by
  refine .quiet fun r _ _ h => ?_
  unfold slice at h
  split at h <;> cases h
  exact ⟨rfl, trivial⟩

theorem turns_long : Turns before long (fun _ => before) fun _ => True :=
  turns_word.bind fun _ _ => turns_word.bind fun _ _ => .pure trivial (.refl _)

theorem turns_words : Turns before (words n) (fun _ => before) fun ws => ws.length = n := by
  induction n
  case zero => exact .pure rfl (.refl _)
  case succ hi =>
    exact turns_word.bind fun _ _ => hi.bind fun _ hws => .pure (by simp [hws]) (.refl _)

theorem turns_longs : Turns before (longs n) (fun _ => before) fun _ => True := by
  induction n
  case zero => exact .pure trivial (.refl _)
  case succ hi =>
    exact turns_word.bind fun _ _ => turns_word.bind fun _ _ =>
      hi.bind fun _ _ => .pure trivial (.refl _)

theorem turns_extensions {σ : Type} {step : σ → UInt32 → Except DecodeError σ} {init : σ}
    {I : σ → Prop} (hinit : I init) (hstep : ∀ s w s', I s → step s w = .ok s' → I s') :
    Turns before (extensions step init) (fun _ => before) I := by
  refine .quiet fun r s r' h => ?_
  have go (ws : List UInt32) : ∀ r init, I init → extensions.go step ws r init = .ok s r' →
      r'.operands = r.operands ∧ I s := by
    induction ws
    case nil => exact fun _ _ _ h => nomatch h
    case cons w ws hi =>
      intro r init hinit h
      simp only [extensions.go] at h
      split at h
      case h_1 => cases h
      case h_2 s' hs =>
        split at h
        case isTrue => exact hi { r with consumed := _, rest := ws } s' (hstep _ _ _ hinit hs) h
        case isFalse =>
          cases h
          exact ⟨rfl, hstep _ _ _ hinit hs⟩
  exact go r.rest r init hinit h

theorem operandFault_eq_ok_iff {α : Type} {x : Except OperandFault α} {a : α} :
    operandFault start x = .ok a ↔ x = .ok a := by
  cases x <;> simp [operandFault]

theorem turns_liftExcept {α : Type} {x : Except DecodeError α} :
    Turns before (operandWith.liftExcept x) (fun _ => before) fun a => x = .ok a := by
  cases x
  case ok => exact .pure rfl (.refl _)
  case error => exact .throw

theorem turns_push {op : Operand} (hb : before = op.relatives) (hop : op.WellFormed) :
    Turns before (push op) (fun id => [id]) fun _ => True := by
  subst hb
  intro held r _ _ hr h
  cases h
  exact ⟨hr.push hop, trivial⟩

theorem turns_immediate :
    Turns before (immediate start token) (fun _ => before)
      (Immediate.Fits token.register token.components) := by
  unfold immediate
  split
  case h_1 | h_2 => exact .throw
  case h_3 _ _ hkind hsome =>
    refine turns_words.bind fun ws hws => .pure ⟨hkind, ?_, ?_⟩ (.refl _)
    · intro i hi hn
      rw [Quad.get_ofList hi, List.getElem?_eq_none (hws ▸ hn), Option.getD_none]
    · revert hsome
      cases token.components <;> simp [ComponentCount.toNat]
  case h_4 hkind hc =>
    exact turns_longs.bind fun _ _ => .pure ⟨hkind, .inl ⟨hc, rfl, rfl⟩⟩ (.refl _)
  case h_5 hkind hc =>
    exact turns_longs.bind fun _ _ => .pure ⟨hkind, .inr ⟨hc, rfl⟩⟩ (.refl _)
  case h_6 _ _ hwords _ hzero hone hfour =>
    refine .pure ⟨hwords, fun hkind => ?_⟩ (.refl _)
    cases hc : token.components
    case zero => exact hzero hkind hc
    case one => exact hone hkind hc
    case four => exact hfour hkind hc

section Nested

variable {nested : Decoder OperandId}

-- The operands inside an operand are handed over one by one.
variable (hn : Turns [] nested (fun id => [id]) fun _ => True)

include hn

theorem turns_index {form : Nat} :
    Turns [] (index nested start form) Index.relatives fun _ => True := by
  unfold index
  split
  case h_1 => exact turns_word.bind fun _ _ => .pure trivial (.refl _)
  case h_2 => exact turns_long.bind fun _ _ => .pure trivial (.refl _)
  case h_3 => exact hn.bind fun _ _ => .pure trivial (.refl _)
  case h_4 => exact turns_word.bind fun _ _ => hn.bind fun _ _ => .pure trivial (.refl _)
  case h_5 => exact turns_long.bind fun _ _ => hn.bind fun _ _ => .pure trivial (.refl _)
  case h_6 => exact .throw

theorem turns_indices {forms : List Nat} :
    Turns [] (indices nested start forms) (fun is => is.flatMap Index.relatives)
      fun is => is.length = forms.length := by
  induction forms
  case nil => exact .pure rfl (.refl _)
  case cons hi =>
    exact (turns_index hn).bind fun i _ => hi.beside.bind fun is his =>
      .pure (by simp [his]) List.perm_append_comm.subperm

theorem turns_operandWith : Turns [] (operandWith nested) (fun id => [id]) fun _ => True := by
  refine turns_position.bind fun start _ => turns_word.bind fun word _ => ?_
  refine turns_liftExcept.bind fun token htoken => ?_
  have ⟨hselection, hforms⟩ := OperandToken.fits_of_read (operandFault_eq_ok_iff.mp htoken)
  -- The rest is the same with and without extension words.
  extract_lets rest
  have hrest (e : OperandExtension) (he : e.minPrecision < 8) :
      Turns [] (rest e) (fun id => [id]) fun _ => True :=
    (turns_indices hn).bind fun _ hlength => turns_immediate.bind fun _ himmediate =>
      turns_push rfl ⟨hlength ▸ hforms, hselection, he, himmediate⟩
  split
  case isTrue =>
    have hstep (e : OperandExtension) (word : UInt32) (e' : OperandExtension)
        (he : e.minPrecision < 8) (h : operandFault start (e.add word) = .ok e') :=
      OperandExtension.minPrecision_of_add he (operandFault_eq_ok_iff.mp h)
    exact (turns_extensions (by decide) hstep).bind hrest
  case isFalse => exact hrest {} (by decide)

end Nested

theorem turns_operandWithin {bound : Nat} :
    Turns [] (operandWithin bound) (fun id => [id]) fun _ => True := by
  induction bound
  case zero => exact nofun
  case succ hi => exact turns_operandWith hi

theorem turns_operand : Turns [] operand (fun id => [id]) fun _ => True :=
  fun held r id r' => turns_operandWithin held r id r'

end Decoder

end ShaderLift
