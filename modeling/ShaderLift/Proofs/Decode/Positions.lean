import ShaderLift.Proofs.Decode.Append
import ShaderLift.Proofs.Decode.WellFormed

/-!
Positions of decoded elements. They ascend along the stream, so a declaration stands behind exactly
those instructions that it counts.
-/

namespace ShaderLift

namespace Decoder

theorem exists_of_bind {α β : Type} {m : Decoder α} {k : α → Decoder β} {b : β} {r r' : Reader}
    (h : (m >>= k) r = .ok b r') : ∃ a r₁, m r = .ok a r₁ ∧ k a r₁ = .ok b r' := by
  simp only [Bind.bind, EStateM.bind] at h
  split at h
  case h_1 hm => exact ⟨_, _, hm, h⟩
  case h_2 => cases h

theorem head_of_instruction {start : Nat} {op : Opcode} {token : UInt32} {r r' : Reader}
    {inst : Instruction} (h : instruction start op token r = .ok inst r') :
    inst.opcode = op ∧ inst.position = start := by
  have ⟨_, _, _, h⟩ := exists_of_bind h
  have ⟨_, _, _, h⟩ := exists_of_bind h
  have ⟨_, _, _, h⟩ := exists_of_bind h
  have ⟨_, _, _, h⟩ := exists_of_bind h
  split at h
  case h_1 =>
    split at h
    case isTrue => cases h
    case isFalse =>
      cases h
      exact ⟨rfl, rfl⟩
  case h_2 =>
    cases h
    exact ⟨rfl, rfl⟩

end Decoder

namespace Element

-- Where an element starts that the program keeps.
def position? : Element → Option Nat
  | declaration _ position => some position
  | instruction inst => some inst.position
  | skipped => none

-- Every element that is kept starts before all those behind it, and none before `position`.
def Ascending (position : Nat) (es : List Element) : Prop :=
  (es.filterMap position?).Pairwise (· < ·) ∧ ∀ n ∈ es.filterMap position?, position ≤ n

end Element

namespace Frame

def isInstruction (f : Frame) : Bool :=
  f.opcode ≠ .customData && !f.opcode.isDeclaration

-- Declarations, and data blocks with the immediate constant buffer. All other data is skipped.
def isDeclaration (f : Frame) : Bool :=
  if f.opcode = .customData then f.token >>> 11 = 3 else f.opcode.isDeclaration

-- What frames of each kind hold.
inductive Yields (f : Frame) : Element → Prop
  | instruction {inst} (kind : f.isInstruction) (opcode : inst.opcode = f.opcode)
      (position : inst.position = f.position) : Yields f (.instruction inst)
  | declaration {declared} (kind : f.isDeclaration) : Yields f (.declaration declared f.position)
  | skipped (data : f.opcode = .customData) (kind : ¬f.isDeclaration) : Yields f .skipped

variable {stage : Stage} {f : Frame} {arena arena' : Arena} {e : Element}

theorem yields_of_read (h : f.read stage arena = .ok (e, arena')) : f.Yields e := by
  obtain ⟨hdata, rfl, _⟩ | ⟨hdata, _, _, _, _, hr⟩ := exists_body_of_read h
  case inl =>
    unfold readData
    split
    case isTrue hclass => exact .declaration (by simp [isDeclaration, hdata, hclass])
    case isFalse hclass => exact .skipped hdata (by simp [isDeclaration, hdata, hclass])
  case inr =>
    unfold readBody at hr
    split at hr
    case isTrue hop =>
      have ⟨_, _, _, hr⟩ := Decoder.exists_of_bind hr
      cases hr
      exact .declaration (by simp [isDeclaration, hdata, hop])
    case isFalse hop =>
      have ⟨inst, _, hinst, hr⟩ := Decoder.exists_of_bind hr
      cases hr
      have ⟨hopcode, hposition⟩ := Decoder.head_of_instruction hinst
      exact .instruction (by simp [isInstruction, hdata, hop]) hopcode hposition

theorem position_of_yields (h : f.Yields e) : ∀ n ∈ e.position?, n = f.position := by
  cases h <;> simp_all [Element.position?]

end Frame

theorem ascending_of_readFrames {stage : Stage} {bound position : Nat} {ws : List UInt32}
    {es : List Element} {arena arena' : Arena}
    (h : readFrames stage bound position ws arena = .ok (es, arena')) :
    Element.Ascending position es := by
  induction bound generalizing position ws es arena
  case zero => cases ws <;> cases h <;> simp [Element.Ascending]
  case succ bound hi =>
    cases ws
    case nil =>
      cases h
      simp [Element.Ascending]
    case cons token rest =>
      have ⟨f, hcut, h⟩ := bind_eq_ok_iff.mp h
      have ⟨(e, arena₁), hread, h⟩ := bind_eq_ok_iff.mp h
      have ⟨(es', arena₂), hrest, h⟩ := bind_eq_ok_iff.mp h
      cases h
      have ⟨_, _, _, _, _, hf⟩ := Frame.cut_eq_ok_iff.mp hcut
      have hposition : f.position = position := congrArg Frame.position hf
      have ⟨hsorted, hbehind⟩ := hi hrest
      have hbehind n (hn : n ∈ es'.filterMap Element.position?) : position < n := by
        have := hbehind n hn
        rw [Frame.length] at this
        omega
      have he := Frame.position_of_yields (Frame.yields_of_read hread)
      unfold Element.Ascending
      cases hp : e.position?
      case none =>
        rw [List.filterMap_cons_none hp]
        exact ⟨hsorted, fun n hn => (hbehind n hn).le⟩
      case some n =>
        have hn : n = position := (he n hp).trans hposition
        rw [List.filterMap_cons_some hp, hn]
        refine ⟨List.pairwise_cons.mpr ⟨hbehind, hsorted⟩, List.forall_mem_cons.mpr ⟨le_refl _, ?_⟩⟩
        exact fun n hn => (hbehind n hn).le

-- A declaration counts the instructions that start before it.
structure Declaration.Counts (d : Declaration) (before : Nat) (insts : List Instruction) :
    Prop where
  least  : before ≤ d.instructionsBefore
  most   : d.instructionsBefore ≤ before + insts.length
  behind : ∀ i inst, insts[i]? = some inst →
    (before + i < d.instructionsBefore ↔ inst.position < d.position)
  apart  : ∀ inst ∈ insts, inst.position ≠ d.position

namespace Declaration.Counts

variable {d : Declaration} {insts : List Instruction} {i : Nat} (h : d.Counts 0 insts)

include h

theorem lt_iff (hi : i < insts.length) :
    i < d.instructionsBefore ↔ ∀ inst, insts[i]? = some inst → inst.position < d.position := by
  have hget := List.getElem?_eq_getElem hi
  rw [← Nat.zero_add i, h.behind i _ hget]
  simp [hget]

theorem le_iff :
    d.instructionsBefore ≤ i ↔ ∀ inst, insts[i]? = some inst → d.position < inst.position := by
  cases hget : insts[i]?
  case none =>
    have := h.most
    have := List.getElem?_eq_none_iff.mp hget
    simp
    omega
  case some inst =>
    have hbehind := h.behind i inst hget
    have hapart := h.apart inst (List.mem_of_getElem? hget)
    simp
    omega

end Declaration.Counts

namespace Element

variable {es : List Element}

theorem lt_of_ascending {position n : Nat} {e : Element} (h : Ascending position (e :: es))
    (he : e.position? = some n) : ∀ e' ∈ es, ∀ n' ∈ e'.position?, n < n' := by
  have ⟨hsorted, _⟩ := h
  rw [List.filterMap_cons_some he] at hsorted
  intro e' he' n' hn'
  exact (List.pairwise_cons.mp hsorted).1 n' (List.mem_filterMap.mpr ⟨e', he', hn'⟩)

theorem Ascending.tail {position : Nat} {e : Element} (h : Ascending position (e :: es)) :
    Ascending position es := by
  have hs : (es.filterMap position?).Sublist ((e :: es).filterMap position?) :=
    (List.sublist_cons_self e es).filterMap _
  exact ⟨h.1.sublist hs, fun n hn => h.2 n (hs.subset hn)⟩

theorem position_of_mem_instructions {inst : Instruction} (h : inst ∈ es.filterMap instruction?) :
    ∃ e ∈ es, e.position? = some inst.position := by
  have ⟨e, he, hinst⟩ := List.mem_filterMap.mp h
  refine ⟨e, he, ?_⟩
  cases e <;> cases hinst
  rfl

theorem position_of_mem_declarations {before : Nat} {d : Declaration}
    (h : d ∈ declarations before es) : ∃ e ∈ es, e.position? = some d.position := by
  fun_induction declarations before es
  case case1 => cases h
  case case2 hi =>
    cases h
    case head => exact ⟨_, List.mem_cons_self, rfl⟩
    case tail h =>
      have ⟨e, he, hd⟩ := hi h
      exact ⟨e, List.mem_cons_of_mem _ he, hd⟩
  case case3 hi | case4 hi =>
    have ⟨e, he, hd⟩ := hi h
    exact ⟨e, List.mem_cons_of_mem _ he, hd⟩

theorem counts_of_mem_declarations {position before : Nat} {d : Declaration}
    (h : Ascending position es) (hd : d ∈ declarations before es) :
    d.Counts before (es.filterMap instruction?) := by
  fun_induction declarations before es
  case case1 => cases hd
  case case2 before declared n es hi =>
    have hlt := lt_of_ascending h (n := n) rfl
    cases hd
    case tail hd => exact hi h.tail hd
    case head =>
      have hinst {inst : Instruction} (hinst : inst ∈ es.filterMap instruction?) :
          n < inst.position := by
        have ⟨e, he, hp⟩ := position_of_mem_instructions hinst
        exact hlt e he _ hp
      refine ⟨le_refl _, Nat.le_add_right .., fun i inst hi => ?_, fun inst hm => (hinst hm).ne'⟩
      have := hinst (List.mem_of_getElem? hi)
      change before + i < before ↔ inst.position < n
      omega
  case case3 before inst es hi =>
    have hc := hi h.tail hd
    have hlt : inst.position < d.position := by
      have ⟨e, he, hp⟩ := position_of_mem_declarations hd
      exact lt_of_ascending h (e := .instruction inst) rfl e he _ hp
    rw [List.filterMap_cons_some (f := instruction?) rfl]
    refine ⟨(Nat.le_succ _).trans hc.least, ?_, fun i inst' hi => ?_, ?_⟩
    case refine_1 =>
      have := hc.most
      rw [List.length_cons]
      omega
    case refine_2 =>
      cases i
      case zero =>
        cases hi
        have := hc.least
        exact ⟨fun _ => hlt, fun _ => by omega⟩
      case succ i =>
        have := hc.behind i inst' hi
        rw [← this]
        omega
    case refine_3 => exact List.forall_mem_cons.mpr ⟨hlt.ne, hc.apart⟩
  case case4 hi => exact hi h.tail hd

end Element

theorem Program.counts_of_decode {tokens : List UInt32} {p : Program} (h : decode tokens = .ok p) :
    ∀ d ∈ p.declarations, d.Counts 0 p.instructions := by
  have ⟨_, _, _, es, hframes, hdeclarations, hinstructions⟩ := exists_frames_of_decode h
  rw [hdeclarations, hinstructions]
  exact fun d hd => Element.counts_of_mem_declarations (ascending_of_readFrames hframes) hd

end ShaderLift
