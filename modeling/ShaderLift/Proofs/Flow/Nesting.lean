import ShaderLift.Flow
import Mathlib.Algebra.Order.Group.Int.Sum
import Mathlib.Data.List.Chain

/-!
Block structure by counting: how deep the blocks of an instruction list nest in front of each
instruction, which blocks are open there, and which instructions belong to one block.
-/

namespace ShaderLift

namespace Flow

-- What an opcode means for the block structure.
inductive Role where
  | opener (kind : BlockKind)
  | divider (kind : BlockKind)
  | closer (kind : BlockKind)
  -- Leaves, or starts again, the innermost block of one of these kinds.
  | jump (targets : List BlockKind)
  | label
  | ret
  -- The operand in this slot names a label.
  | call (slot : Nat)
  | marker
  | plain
  deriving DecidableEq, Repr

def Role.shift : Role → Int
  | opener _ => 1
  | closer _ => -1
  | _ => 0

def Role.isStructural : Role → Bool
  | opener _ | divider _ | closer _ => true
  | _ => false

end Flow

def Opcode.role : Opcode → Flow.Role
  | beginIf => .opener .conditional
  | beginLoop => .opener .loop
  | beginSwitch => .opener .choice
  | orElse => .divider .conditional
  | caseLabel | defaultLabel => .divider .choice
  | endIf => .closer .conditional
  | endLoop => .closer .loop
  | endSwitch => .closer .choice
  | breakOut | breakIf => .jump [.loop, .choice]
  | continueLoop | continueIf => .jump [.loop]
  | label => .label
  | ret => .ret
  | call => .call 0
  | callIf => .call 1
  | op => if op.kind = .phaseMarker then .marker else .plain

def Flow.BlockKind.dividing : BlockKind → List Opcode
  | conditional => [.orElse]
  | loop => []
  | choice => [.caseLabel, .defaultLabel]

theorem Opcode.role_eq_divider_iff {op : Opcode} {kind : Flow.BlockKind} :
    op.role = .divider kind ↔ op ∈ kind.dividing := by
  have h : ∀ op ∈ all, op.role = .divider kind ↔ op ∈ kind.dividing := by
    cases kind <;> decide +kernel
  exact h op op.mem_all

namespace Flow

def roleAt (insts : List Instruction) (i : Nat) : Option Role :=
  insts[i]?.map (·.opcode.role)

-- How many blocks are open in front of instruction `i`.
def depthAt (insts : List Instruction) (i : Nat) : Int :=
  ((insts.take i).map (·.opcode.role.shift)).sum

-- The block that instruction `o` opens has not been closed in front of instruction `i`.
structure OpenAt (insts : List Instruction) (kind : BlockKind) (o i : Nat) : Prop where
  opens  : roleAt insts o = some (.opener kind)
  lt     : o < i
  deeper : ∀ m, o < m → m ≤ i → depthAt insts o < depthAt insts m

-- Instruction `c` closes the block that instruction `o` opens.
structure Block (insts : List Instruction) (kind : BlockKind) (o c : Nat) : Prop where
  open_at : OpenAt insts kind o c
  closes  : roleAt insts c = some (.closer kind)
  depth   : depthAt insts c = depthAt insts o + 1

def dividesAt (insts : List Instruction) (o k : Nat) : Bool :=
  o < k && depthAt insts k = depthAt insts o + 1 &&
    match roleAt insts k with
    | some (.divider _) => true
    | _ => false

-- The instructions before `i` that divide the block that instruction `o` opens.
def dividers (insts : List Instruction) (o i : Nat) : List Nat :=
  (List.range i).filter (dividesAt insts o)

variable {insts : List Instruction} {kind kind' : BlockKind} {o o' c c' i k : Nat}

theorem roleAt_eq_of_getElem? {inst : Instruction} (h : insts[i]? = some inst) :
    roleAt insts i = some inst.opcode.role := by
  simp [roleAt, h]

theorem lt_length_of_roleAt {r : Role} (h : roleAt insts i = some r) : i < insts.length := by
  by_contra hn
  simp [roleAt, List.getElem?_eq_none (Nat.le_of_not_lt hn)] at h

@[simp] theorem depthAt_zero : depthAt insts 0 = 0 := by
  simp [depthAt]

theorem depthAt_succ {r : Role} (h : roleAt insts i = some r) :
    depthAt insts (i + 1) = depthAt insts i + r.shift := by
  have ⟨inst, hi, hr⟩ := Option.map_eq_some_iff.mp h
  simp [depthAt, List.take_add_one, hi, hr]

theorem dividers_succ :
    dividers insts o (i + 1) = dividers insts o i ++ if dividesAt insts o i then [i] else [] := by
  simp [dividers, List.range_succ, List.filter_append, List.filter_cons]

theorem mem_dividers : k ∈ dividers insts o i ↔ k < i ∧ dividesAt insts o k := by
  simp [dividers]

theorem dividesAt_iff :
    dividesAt insts o k ↔
      o < k ∧ depthAt insts k = depthAt insts o + 1 ∧
        ∃ kind, roleAt insts k = some (.divider kind) := by
  unfold dividesAt
  split <;> simp_all

theorem dividers_self : dividers insts o (o + 1) = [] := by
  refine List.filter_eq_nil_iff.mpr fun k hk hd => ?_
  have := (dividesAt_iff.mp hd).left
  have := List.mem_range.mp hk
  omega

namespace OpenAt

theorem mono (h : OpenAt insts kind o i) (hk : o < k) (hi : k ≤ i) : OpenAt insts kind o k where
  opens := h.opens
  lt := hk
  deeper m ho hm := h.deeper m ho (le_trans hm hi)

theorem succ (h : OpenAt insts kind o i) (hd : depthAt insts o < depthAt insts (i + 1)) :
    OpenAt insts kind o (i + 1) where
  opens := h.opens
  lt := Nat.lt_succ_of_lt h.lt
  deeper m ho hm := by
    cases Nat.lt_or_eq_of_le hm
    case inl hm => exact h.deeper m ho (Nat.le_of_lt_succ hm)
    case inr hm => exact hm ▸ hd

theorem start (h : roleAt insts o = some (.opener kind)) : OpenAt insts kind o (o + 1) where
  opens := h
  lt := Nat.lt_succ_self o
  deeper m ho hm := by
    have : m = o + 1 := by omega
    rw [this, depthAt_succ h]
    exact Int.lt_succ _

end OpenAt

namespace Block

theorem depth_after (b : Block insts kind o c) : depthAt insts (c + 1) = depthAt insts o := by
  rw [depthAt_succ b.closes, b.depth]
  simp [Role.shift]

theorem closer_unique (b : Block insts kind o c) (b' : Block insts kind' o c') : c = c' := by
  by_contra hne
  cases Nat.lt_or_gt_of_ne hne
  case inl h =>
    have := b'.open_at.deeper (c + 1) (Nat.lt_succ_of_lt b.open_at.lt) h
    exact absurd b.depth_after (ne_of_gt this)
  case inr h =>
    have := b.open_at.deeper (c' + 1) (Nat.lt_succ_of_lt b'.open_at.lt) h
    exact absurd b'.depth_after (ne_of_gt this)

theorem opener_unique (b : Block insts kind o c) (b' : Block insts kind' o' c) : o = o' := by
  have he : depthAt insts o = depthAt insts o' := by
    have := b.depth
    have := b'.depth
    omega
  by_contra hne
  cases Nat.lt_or_gt_of_ne hne
  case inl h => exact absurd he (ne_of_lt <| b.open_at.deeper o' h (le_of_lt b'.open_at.lt))
  case inr h => exact absurd he.symm (ne_of_lt <| b'.open_at.deeper o h (le_of_lt b.open_at.lt))

-- The later of two blocks starts behind the other one, or ends inside of it.
theorem disjoint_or_inside (b : Block insts kind o c) (b' : Block insts kind' o' c') (h : o < o') :
    c < o' ∨ c' < c := by
  by_contra hn
  obtain ⟨ho, hc⟩ := not_or.mp hn
  have hd := b.open_at.deeper o' h (Nat.le_of_not_lt ho)
  have hne : c ≠ c' := fun he => absurd (b.opener_unique (he ▸ b')) (ne_of_lt h)
  have hd' := b'.open_at.deeper (c + 1) (by omega) (by omega)
  rw [b.depth_after] at hd'
  omega

end Block

end Flow

end ShaderLift
