import ShaderLift.Lift.Context
import ShaderLift.Proofs.Decode.Operands

/-!
How deep sources are nested. Reading an operand reads those in its indices and no others, so where
indices name earlier operands only, the bound on the depth is never met.
-/

namespace ShaderLift

theorem bind_congr_of_ok {ε α β : Type} {x : Except ε α} {f g : α → Except ε β}
    (h : ∀ a, x = .ok a → f a = g a) : x >>= f = x >>= g := by
  cases x
  case ok a => exact h a rfl
  case error => rfl

namespace Context

open Glsl

variable {c : Context} {nested nested' : OperandId → Except LiftError Expr}

theorem indexExpr_congr {i : Index} (h : ∀ id ∈ i.relatives, nested id = nested' id) :
    c.indexExpr nested i = c.indexExpr nested' i := by
  cases i
  case imm | wide => rfl
  case relative id | immRelative _ id | wideRelative _ id =>
    have h : nested id = nested' id := h id (List.mem_singleton_self id)
    simp only [indexExpr, h]

section Operand

variable {op : Operand} (h : ∀ id ∈ op.relatives, nested id = nested' id)

include h

theorem indexExpr_nthIndex_congr {n : Nat} {i : Index} (hi : c.nthIndex op n = .ok i) :
    c.indexExpr nested i = c.indexExpr nested' i := by
  have hmem : i ∈ op.indices := by
    refine List.mem_of_getElem? (i := n) ?_
    unfold nthIndex orUnsupported at hi
    split at hi <;> cases hi
    assumption
  exact indexExpr_congr fun id hid => h id (List.mem_flatMap.mpr ⟨i, hmem, hid⟩)

theorem element_congr {name : Name} {n : Nat} :
    c.element nested name op n = c.element nested' name op n :=
  bind_congr_of_ok fun i hi => by rw [indexExpr_nthIndex_congr h hi]

theorem vertexElement_congr {file : RegisterFile} {stride : UInt32} :
    c.vertexElement nested file stride op = c.vertexElement nested' file stride op := by
  refine bind_congr_of_ok fun outer ho => bind_congr_of_ok fun inner hi => ?_
  rw [flatIndex, flatIndex, indexExpr_nthIndex_congr h ho, indexExpr_nthIndex_congr h hi]

theorem base_congr : c.base nested op = c.base nested' op := by
  simp only [base, element_congr h, vertexElement_congr h]

end Operand

variable {id : OperandId}

theorem sourceWith_congr {want : ValueType} {lanes : List Nat}
    (h : ∀ op, c.program.operands[id]? = some op → ∀ id' ∈ op.relatives, nested id' = nested' id') :
    c.sourceWith nested id want lanes = c.sourceWith nested' id want lanes := by
  refine congrArg (· >>= _) (bind_congr_of_ok fun op hop => ?_)
  unfold operand Program.operand at hop
  split at hop <;> cases hop
  simp only [registerSource, base_congr (h op ‹_›)]

theorem indexSource_eq_of_lt
    (h : ∀ (id : OperandId) op, c.program.operands[id]? = some op → ∀ id' ∈ op.relatives, id' < id)
    {depth : Nat} (hd : id < depth) : c.indexSource depth id = c.indexSource (id + 1) id := by
  induction id using Nat.strongRecOn generalizing depth
  case ind id hi =>
    cases depth
    case zero => cases hd
    case succ depth =>
      refine sourceWith_congr fun op hop id' hid' => ?_
      have hlt := h id op hop id' hid'
      rw [hi id' hlt (hlt.trans_le (Nat.le_of_lt_succ hd)), hi id' hlt hlt]

end Context

end ShaderLift
