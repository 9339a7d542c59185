import ShaderLift.Proofs.Bounds.Stays
import ShaderLift.Proofs.Glsl.Calls
import ShaderLift.Proofs.Lift.Sources

/-!
Reading an operand takes no calls but common ones, however it is indexed. An instruction has no
destination exactly if its operand drops what is written to it.
-/

namespace ShaderLift

open Glsl

-- What a computation gives, if it gives anything.
abbrev Gives {α : Type} (P : α → Prop) (x : Except LiftError α) : Prop :=
  Ends (fun _ => True) P x

-- The same while functions are written. Names that are used up stay so.
def Emit.Gives {α : Type} (P : α → Prop) (x : Emit α) : Prop :=
  ∀ s, ShaderLift.Gives (fun r => P r.1 ∧ s.fresh ≤ r.2.fresh) (x.run s)

section

variable {α β : Type} {P : α → Prop} {R : β → Prop}

theorem Ends.of_ok {x : Except LiftError α} {a : α} (hx : Gives P x) (h : x = .ok a) : P a := by
  subst h
  exact hx

theorem Ends.error {e : LiftError} : Gives P (.error e) :=
  trivial

theorem Ends.skip {x : Except LiftError α} {f : α → Except LiftError β} (h : ∀ a, Gives R (f a)) :
    Gives R (x >>= f) := by
  cases x
  case ok a => exact h a
  case error => exact .error

namespace Emit.Gives

variable {x : Emit α} {f : α → Emit β} {a : α} {s s' : Progress}

theorem of_run (hx : Emit.Gives P x) (h : x.run s = .ok (a, s')) : P a ∧ s.fresh ≤ s'.fresh := by
  have hs := hx s
  rwa [h] at hs

theorem pure (h : P a) : Emit.Gives P (Pure.pure a) :=
  fun _ => ⟨h, Nat.le_refl _⟩

theorem fail {e : LiftError} : Emit.Gives P (MonadExcept.throw e) :=
  fun _ => trivial

theorem lift {x : Except LiftError α} (h : ShaderLift.Gives P x) :
    Emit.Gives P (liftM x : Emit α) :=
  fun _ => .bind h fun _ h => ⟨h, Nat.le_refl _⟩

-- Steps that only add to what has been written.
theorem step {g : Progress → α × Progress} (hg : ∀ s, s.fresh ≤ (g s).2.fresh) :
    Emit.Gives (fun _ => True) (modifyGet g) :=
  fun s => ⟨trivial, hg s⟩

theorem mono {Q : α → Prop} (hx : Emit.Gives P x) (h : ∀ a, P a → Q a) : Emit.Gives Q x :=
  fun s => (hx s).mono fun r hr => ⟨h r.1 hr.left, hr.right⟩

theorem bind (hx : Emit.Gives P x) (hf : ∀ a, P a → Emit.Gives R (f a)) :
    Emit.Gives R (x >>= f) :=
  fun s => .bind (hx s) fun (a, t) ⟨ha, ht⟩ =>
    (hf a ha t).mono fun _ ⟨hr, ht'⟩ => ⟨hr, ht.trans ht'⟩

theorem skip {x : Except LiftError α} (h : ∀ a, Emit.Gives R (f a)) :
    Emit.Gives R (liftM x >>= f) := by
  intro s
  cases x
  case ok a => exact h a s
  case error => exact trivial

theorem ite {p : Prop} [Decidable p] {y : Emit α} (hx : p → Emit.Gives P x)
    (hy : ¬p → Emit.Gives P y) : Emit.Gives P (if p then x else y) := by
  split
  case isTrue h => exact hx h
  case isFalse h => exact hy h

theorem mapM {l : List α} (h : ∀ a ∈ l, Emit.Gives R (f a)) :
    Emit.Gives (fun bs => bs.length = l.length ∧ ∀ b ∈ bs, R b) (l.mapM f) := by
  induction l
  case nil => exact .pure ⟨rfl, List.forall_mem_nil _⟩
  case cons a l hi =>
    have ⟨ha, hl⟩ := List.forall_mem_cons.mp h
    rw [List.mapM_cons]
    refine .bind ha fun b hb => .bind (hi hl) fun bs ⟨hlength, hbs⟩ => ?_
    exact .pure ⟨congrArg Nat.succ hlength, List.forall_mem_cons.mpr ⟨hb, hbs⟩⟩

end Emit.Gives

theorem Emit.gives_get : Emit.Gives (fun _ => True) (get : Emit Progress) :=
  fun _ => ⟨trivial, Nat.le_refl _⟩

theorem Emit.gives_modify {g : Progress → Progress} (hg : ∀ s, s.fresh ≤ (g s).fresh) :
    Emit.Gives (fun _ => True) (modify g : Emit Unit) :=
  .step hg

theorem Emit.gives_freshName : Emit.Gives (fun _ => True) Emit.freshName :=
  .step fun _ => Nat.le_succ _

theorem Emit.gives_useExtension {e : Extension} :
    Emit.Gives (fun _ => True) (Emit.useExtension e) :=
  Emit.gives_modify fun _ => Nat.le_refl _

end

-- An operand that nothing is written to: the null register, or none of its components.
def Operand.isDropped (op : Operand) : Bool :=
  op.register = .null || op.writeMask.isEmpty

-- Operand `i` of an instruction.
def Program.operandOf? (p : Program) (inst : Instruction) (i : Nat) : Option Operand :=
  inst.operands[i]?.bind (p.operands[·]?)

def Program.drops (p : Program) (inst : Instruction) (i : Nat) : Bool :=
  (p.operandOf? inst i).any Operand.isDropped

-- A destination, which is there unless what is written to it is dropped.
def Destined (V : Vocabulary) (dropped : Bool) : Option Destination → Prop
  | none => dropped = true
  | some dst => dropped = false ∧ dst.target.Targets V

namespace Context

variable {c : Context} {op : Operand} {id : OperandId} {inst : Instruction} {want : ValueType}
variable {lanes components : List Nat} {i : Nat} {V : Vocabulary}

theorem gives_operand : Gives (fun op => c.program.operands[id]? = some op) (c.operand id) := by
  unfold operand Program.operand
  cases c.program.operands[id]?
  case none => exact .error
  case some => exact .pure rfl

theorem gives_arg : Gives (fun id => inst.operands[i]? = some id) (c.arg inst i) := by
  unfold arg
  cases inst.operands[i]?
  case none => exact .error
  case some => exact .pure rfl

theorem calls_namedConstants {slot : UInt32} {ms : List Member} :
    Gives (Expr.Calls V) (c.namedConstants slot ms op components want) := by
  refine .skip fun register => ?_
  refine .bind (.mapM (R := Expr.Calls V) fun component _ => ?_) fun _ ⟨_, hlanes⟩ =>
    .pure (calls_construct hlanes)
  refine .skip fun _ => ?_
  cases h : Member.laneAt c.dialect ms register component
  case uncovered => exact .error
  case value =>
    refine .pure (calls_cast.mpr (Member.of_laneAt h ?_ ?_ ?_ ?_))
    all_goals simp +contextual
  case padding => exact .pure calls_zero

section Nested

variable {nested : OperandId → Except LiftError Expr} (hn : ∀ id, Gives (Expr.Calls V) (nested id))

include hn

theorem calls_indexExpr {index : Index} : Gives (Expr.Calls V) (c.indexExpr nested index) := by
  cases index
  case imm => exact .pure Expr.calls_number
  case relative id => exact hn id
  case immRelative id => exact .bind (hn id) fun _ he => .pure (by simp [he])
  case wide => exact .skip fun _ => .pure (by simp +decide)
  case wideRelative id =>
    exact .skip fun _ => .bind (hn id) fun _ he => .pure (by simp +decide [he])

theorem calls_element {name : Name} : Gives (Expr.Calls V) (c.element nested name op i) :=
  .skip fun _ => .bind (calls_indexExpr hn) fun _ he => .pure (by simp [he])

theorem calls_vertexElement {file : RegisterFile} {stride : UInt32} :
    Gives (Expr.Calls V) (c.vertexElement nested file stride op) := by
  refine .skip fun outer => .skip fun inner => ?_
  refine .bind (P := Expr.Calls V) ?_ fun _ he => .pure (by simp [he])
  unfold flatIndex
  split
  case h_1 => exact .skip fun _ => .pure Expr.calls_number
  case h_2 =>
    exact .bind (calls_indexExpr hn) fun _ ha => .bind (calls_indexExpr hn) fun _ hb =>
      .pure (by simp [ha, hb])

theorem calls_base : Gives (fun b => b.1.Calls V) (c.base nested op) := by
  have float {x : Except LiftError Expr} (hx : Gives (Expr.Calls V) x) :
      Gives (fun b => b.1.Calls V) (x >>= fun e => pure (e, ValueType.float)) :=
    .bind hx fun _ he => .pure he
  have element {name : Name} {i : Nat} : Gives (fun b => b.1.Calls V)
      (c.element nested name op i >>= fun e => pure (e, ValueType.float)) :=
    float (calls_element hn)
  have vertexElement {file : RegisterFile} {stride : UInt32} : Gives (fun b => b.1.Calls V)
      (c.vertexElement nested file stride op >>= fun e => pure (e, ValueType.float)) :=
    float (calls_vertexElement hn)
  unfold base
  dsimp only
  cases op.register
  case temp => exact .skip fun _ => .pure Expr.calls_var
  case indexableTemp => exact .skip fun _ => .skip fun _ => element
  case input =>
    cases c.stage
    case geometry | hull | domain => exact .ite (fun _ => vertexElement) fun _ => element
    all_goals exact element
  case inputControlPoint => exact .ite (fun _ => vertexElement) fun _ => .error
  case outputControlPoint =>
    exact .ite (fun _ => .ite (fun _ => vertexElement) fun _ => element) fun _ => .error
  case inputPatchConstant =>
    cases c.stage
    case hull | domain => exact element
    all_goals exact .error
  case output => cases c.scope <;> exact element
  case constantBuffer => exact .skip fun _ => element
  case immediateConstantBuffer =>
    exact .ite (fun _ => .error) fun _ => .bind (calls_element hn) fun _ he => .pure he
  case inputCoverageMask => exact .skip fun _ => .pure (by simp [vec])
  case inputPrimitiveId | inputGsInstanceId | outputControlPointId | inputForkInstanceId
      | inputJoinInstanceId | inputThreadId | inputThreadGroupId | inputThreadIdInGroup
      | inputThreadIdInGroupFlattened =>
    exact .pure (by simp [vec])
  case inputDomainPoint => exact .pure (by simp +decide)
  all_goals exact .error

-- Registers that instructions write to are targets.
theorem targets_base (hop : op.register ∈ [.temp, .indexableTemp, .output]) :
    Gives (fun b => b.1.Targets V) (c.base nested op) := by
  have element {name : Name} {i : Nat} (hname : name.isTarget) : Gives (fun b => b.1.Targets V)
      (c.element nested name op i >>= fun e => pure (e, ValueType.float)) :=
    .bind (P := Expr.Targets V) (.skip fun _ => .bind (calls_indexExpr hn) fun _ he =>
      .pure ⟨List.forall_mem_singleton.mpr (V.sets hname), by simp [he]⟩) fun _ he => .pure he
  unfold base
  simp only [List.mem_cons, List.not_mem_nil, or_false] at hop
  obtain hop | hop | hop := hop <;> simp only [hop]
  case inl =>
    exact .skip fun _ => .pure ⟨List.forall_mem_singleton.mpr (V.sets rfl), Expr.calls_var⟩
  case inr.inl => exact .skip fun _ => .skip fun _ => element rfl
  case inr.inr => cases c.scope <;> exact element rfl

theorem calls_registerSource :
    Gives (Expr.Calls V) (c.registerSource nested op want components) :=
  .bind (calls_base hn) fun (_, _) he => .pure (calls_cast.mpr (Expr.calls_pick.mpr he))

theorem calls_rawSourceWith : Gives (Expr.Calls V) (c.rawSourceWith nested id want lanes) := by
  refine .skip fun op => ?_
  extract_lets components
  cases op.register
  case immediate32 | immediate64 =>
    refine .bind (.mapM (R := Expr.Calls V) fun _ _ => ?_) fun _ ⟨_, hlanes⟩ =>
      .pure (calls_construct hlanes)
    exact .skip fun _ => .pure calls_literal
  case constantBuffer =>
    refine .skip fun buffer => ?_
    cases buffer.members
    case some => exact calls_namedConstants
    case none => exact calls_registerSource hn
  all_goals exact calls_registerSource hn

theorem calls_sourceWith : Gives (Expr.Calls V) (c.sourceWith nested id want lanes) :=
  .bind (calls_rawSourceWith hn) fun _ he => .skip fun _ => .pure (calls_modify.mpr he)

end Nested

theorem calls_indexSource {depth : Nat} : Gives (Expr.Calls V) (c.indexSource depth id) := by
  induction depth generalizing id
  case zero => exact .error
  case succ hi => exact calls_sourceWith fun _ => hi

theorem calls_source (V : Vocabulary) : Gives (Expr.Calls V) (c.source id want lanes) :=
  calls_sourceWith fun _ => calls_indexSource

theorem calls_rawSource (V : Vocabulary) : Gives (Expr.Calls V) (c.rawSource id want lanes) :=
  calls_rawSourceWith fun _ => calls_indexSource

theorem calls_argSource (V : Vocabulary) : Gives (Expr.Calls V) (c.argSource inst i want lanes) :=
  .skip fun _ => calls_source V

theorem gives_argDestination (V : Vocabulary) :
    Gives (Destined V (c.program.drops inst i)) (c.argDestination inst i) := by
  refine .bind gives_arg fun id hid => .bind gives_operand fun op hop => ?_
  have hdrops : c.program.drops inst i = op.isDropped := by
    simp [Program.drops, Program.operandOf?, hid, hop]
  rw [hdrops]
  refine .ite (fun h => .pure ?_) fun h => ?_
  case refine_1 => simpa [Destined, Operand.isDropped] using h
  case refine_2 =>
    have h : op.isDropped = false := by simpa [Operand.isDropped] using h
    have hbuiltin {name : String} : V.Sets (.builtin name) := V.sets rfl
    cases hop : op.register
    case outputDepth | outputDepthGreaterEqual | outputDepthLessEqual | outputCoverageMask =>
      exact .skip fun _ =>
        .pure ⟨h, by simp [Expr.builtin, Expr.written, hbuiltin], by simp⟩
    case temp | indexableTemp | output =>
      exact .bind (targets_base (fun _ => calls_indexSource) (by simp [hop])) fun (_, _) ht =>
        .pure ⟨h, ht⟩
    all_goals exact .error

end Context

end ShaderLift
