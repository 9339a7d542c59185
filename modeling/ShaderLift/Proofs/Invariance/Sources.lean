import ShaderLift.Proofs.Invariance.Agrees

/-!
What operands stand for does not depend on the list of declarations, nor on where in the list of
instructions they are used. Places only show in errors.
-/

namespace ShaderLift

open Glsl

-- What two contexts may differ in: the lists of a program, its block structure, and the place of
-- the instruction that is being lifted.
structure Move where
  declarations : List Declaration
  instructions : List Instruction
  flow         : Flow
  index        : Nat

def Program.move (p : Program) (m : Move) : Program :=
  { p with declarations := m.declarations, instructions := m.instructions }

def Context.move (c : Context) (m : Move) : Context :=
  { c with program := c.program.move m, flow := m.flow, index := m.index }

-- The same labels can be called, and where errors count the place is the same.
structure Move.Keeps (strict : Prop) (m : Move) (c : Context) : Prop where
  index  : strict → c.index = m.index
  opcode : strict → c.opcode = (c.move m).opcode
  label  : ∀ label, (c.flow.subroutine? label).isNone = (m.flow.subroutine? label).isNone

variable {strict : Prop} {c : Context} {m : Move} {op : Operand} {id : OperandId}
variable {inst : Instruction}

theorem Move.Keeps.unsupported (h : m.Keeps strict c) {reason : Unsupported} (hs : strict) :
    LiftError.unsupported c.index c.opcode reason =
      .unsupported m.index (c.move m).opcode reason := by
  rw [h.index hs, h.opcode hs]

theorem Move.Keeps.unresolved (h : m.Keeps strict c) {what : Unresolved} (hs : strict) :
    LiftError.unresolved c.index what = .unresolved m.index what := by
  rw [h.index hs]

namespace Context

variable (h : m.Keeps strict c)

include h

theorem agrees_require {f : Feature} : Agrees strict (c.require f) ((c.move m).require f) := by
  unfold require Dialect.require Dialect.requireAll
  cases f.needs
  case none => exact .error fun hs => by rw [h.index hs]; rfl
  case some cs => exact .ite (.refl _) (.error fun hs => by rw [h.index hs]; rfl)

theorem agrees_orUnresolved {α : Type} {what : Unresolved} {o : Option α} :
    Agrees strict (c.orUnresolved what o) ((c.move m).orUnresolved what o) := by
  cases o
  case none => exact .error h.unresolved
  case some => exact .refl _

theorem agrees_orUnsupported {α : Type} {reason : Unsupported} {o : Option α} :
    Agrees strict (c.orUnsupported reason o) ((c.move m).orUnsupported reason o) := by
  cases o
  case none => exact .error h.unsupported
  case some => exact .refl _

theorem agrees_nthIndex {i : Nat} : Agrees strict (c.nthIndex op i) ((c.move m).nthIndex op i) :=
  agrees_orUnsupported h

theorem agrees_immediateWord {component : Nat} :
    Agrees strict (c.immediateWord op component) ((c.move m).immediateWord op component) := by
  unfold immediateWord
  cases op.immediate
  case none => exact .error h.unsupported
  case some immediate =>
    cases immediate
    case words => exact .refl _
    case longs => exact .bind (agrees_require h) fun _ => .refl _

theorem agrees_constantBuffer :
    Agrees strict (c.constantBuffer op) ((c.move m).constantBuffer op) :=
  .bind (agrees_orUnresolved h) fun _ => agrees_orUnresolved h

theorem agrees_namedConstants {slot : UInt32} {ms : List Member} {components : List Nat}
    {want : ValueType} :
    Agrees strict (c.namedConstants slot ms op components want)
      ((c.move m).namedConstants slot ms op components want) := by
  refine .bind (agrees_orUnresolved h) fun register => ?_
  refine .bind (.mapM fun component => ?_) fun _ => .refl _
  have hdialect : (c.move m).dialect = c.dialect := rfl
  rw [hdialect]
  refine .bind (.refl _) fun _ => ?_
  cases Member.laneAt c.dialect ms register component
  case uncovered => exact .error h.unresolved
  all_goals exact .refl _

section Nested

variable {nested nested' : OperandId → Except LiftError Expr}

variable (hn : ∀ id, Agrees strict (nested id) (nested' id))

include hn

theorem agrees_indexExpr {index : Index} :
    Agrees strict (c.indexExpr nested index) ((c.move m).indexExpr nested' index) := by
  cases index
  case imm => exact .refl _
  case relative id => exact hn id
  case immRelative id => exact .bind (hn id) fun _ => .refl _
  case wide => exact .bind (agrees_require h) fun _ => .refl _
  case wideRelative id =>
    exact .bind (agrees_require h) fun _ => .bind (hn id) fun _ => .refl _

theorem agrees_flatIndex {stride : UInt32} {outer inner : Index} :
    Agrees strict (c.flatIndex nested stride outer inner)
      ((c.move m).flatIndex nested' stride outer inner) := by
  unfold flatIndex
  split
  case h_1 => exact .refl _
  case h_2 =>
    exact .bind (agrees_indexExpr h hn) fun _ => .bind (agrees_indexExpr h hn) fun _ => .refl _

theorem agrees_element {name : Name} {i : Nat} :
    Agrees strict (c.element nested name op i) ((c.move m).element nested' name op i) :=
  .bind (agrees_nthIndex h) fun _ => .bind (agrees_indexExpr h hn) fun _ => .refl _

theorem agrees_vertexElement {file : RegisterFile} {stride : UInt32} :
    Agrees strict (c.vertexElement nested file stride op)
      ((c.move m).vertexElement nested' file stride op) :=
  .bind (agrees_nthIndex h) fun _ => .bind (agrees_nthIndex h) fun _ =>
    .bind (agrees_flatIndex h hn) fun _ => .refl _

theorem agrees_base : Agrees strict (c.base nested op) ((c.move m).base nested' op) := by
  have element {name : Name} {i : Nat} :
      Agrees strict (c.element nested name op i >>= fun e => pure (e, ValueType.float))
        ((c.move m).element nested' name op i >>= fun e => pure (e, ValueType.float)) :=
    .bind (agrees_element h hn) fun _ => .refl _
  have vertexElement {file : RegisterFile} {stride : UInt32} :
      Agrees strict (c.vertexElement nested file stride op >>= fun e => pure (e, ValueType.float))
        ((c.move m).vertexElement nested' file stride op >>= fun e => pure (e, ValueType.float)) :=
    .bind (agrees_vertexElement h hn) fun _ => .refl _
  have hstage : (c.move m).stage = c.stage := rfl
  have hscope : (c.move m).scope = c.scope := rfl
  unfold base
  dsimp only
  rw [hstage, hscope]
  cases op.register
  case temp => exact .bind (agrees_orUnsupported h) fun _ => .refl _
  case indexableTemp =>
    exact .bind (agrees_nthIndex h) fun _ => .bind (agrees_orUnsupported h) fun _ => element
  case input =>
    cases c.stage
    case geometry | hull | domain => exact .ite vertexElement element
    all_goals exact element
  case inputControlPoint => exact .ite vertexElement (.error h.unsupported)
  case outputControlPoint => exact .ite (.ite vertexElement element) (.error h.unsupported)
  case inputPatchConstant =>
    cases c.stage
    case hull | domain => exact element
    all_goals exact .error h.unsupported
  case output => cases c.scope <;> exact element
  case constantBuffer => exact .bind (agrees_constantBuffer h) fun _ => element
  case immediateConstantBuffer =>
    have rest : Agrees strict (c.element nested .immediates op 0 >>= fun e =>
          pure (e, if Resources.immediatesAreUint c.dialect then ValueType.uint else .float))
        ((c.move m).element nested' .immediates op 0 >>= fun e =>
          pure (e, if Resources.immediatesAreUint c.dialect then ValueType.uint else .float)) :=
      .bind (agrees_element h hn) fun _ => .refl _
    exact .ite (.error h.unresolved) rest
  case inputCoverageMask => exact .bind (agrees_require h) fun _ => .refl _
  case inputPrimitiveId | inputGsInstanceId | outputControlPointId | inputForkInstanceId
      | inputJoinInstanceId | inputThreadId | inputThreadGroupId | inputThreadIdInGroup
      | inputThreadIdInGroupFlattened | inputDomainPoint =>
    exact .refl _
  all_goals exact .error h.unsupported

variable {want : ValueType} {components lanes : List Nat}

theorem agrees_registerSource :
    Agrees strict (c.registerSource nested op want components)
      ((c.move m).registerSource nested' op want components) :=
  .bind (agrees_base h hn) fun (_, _) => .refl _

theorem agrees_rawSourceWith :
    Agrees strict (c.rawSourceWith nested id want lanes)
      ((c.move m).rawSourceWith nested' id want lanes) := by
  refine .same fun op => ?_
  extract_lets components
  cases op.register
  case immediate32 | immediate64 =>
    refine .bind (.mapM fun component => ?_) fun _ => .refl _
    exact .bind (agrees_immediateWord h) fun _ => .refl _
  case constantBuffer =>
    refine .bind (agrees_constantBuffer h) fun buffer => ?_
    cases buffer.members
    case some ms => exact agrees_namedConstants h
    case none => exact agrees_registerSource h hn
  all_goals exact agrees_registerSource h hn

theorem agrees_sourceWith :
    Agrees strict (c.sourceWith nested id want lanes)
      ((c.move m).sourceWith nested' id want lanes) :=
  .bind (agrees_rawSourceWith h hn) fun _ => .refl _

end Nested

theorem agrees_indexSource {depth : Nat} :
    Agrees strict (c.indexSource depth id) ((c.move m).indexSource depth id) := by
  induction depth generalizing id
  case zero => exact .refl _
  case succ depth hi => exact agrees_sourceWith h fun _ => hi

variable {want : ValueType} {lanes : List Nat} {i : Nat}

theorem agrees_source :
    Agrees strict (c.source id want lanes) ((c.move m).source id want lanes) :=
  agrees_sourceWith h fun _ => agrees_indexSource h

theorem agrees_rawSource :
    Agrees strict (c.rawSource id want lanes) ((c.move m).rawSource id want lanes) :=
  agrees_rawSourceWith h fun _ => agrees_indexSource h

theorem agrees_argSource :
    Agrees strict (c.argSource inst i want lanes) ((c.move m).argSource inst i want lanes) :=
  .same fun _ => agrees_source h

theorem agrees_destination : Agrees strict (c.destination id) ((c.move m).destination id) := by
  refine .same fun op => ?_
  extract_lets mask
  refine .ite (.refl _) ?_
  cases op.register
  case outputDepth | outputDepthGreaterEqual | outputDepthLessEqual | outputCoverageMask =>
    exact .bind (agrees_require h) fun _ => .refl _
  case temp | indexableTemp | output =>
    exact .bind (agrees_base h fun _ => agrees_indexSource h) fun (_, _) => .refl _
  all_goals exact .error h.unsupported

theorem agrees_argDestination :
    Agrees strict (c.argDestination inst i) ((c.move m).argDestination inst i) :=
  .same fun _ => agrees_destination h

end Context

namespace Resources

variable {p : Program} {r : Resources} {ds : List Declaration} {is : List Instruction}

theorem scan_relist {fetched : List UInt32} {insts : List (Instruction × Nat)} :
    scan { p with declarations := ds, instructions := is } r fetched insts =
      scan p r fetched insts := by
  induction insts generalizing r fetched
  case nil => rfl
  case cons e insts hi =>
    simp only [scan, hi]
    rfl

end Resources

namespace Program

variable {d : Dialect} {p : Program} {r : Resources} {temps : TempTypes}
variable {ds : List Declaration} {is : List Instruction}

theorem addWrites_relist {type : ValueType} {positions : List Nat} :
    { p with declarations := ds, instructions := is }.addWrites d inst type temps positions =
      p.addWrites d inst type temps positions := by
  induction positions generalizing temps
  case nil => rfl
  case cons i is hi =>
    simp only [addWrites, hi]
    rfl

theorem writtenTemps_relist {insts : List Instruction} :
    { p with declarations := ds, instructions := is }.writtenTemps d r temps insts =
      p.writtenTemps d r temps insts := by
  induction insts generalizing temps
  case nil => rfl
  case cons inst insts hi =>
    simp only [writtenTemps, hi, addWrites_relist]
    rfl

end Program

end ShaderLift
