import ShaderLift.Lift.Interface
import ShaderLift.Lift.Temps

/-!
What is known while instructions are lifted, and the source and destination operands of
instructions. Each register file has a type of its own; reads convert from it to what the
instruction wants, and writes convert back.
-/

namespace ShaderLift

open Glsl

inductive Scope where
  | main
  | subroutine
  | controlPoint
  | fork
  | join
  deriving DecidableEq, Repr

structure Context where
  program   : Program
  dialect   : Dialect
  options   : Options
  flow      : Flow
  interface : Interface
  sizes     : FileSizes
  resources : Resources
  temps     : TempTypes
  scope     : Scope := .main
  index     : Nat := 0
  saturate  : Bool := false

namespace Context

def stage (c : Context) : Stage :=
  c.program.stage

def opcode (c : Context) : Opcode :=
  (c.program.instructions[c.index]?.map Instruction.opcode).getD .nop

def unsupported (c : Context) (reason : Unsupported) : Except LiftError α :=
  .error (.unsupported c.index c.opcode reason)

def unresolved (c : Context) (what : Unresolved) : Except LiftError α :=
  .error (.unresolved c.index what)

def require (c : Context) (f : Feature) : Except LiftError Unit :=
  c.dialect.require f (some c.index)

def has (c : Context) (cap : Capability) : Bool :=
  c.dialect.has cap

def orUnresolved (c : Context) (what : Unresolved) : Option α → Except LiftError α
  | some a => .ok a
  | none => c.unresolved what

def orUnsupported (c : Context) (reason : Unsupported) : Option α → Except LiftError α
  | some a => .ok a
  | none => c.unsupported reason

def operand (c : Context) (id : OperandId) : Except LiftError Operand :=
  c.program.operand id

def arg (_ : Context) (inst : Instruction) (i : Nat) : Except LiftError OperandId :=
  match inst.operands[i]? with
  | some id => .ok id
  | none => .error .outOfRange

def vec (c : Context) (t : ValueType) (n : Nat) : String :=
  t.vecName c.dialect n

def cast (c : Context) (e : Expr) (source target : ValueType) (n : Nat) : Expr :=
  Glsl.cast c.dialect e source target n

def construct (c : Context) (t : ValueType) (lanes : List Expr) : Expr :=
  Glsl.construct c.dialect t lanes

def splat (c : Context) (t : ValueType) (n : Nat) (e : Expr) : Expr :=
  Glsl.splat c.dialect t n e

def uint (c : Context) (n : UInt32) : Expr :=
  literal c.dialect n .uint

def naturalType (c : Context) (id : OperandId) : Except LiftError ValueType :=
  c.program.naturalType c.dialect c.temps id

def nthIndex (c : Context) (op : Operand) (i : Nat) : Except LiftError Index :=
  c.orUnsupported (.missingIndex op.register i) op.indices[i]?

def immediateWord (c : Context) (op : Operand) (component : Nat) : Except LiftError UInt32 :=
  match op.immediate with
  | some (.words lanes count) => return if count ≥ 4 then lanes.get component else lanes.x
  | some (.longs xy zw _) => do
    c.require .longImmediates
    let value := if component / 2 % 2 = 0 then xy else zw
    return if component % 2 = 0 then Word.low value else Word.high value
  | none => c.unsupported .immediateWithoutValue

def constantBuffer (c : Context) (op : Operand) : Except LiftError UniformBuffer := do
  let slot ← c.orUnresolved .dynamicConstantBuffer op.slot?
  c.orUnresolved (.constantBuffer slot) (c.resources.constantBuffers.get? slot)

def namedConstants (c : Context) (slot : UInt32) (members : List Member) (op : Operand)
    (components : List Nat) (want : ValueType) : Except LiftError Expr := do
  let register ← c.orUnresolved (.dynamicConstantIndex slot)
    (op.indices[1]?.getD (Index.imm 0)).static?
  let lanes ← components.mapM fun component => do
    c.options.requireWords (Member.laneNumbers members register component)
    match Member.laneAt c.dialect members register component with
    | .value e type => return c.cast e type want 1
    | .padding => return zero c.dialect want
    | .uncovered => c.unresolved (.uncoveredRegister slot register)
  return c.construct want lanes

section Nested

/-! Indices may hold operands, which `nested` reads as integers. -/

variable (nested : OperandId → Except LiftError Expr)

def indexExpr (c : Context) : Index → Except LiftError Expr
  | .imm n => return .number n
  | .relative id => nested id
  | .immRelative n id => return .op .add (← nested id) (.number n)
  | .wide n => do
    c.require .longIndices
    return .call "int" [.lit (.long n)]
  | .wideRelative n id => do
    c.require .longIndices
    return .op .add (← nested id) (.call "int" [.lit (.long n)])

-- The place of `inner` in row `outer` of a table with rows of `stride` registers.
def flatIndex (c : Context) (stride : UInt32) (outer inner : Index) : Except LiftError Expr := do
  match outer.static?, inner.static? with
  | some o, some i =>
    c.options.requireWords [o.toNat * stride.toNat + i.toNat]
    return .number (o * stride + i)
  | _, _ =>
    let o ← c.indexExpr nested outer
    let i ← c.indexExpr nested inner
    return .binary .add (.binary .mul o (.number stride)) i

def element (c : Context) (name : Name) (op : Operand) (i : Nat) : Except LiftError Expr := do
  return .index (.var name) (← c.indexExpr nested (← c.nthIndex op i))

def vertexElement (c : Context) (file : RegisterFile) (stride : UInt32) (op : Operand) :
    Except LiftError Expr := do
  let outer ← c.nthIndex op 0
  let inner ← c.nthIndex op 1
  return .index (.var (.file file)) (← c.flatIndex nested stride outer inner)

def base (c : Context) (op : Operand) : Except LiftError (Expr × ValueType) :=
  let isTwoDimensional := op.indices.length ≥ 2
  let int4 (e : Expr) := (Expr.call (c.vec .int 4) [e], ValueType.int)
  let uint4 (es : List Expr) := (Expr.call (c.vec .uint 4) es, ValueType.uint)
  let float (e : Except LiftError Expr) : Except LiftError (Expr × ValueType) :=
    return (← e, .float)
  let file (f : RegisterFile) := float (c.element nested (.file f) op 0)
  let inputPoints := float (c.vertexElement nested .inputPoints c.sizes.inputs op)
  match op.register with
  | .temp => do
    let register ← c.orUnsupported .dynamicTemp op.slot?
    return (.var (.temp register), (c.temps.get? register).getD .float)
  | .indexableTemp => do
    let array ← c.orUnsupported .dynamicIndexableTemp (← c.nthIndex op 0).static?
    float (c.element nested (.indexableTemp array) op 1)
  | .input =>
    match c.stage with
    | .geometry =>
      if isTwoDimensional then float (c.vertexElement nested .inputs c.sizes.inputs op)
      else file .inputs
    | .hull | .domain => if isTwoDimensional then inputPoints else file .inputPoints
    | _ => file .inputs
  | .inputControlPoint =>
    if isTwoDimensional ∧ (c.stage = .hull ∨ c.stage = .domain) then inputPoints
    else c.unsupported (.notValue op.register)
  | .outputControlPoint =>
    if c.stage = .hull then
      if isTwoDimensional then float (c.vertexElement nested .outputPoints c.sizes.outputs op)
      else file .outputPoints
    else c.unsupported (.notValue op.register)
  | .inputPatchConstant =>
    match c.stage with
    | .hull => file .patchOutputs
    | .domain => file .patchInputs
    | _ => c.unsupported (.notValue op.register)
  | .output =>
    match c.scope with
    | .fork | .join => file .patchOutputs
    | _ => file .outputs
  | .constantBuffer => do
    let buffer ← c.constantBuffer op
    float (c.element nested (.constants buffer.slot) op 1)
  | .immediateConstantBuffer => do
    if c.resources.immediates.isNone then
      c.unresolved .immediateConstants
    let e ← c.element nested .immediates op 0
    return (e, if Resources.immediatesAreUint c.dialect then .uint else .float)
  | .inputPrimitiveId =>
    return int4 (.builtin (if c.stage = .geometry then "PrimitiveIDIn" else "PrimitiveID"))
  | .inputGsInstanceId | .outputControlPointId => return int4 (.builtin "InvocationID")
  | .inputForkInstanceId | .inputJoinInstanceId => return int4 (.var .phaseInstance)
  | .inputCoverageMask => do
    c.require .sampleMaskIn
    return int4 (.index (.builtin "SampleMaskIn") (.int 0))
  | .inputThreadId => return uint4 [.builtin "GlobalInvocationID", zero c.dialect .uint]
  | .inputThreadGroupId => return uint4 [.builtin "WorkGroupID", zero c.dialect .uint]
  | .inputThreadIdInGroup => return uint4 [.builtin "LocalInvocationID", zero c.dialect .uint]
  | .inputThreadIdInGroupFlattened => return uint4 [.builtin "LocalInvocationIndex"]
  | .inputDomainPoint => return (.call "vec4" [.builtin "TessCoord", .floatZero], .float)
  | kind => c.unsupported (.notValue kind)

-- The component that lane `lane` of a destination reads. Masks leave lanes where they are.
def sourceComponent (op : Operand) (lane : Nat) : Nat :=
  match op.selection with
  | .mask _ => lane % 4
  | selection => selection.component lane

def registerSource (c : Context) (op : Operand) (want : ValueType) (components : List Nat) :
    Except LiftError Expr := do
  let (e, type) ← c.base nested op
  return c.cast (e.pick components) type want (max components.length 1)

def rawSourceWith (c : Context) (id : OperandId) (want : ValueType) (lanes : List Nat) :
    Except LiftError Expr := do
  let op ← c.operand id
  let components := lanes.map (sourceComponent op)
  match op.register with
  | .immediate32 | .immediate64 =>
    let values ← components.mapM fun component =>
      return literal c.dialect (← c.immediateWord op component) want
    return c.construct want values
  | .constantBuffer =>
    let buffer ← c.constantBuffer op
    match buffer.members with
    | some members => c.namedConstants buffer.slot members op components want
    | none => c.registerSource nested op want components
  | _ => c.registerSource nested op want components

def sourceWith (c : Context) (id : OperandId) (want : ValueType) (lanes : List Nat) :
    Except LiftError Expr := do
  let e ← c.rawSourceWith nested id want lanes
  return modify (← c.operand id).modifier want e

end Nested

-- Reads the first lane of an operand as an integer, through at most `depth` nested indices.
def indexSource (c : Context) : (depth : Nat) → OperandId → Except LiftError Expr
  | 0, _ => .error .outOfRange
  | depth + 1, id => c.sourceWith (c.indexSource depth) id .int [0]

-- Indices cannot nest deeper than there are operands.
def depth (c : Context) : Nat :=
  c.program.operands.size

-- Reads lanes of an operand as a type. Each entry of `lanes` is a component of the destination.
def source (c : Context) (id : OperandId) (want : ValueType) (lanes : List Nat) :
    Except LiftError Expr :=
  c.sourceWith (c.indexSource c.depth) id want lanes

def rawSource (c : Context) (id : OperandId) (want : ValueType) (lanes : List Nat) :
    Except LiftError Expr :=
  c.rawSourceWith (c.indexSource c.depth) id want lanes

def argSource (c : Context) (inst : Instruction) (i : Nat) (want : ValueType) (lanes : List Nat) :
    Except LiftError Expr := do
  c.source (← c.arg inst i) want lanes

end Context

structure Destination where
  target     : Expr
  type       : ValueType
  components : List Nat
  isScalar   : Bool := false
  deriving Repr

namespace Context

-- The destination that an operand names; none for the null register and empty masks.
def destination (c : Context) (id : OperandId) : Except LiftError (Option Destination) := do
  let op ← c.operand id
  let mask := op.writeMask
  if op.register = .null ∨ mask.isEmpty then
    return none
  match op.register with
  | .outputDepth | .outputDepthGreaterEqual | .outputDepthLessEqual =>
    c.require .fragDepth
    return some ⟨.builtin "FragDepth", .float, [0], true⟩
  | .outputCoverageMask =>
    c.require .sampleMask
    return some ⟨.index (.builtin "SampleMask") (.int 0), .int, [0], true⟩
  | .temp | .indexableTemp | .output =>
    let (target, type) ← c.base (c.indexSource c.depth) op
    return some ⟨target, type, mask.components, false⟩
  | kind => c.unsupported (.notDestination kind)

def argDestination (c : Context) (inst : Instruction) (i : Nat) :
    Except LiftError (Option Destination) := do
  c.destination (← c.arg inst i)

def store (c : Context) (dst : Destination) (value : Expr) (type : ValueType) : Stmt :=
  let value :=
    if c.saturate ∧ type = .float then .call "clamp" [value, .floatZero, .floatOne] else value
  let value := c.cast value type dst.type dst.components.length
  .assign (if dst.isScalar then dst.target else dst.target.pick dst.components) value

end Context

end ShaderLift
