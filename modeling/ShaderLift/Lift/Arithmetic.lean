import ShaderLift.Lift.Emit

/-!
Moves, arithmetic, bit manipulation, conversions and double precision.
-/

namespace ShaderLift

open Glsl

structure Pending where
  destination : Destination
  type        : ValueType
  setup       : List Stmt := []
  value       : Expr
  deriving Repr

def Destination.pairs (dst : Destination) : List Nat :=
  [0, 1].filter fun pair => dst.components.any (· / 2 = pair)

namespace Context

def withDestination (c : Context) (inst : Instruction)
    (body : Destination → Except LiftError (List Line)) : Except LiftError (List Line) := do
  match ← c.argDestination inst 0 with
  | some dst => body dst
  | none => return []

def storeLine (c : Context) (dst : Destination) (value : Expr) (type : ValueType) : List Line :=
  [.stmt (c.store dst value type)]

def mov (c : Context) (inst : Instruction) : Except LiftError (List Line) :=
  c.withDestination inst fun dst => do
    let id ← c.arg inst 1
    let type ← if c.saturate then pure .float else c.naturalType id
    return c.storeLine dst (← c.source id type dst.components) type

def choose (c : Context) (test yes no : OperandId) (type : ValueType) (lanes : List Nat) :
    Except LiftError Expr := do
  let values ← lanes.mapM fun lane => do
    let test ← c.source test .int [lane]
    let yes ← c.source yes type [lane]
    let no ← c.source no type [lane]
    return Expr.ifNonZero test yes no
  return c.construct type values

def movc (c : Context) (inst : Instruction) : Except LiftError (List Line) :=
  c.withDestination inst fun dst => do
    let yes ← c.arg inst 2
    let type ← if c.saturate then pure .float else c.naturalType yes
    let value ← c.choose (← c.arg inst 1) yes (← c.arg inst 3) type dst.components
    return c.storeLine dst value type

def hold (c : Context) : List Pending → Emit (List Stmt × List Name)
  | [] => return ([], [])
  | p :: ps => do
    let name ← Emit.freshName
    let (stmts, names) ← c.hold ps
    let define := Stmt.define (c.vec p.type p.destination.components.length) name p.value
    return (p.setup ++ define :: stmts, name :: names)

-- Writes the results of an instruction. If there are several, or if one needs to be prepared, all
-- of them are computed in a block before any is written, because destinations may also be sources.
def commit (c : Context) : List Pending → Emit (List Line)
  | [] => return []
  | [⟨dst, type, [], value⟩] => return c.storeLine dst value type
  | results => do
    let (stmts, names) ← c.hold results
    let stores := results.zipWith (fun p name => c.store p.destination (.var name) p.type) names
    return block .bare ((stmts ++ stores).map .stmt)

def swapc (c : Context) (inst : Instruction) : Emit (List Line) := do
  let test ← c.arg inst 2
  let a ← c.arg inst 3
  let b ← c.arg inst 4
  let type ← c.naturalType a
  let result (i : Nat) (yes no : OperandId) : Except LiftError (List Pending) := do
    match ← c.argDestination inst i with
    | none => return []
    | some destination =>
      return [{ destination, type, value := ← c.choose test yes no type destination.components }]
  let first ← result 0 b a
  let second ← result 1 a b
  c.commit (first ++ second)

-- A result that a function writes to one of its last arguments.
def outArgument (c : Context) (function : String) (a b : Expr) (type : ValueType) (n : Nat)
    (names : List Name) : List Stmt :=
  [.declare (c.vec type n) names, .eval (.call function (a :: b :: names.map .var))]

-- The first (`isFirst`) or second result of an instruction with two, from the sources `args`.
def resultValue (c : Context) (op : Opcode) (isFirst : Bool) (args : List Expr) (type : ValueType)
    (n : Nat) : Emit (List Stmt × Expr) :=
  match op, isFirst, args with
  | .sinCos, true, a :: _ => return ([], .call "sin" [a])
  | .sinCos, false, a :: _ => return ([], .call "cos" [a])
  | .udiv, true, [a, b] => return ([], .op .div a b)
  | .udiv, false, [a, b] => do
    c.require .integerModulus
    return ([], .op .mod a b)
  | .imul, true, [a, b] => wide "imulExtended" a b
  | .umul, true, [a, b] => wide "umulExtended" a b
  | .imul, false, [a, b] | .umul, false, [a, b] => return ([], .op .mul a b)
  | .uaddc, true, [a, b] => return ([], .op .add a b)
  | .usubb, true, [a, b] => return ([], .op .sub a b)
  | .uaddc, false, [a, b] => carry "uaddCarry" a b
  | .usubb, false, [a, b] => carry "usubBorrow" a b
  | _, _, _ => throw .outOfRange
where
  wide (function : String) (a b : Expr) : Emit (List Stmt × Expr) := do
    c.require .extendedMultiplication
    let high ← Emit.freshName
    let low ← Emit.freshName
    return (c.outArgument function a b type n [high, low], .var high)
  carry (function : String) (a b : Expr) : Emit (List Stmt × Expr) := do
    c.require .carryAndBorrow
    let flag ← Emit.freshName
    return (c.outArgument function a b type n [flag], .var flag)

def twoResult (c : Context) (inst : Instruction) (types : AluTypes) (i : Nat) :
    Emit (List Pending) := do
  match ← c.argDestination inst i with
  | none => return []
  | some destination =>
    let args ← (inst.operands.drop 2).mapM fun id =>
      c.source id types.source destination.components
    let (setup, value) ←
      c.resultValue inst.opcode (i == 0) args types.result destination.components.length
    return [{ destination, type := types.result, setup, value }]

def twoResults (c : Context) (inst : Instruction) (types : AluTypes) : Emit (List Line) := do
  let first ← c.twoResult inst types 0
  let second ← c.twoResult inst types 1
  c.commit (first ++ second)

def dot (c : Context) (inst : Instruction) (k : Nat) : Except LiftError (List Line) :=
  c.withDestination inst fun dst => do
    let a ← c.argSource inst 1 .float (List.range k)
    let b ← c.argSource inst 2 .float (List.range k)
    let value := c.splat .float dst.components.length (.call "dot" [a, b])
    return c.storeLine dst value .float

-- Comparisons yield all bits for true and none for false.
def compare (c : Context) (inst : Instruction) (types : AluTypes) (function : String)
    (op : BinaryOp) : Except LiftError (List Line) :=
  c.withDestination inst fun dst => do
    let a ← c.argSource inst 1 types.source dst.components
    let b ← c.argSource inst 2 types.source dst.components
    let n := dst.components.length
    let value :=
      if n = 1 then Expr.neg (.call "int" [.binary op a b])
      else .neg (.call (c.vec .int n) [.call function [a, b]])
    return c.storeLine dst value .int

def derivative (c : Context) (op : Opcode) (e : Expr) : Emit Expr := do
  if c.stage ≠ .pixel then
    c.unsupported .derivativesOutsidePixel
  if !c.has .derivatives then
    if c.has .derivativesExt then Emit.useExtension .oesDerivatives
    else c.require .derivatives
  let axis :=
    match op with
    | .derivRtx | .derivRtxCoarse | .derivRtxFine => "x"
    | _ => "y"
  let grade :=
    if !c.has .fineDerivatives then ""
    else
      match op with
      | .derivRtxCoarse | .derivRtyCoarse => "Coarse"
      | .derivRtxFine | .derivRtyFine => "Fine"
      | _ => ""
  return .call ("dFd" ++ axis ++ grade) [e]

def elementwiseValue (c : Context) (op : Opcode) (args : List Expr) (n : Nat) (types : AluTypes) :
    Emit Expr :=
  match op with
  | .add | .iadd => binary fun a b => .op .add a b
  | .mul => binary fun a b => .op .mul a b
  | .div => binary fun a b => .op .div a b
  | .mad | .imad | .umad =>
    match args with
    | [a, b, e] => return .paren (.binary .add (.binary .mul a b) e)
    | _ => throw .outOfRange
  | .min | .imin | .umin => binary fun a b => .call "min" [a, b]
  | .max | .imax | .umax => binary fun a b => .call "max" [a, b]
  | .frc => call "fract"
  | .exp => call "exp2"
  | .log => call "log2"
  | .sqrt => call "sqrt"
  | .rsq => call "inversesqrt"
  | .rcp => unary fun a => .op .div .floatOne a
  | .roundNe => do
    c.require .roundEven
    call "roundEven"
  | .roundNi => call "floor"
  | .roundPi => call "ceil"
  | .roundZ =>
    if c.has .roundEvenTrunc then call "trunc"
    else unary fun a => .op .mul (.call "sign" [a]) (.call "floor" [.call "abs" [a]])
  | .derivRtx | .derivRty | .derivRtxCoarse | .derivRtxFine | .derivRtyCoarse | .derivRtyFine =>
    match args with
    | [a] => c.derivative op a
    | _ => throw .outOfRange
  | .ineg => unary fun a => .neg (.paren a)
  | .ishl => shift .shl
  | .ishr | .ushr => shift .shr
  | .and => bitwise fun a b => .op .and a b
  | .or => bitwise fun a b => .op .or a b
  | .xor => bitwise fun a b => .op .xor a b
  | .not => do
    c.require .bitwiseOperators
    unary fun a => .paren (.complement a)
  | .countBits => bitfield "bitCount"
  | .firstBitLo => bitfield "findLSB"
  | .bfrev => bitfield "bitfieldReverse"
  | .itof | .utof => call (c.vec .float n)
  | .ftoi => call (c.vec .int n)
  | .ftou => call (c.vec .uint n)
  | _ => c.unsupported .noTranslation
where
  unary (f : Expr → Expr) : Emit Expr :=
    match args with
    | [a] => return f a
    | _ => throw .outOfRange
  binary (f : Expr → Expr → Expr) : Emit Expr :=
    match args with
    | [a, b] => return f a b
    | _ => throw .outOfRange
  call (function : String) : Emit Expr :=
    unary fun a => .call function [a]
  bitwise (f : Expr → Expr → Expr) : Emit Expr := do
    c.require .bitwiseOperators
    binary f
  shift (op : BinaryOp) : Emit Expr :=
    bitwise fun a b => .op op a (.op .and b (literal c.dialect 31 types.source))
  bitfield (function : String) : Emit Expr := do
    c.require .bitfieldFunctions
    call function

def elementwise (c : Context) (inst : Instruction) (types : AluTypes) : Emit (List Line) := do
  match ← c.argDestination inst 0 with
  | none => return []
  | some dst =>
    let args ← (inst.operands.drop 1).mapM fun id => c.source id types.source dst.components
    let value ← c.elementwiseValue inst.opcode args dst.components.length types
    return c.storeLine dst value types.result

-- The low five bits of an offset, and of a width that stays inside of the word.
def bitField (width offset : Expr) : List Expr :=
  let low (e : Expr) := Expr.binary .and e (.int 31)
  [low offset, .call "min" [low width, .binary .sub (.int 32) (.paren (low offset))]]

def laneValue (c : Context) (inst : Instruction) (types : AluTypes) (lane : Nat) :
    Except LiftError Expr :=
  let read (i : Nat) (type : ValueType) := c.argSource inst i type [lane]
  match inst.opcode with
  | .firstBitHi | .firstBitShi => do
    let highest := Expr.call "findMSB" [← read 1 types.source]
    return .paren
      (.cond (.binary .lt highest (.int 0)) (.int (-1)) (.binary .sub (.int 31) highest))
  | .ubfe | .ibfe => do
    let field := bitField (← read 1 .int) (← read 2 .int)
    return .call "bitfieldExtract" ((← read 3 types.source) :: field)
  | .bfi => do
    let field := bitField (← read 1 .int) (← read 2 .int)
    let base ← read 4 .uint
    let insert ← read 3 .uint
    return .call "bitfieldInsert" (base :: insert :: field)
  | .f32ToF16 => return .call "packHalf2x16" [.call "vec2" [← read 1 .float, .floatZero]]
  | _ => return .select (.call "unpackHalf2x16" [← read 1 .uint]) [0]

def perLane (c : Context) (inst : Instruction) (types : AluTypes) :
    Except LiftError (List Line) := do
  match inst.opcode with
  | .f32ToF16 | .f16ToF32 => c.require .halfPacking
  | _ => c.require .bitfieldFunctions
  c.withDestination inst fun dst => do
    let lanes ← dst.components.mapM (c.laneValue inst types)
    return c.storeLine dst (c.construct types.result lanes) types.result

def doubleSource (c : Context) (inst : Instruction) (i pair : Nat) : Except LiftError Expr := do
  let id ← c.arg inst i
  let words ← c.rawSource id .uint [2 * pair, 2 * pair + 1]
  return modify (← c.operand id).modifier .float (.call "packDouble2x32" [words])

def doubleValue (c : Context) (inst : Instruction) (pair k : Nat) : Except LiftError Expr :=
  let double (i : Nat) := c.doubleSource inst i pair
  let convert (type : ValueType) : Except LiftError Expr := do
    return .call "double" [← c.argSource inst 1 type [k]]
  match inst.opcode with
  | .dadd => return .op .add (← double 1) (← double 2)
  | .dmul => return .op .mul (← double 1) (← double 2)
  | .ddiv => return .op .div (← double 1) (← double 2)
  | .dmax => return .call "max" [← double 1, ← double 2]
  | .dmin => return .call "min" [← double 1, ← double 2]
  | .dfma => return .call "fma" [← double 1, ← double 2, ← double 3]
  | .drcp => return .op .div .floatOne (← double 1)
  | .dmov => double 1
  | .dmovc => do
    let test ← c.argSource inst 1 .int [2 * pair]
    return .ifNonZero test (← double 2) (← double 3)
  | .ftod => convert .float
  | .itod => convert .int
  | _ => convert .uint

def doubleResult (c : Context) (inst : Instruction) : Except LiftError (List Line) := do
  c.require .doubles
  c.withDestination inst fun dst => do
    let pairs := dst.pairs
    let values ← pairs.zipIdx.mapM fun (pair, k) =>
      return Expr.call "unpackDouble2x32" [← c.doubleValue inst pair k]
    let value :=
      match values with
      | [value] => value
      | values => .call (c.vec .uint 4) values
    let dst := { dst with components := pairs.flatMap fun pair => [2 * pair, 2 * pair + 1] }
    return c.storeLine dst value .uint

-- The value of the `k`-th written component, from the `k`-th doubles of the sources.
def narrowedValue (c : Context) (inst : Instruction) (k : Nat) : Except LiftError Expr := do
  let a ← c.doubleSource inst 1 (k % 2)
  let compareBy (op : BinaryOp) : Except LiftError Expr := do
    let b ← c.doubleSource inst 2 (k % 2)
    return .neg (.call "int" [.binary op a b])
  match inst.opcode with
  | .dtof => return .call "float" [a]
  | .dtoi => return .call "int" [a]
  | .dtou => return .call "uint" [a]
  | .deq => compareBy .eq
  | .dne => compareBy .ne
  | .dlt => compareBy .lt
  | _ => compareBy .ge

def fromDouble (c : Context) (inst : Instruction) (types : AluTypes) :
    Except LiftError (List Line) := do
  c.require .doubles
  c.withDestination inst fun dst => do
    let lanes ← (List.range dst.components.length).mapM (c.narrowedValue inst)
    return c.storeLine dst (c.construct types.result lanes) types.result

def evaluatedLane (c : Context) (function : String) (extra : List Expr) (register : UInt32)
    (op : Operand) (lane : Nat) : Except LiftError Expr := do
  let component := op.component lane
  let varying ←
    c.orUnresolved (.interpolatedInput register) (c.interface.varying? register component)
  let value := Expr.select (.call function (.var (.varying varying.name) :: extra)) [component]
  return modify op.modifier .float (c.cast value varying.type .float 1)

def evaluate (c : Context) (inst : Instruction) : Except LiftError (List Line) := do
  if c.stage ≠ .pixel then
    c.unsupported .evaluationOutsidePixel
  c.require .interpolateAt
  c.withDestination inst fun dst => do
    let op ← c.operand (← c.arg inst 1)
    let register ← c.orUnsupported .evaluatedOperand
      (if op.register = .input then op.slot? else none)
    let (function, extra) ←
      match inst.opcode with
      | .evalCentroid => pure ("interpolateAtCentroid", [])
      | .evalSampleIndex => do
        pure ("interpolateAtSample", [← c.argSource inst 2 .int [0]])
      | .evalSnapped => do
        let offset := Expr.call "vec2" [← c.argSource inst 2 .int [0, 1]]
        pure ("interpolateAtOffset", [.binary .div offset (.lit (.float 0x41800000))])
      | _ => pure ("interpolateAtOffset", [])
    let lanes ← dst.components.mapM (c.evaluatedLane function extra register op)
    return c.storeLine dst (c.construct .float lanes) .float

end Context

end ShaderLift
