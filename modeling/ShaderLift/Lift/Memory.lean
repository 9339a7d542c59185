import ShaderLift.Lift.Texture

/-!
Buffers, images, shared memory and atomic operations.
-/

namespace ShaderLift

open Glsl

inductive Memory where
  -- An array of unsigned words.
  | words (array : Expr) (layout : MemoryLayout)
  | image (name : Expr) (dimension : ResourceDimension) (type : ValueType)
  deriving Repr

def Opcode.atomicName : Opcode → String
  | atomicAnd | immAtomicAnd => "And"
  | atomicOr | immAtomicOr => "Or"
  | atomicXor | immAtomicXor => "Xor"
  | atomicIadd | immAtomicIadd => "Add"
  | atomicUmax | immAtomicUmax | atomicImax | immAtomicImax => "Max"
  | atomicUmin | immAtomicUmin | atomicImin | immAtomicImin => "Min"
  | immAtomicExch => "Exchange"
  | _ => "CompSwap"

def Opcode.isSignedAtomic : Opcode → Bool
  | atomicImax | immAtomicImax | atomicImin | immAtomicImin => true
  | _ => false

def Opcode.isCompareAtomic : Opcode → Bool
  | atomicCmpStore | immAtomicCmpExch => true
  | _ => false

def Opcode.isReturningAtomic : Opcode → Bool
  | atomicAnd | atomicOr | atomicXor | atomicCmpStore | atomicIadd | atomicImax | atomicImin
  | atomicUmax | atomicUmin => false
  | _ => true

namespace Context

def memory (c : Context) (id : OperandId) : Except LiftError Memory := do
  let op ← c.operand id
  let slot ← c.orUnresolved .dynamicMemory op.slot?
  match op.register with
  | .resource =>
    let layout ← c.orUnresolved (.resourceBuffer slot) (c.resources.buffers.get? slot)
    return .words (.var (.resourceData slot)) layout
  | .unorderedAccessView =>
    let uav ← c.orUnresolved (.uav slot) (c.resources.uavs.get? slot)
    match uav.kind with
    | .buffer layout => return .words (.var (.uavData slot)) layout
    | .typed dimension _ => return .image (.var (.image slot)) dimension uav.valueType
  | .threadGroupSharedMemory =>
    c.require .sharedMemory
    let memory ← c.orUnresolved (.sharedMemory slot) (c.resources.shared.get? slot)
    return .words (.var (.shared slot)) memory.layout
  | _ => c.unsupported .notMemory

def rawWord (c : Context) (byte : Expr) : Expr :=
  .op .shr byte (c.uint 2)

def structuredWord (c : Context) (stride : UInt32) (index offset : Expr) : Expr :=
  .paren (.binary .add (.binary .mul index (c.uint (stride / 4))) (.op .shr offset (c.uint 2)))

def wordAt (c : Context) (array first : Expr) (k : Nat) : Expr :=
  .index array (if k = 0 then first else .binary .add first (c.uint (.ofNat k)))

def wordAddress (c : Context) (layout : MemoryLayout) (inst : Instruction) (i : Nat) :
    Except LiftError Expr := do
  let first ← c.argSource inst i .uint [0]
  match layout with
  | .raw => return c.rawWord first
  | .structured stride =>
    return c.structuredWord stride first (← c.argSource inst (i + 1) .uint [0])

def loadBuffer (c : Context) (inst : Instruction) : Except LiftError (List Line) := do
  let id ← c.arg inst (if inst.opcode = .ldRaw then 2 else 3)
  match ← c.memory id with
  | .image _ _ _ => c.unsupported .typedRead
  | .words array layout =>
    c.withDestination inst fun dst => do
      let first ← c.wordAddress layout inst 1
      let resource ← c.operand id
      let words := dst.components.map fun component =>
        c.wordAt array first (resource.component component)
      return c.storeLine dst (c.construct .uint words) .uint

def storeBuffer (c : Context) (inst : Instruction) : Except LiftError (List Line) := do
  let id ← c.arg inst 0
  match ← c.memory id with
  | .image _ _ _ => c.unsupported .typedWrite
  | .words array layout =>
    let components := (← c.operand id).selection.writeMask.components
    let first ← c.wordAddress layout inst 1
    let value := if inst.opcode = .storeRaw then 2 else 3
    components.mapM fun component =>
      return .stmt (.assign (c.wordAt array first component)
        (← c.argSource inst value .uint [component]))

def imageCoord (c : Context) (inst : Instruction) (i : Nat) (dimension : ResourceDimension) :
    Except LiftError Expr :=
  c.argSource inst i .int (List.range dimension.imageCoordCount)

def loadImage (c : Context) (inst : Instruction) : Except LiftError (List Line) := do
  let id ← c.arg inst 2
  match ← c.memory id with
  | .words _ _ => c.unsupported .untypedLoad
  | .image name dimension type =>
    c.withDestination inst fun dst => do
      let call := Expr.call "imageLoad" [name, ← c.imageCoord inst 1 dimension]
      return c.storeLine dst (resourcePick (← c.operand id) dst.components call) type

def storeImage (c : Context) (inst : Instruction) : Except LiftError (List Line) := do
  match ← c.memory (← c.arg inst 0) with
  | .words _ _ => c.unsupported .untypedStore
  | .image name dimension type =>
    let coord ← c.imageCoord inst 1 dimension
    let value ← c.argSource inst 2 type [0, 1, 2, 3]
    return [.stmt (.eval (.call "imageStore" [name, coord, value]))]

-- Asks for the size of a buffer: bytes of raw ones, structures of structured ones, texels of typed
-- ones.
def bufferInfo (c : Context) (inst : Instruction) : Except LiftError (List Line) :=
  c.withDestination inst fun dst => do
    let id ← c.arg inst 1
    let op ← c.operand id
    let convert (e : Expr) : Expr := .call (ValueType.uint.scalarName c.dialect) [e]
    let count ←
      match c.memory id with
      | .ok (.words array .raw) => pure (.op .mul (convert (.length array)) (c.uint 4))
      | .ok (.words array (.structured stride)) =>
        pure (.op .div (convert (.length array)) (c.uint (max (stride / 4) 1)))
      | .ok (.image name _ _) => pure (convert (.call "imageSize" [name]))
      | .error e =>
        if op.register = .resource then do
          let (slot, texture) ← c.texture id
          if texture.dimension ≠ .buffer then
            c.unsupported .bufferInfoOfTexture
          c.require .textureSize
          pure (convert (.call "textureSize" [← c.fetchName slot]))
        else throw e
    return c.storeLine dst (c.splat .uint dst.components.length count) .uint

-- Writes a scalar result to the first component of a destination, or leaves it unused.
def scalarResult (c : Context) (inst : Instruction) (value : Expr) (type : ValueType) :
    Except LiftError (List Line) := do
  match ← c.argDestination inst 0 with
  | some dst => return c.storeLine { dst with components := dst.components.take 1 } value type
  | none => return [.stmt (.eval value)]

def atomicArgs (c : Context) (inst : Instruction) (i : Nat) (type : ValueType) :
    Except LiftError (List Expr) := do
  let value ← c.argSource inst i type [0]
  if inst.opcode.isCompareAtomic then
    return [value, ← c.argSource inst (i + 1) type [0]]
  else
    return [value]

def atomicCall (c : Context) (inst : Instruction) (i : Nat) :
    Except LiftError (Expr × ValueType) := do
  let name := inst.opcode.atomicName
  match ← c.memory (← c.arg inst i) with
  | .words array layout =>
    if inst.opcode.isSignedAtomic then
      c.unsupported .signedAtomic
    let first ← c.argSource inst (i + 1) .uint [0]
    let address ←
      match layout with
      | .raw => pure (c.rawWord first)
      | .structured stride => do
        pure (c.structuredWord stride first (← c.argSource inst (i + 1) .uint [1]))
    let args ← c.atomicArgs inst (i + 2) .uint
    return (.call ("atomic" ++ name) (.index array address :: args), .uint)
  | .image image dimension type =>
    c.require .imageAtomics
    let coord ← c.imageCoord inst (i + 1) dimension
    let args ← c.atomicArgs inst (i + 2) type
    return (.call ("imageAtomic" ++ name) (image :: coord :: args), type)

def atomic (c : Context) (inst : Instruction) : Except LiftError (List Line) := do
  if inst.opcode.isReturningAtomic then
    let (call, type) ← c.atomicCall inst 1
    c.scalarResult inst call type
  else
    let (call, _) ← c.atomicCall inst 0
    return [.stmt (.eval call)]

def counter (c : Context) (inst : Instruction) : Except LiftError (List Line) := do
  let op ← c.operand (← c.arg inst 1)
  let slot ← c.orUnresolved .hiddenCounter
    (op.slot?.filter fun slot => (c.resources.uavs.get? slot).any (·.hasCounter))
  let add (n : UInt32) : Expr := .call "atomicAdd" [.var (.counter slot), c.uint n]
  let value :=
    if inst.opcode = .immAtomicAlloc then add 1 else .op .sub (add 0xffffffff) (c.uint 1)
  c.scalarResult inst value .uint

end Context

end ShaderLift
