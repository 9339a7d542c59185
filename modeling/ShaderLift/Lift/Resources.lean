import ShaderLift.Program
import ShaderLift.Lift.UniformBuffer

/-!
The resources of a program: what its declarations define, and how its instructions use it. All names
in bodies and all declarations come from here, so they agree.
-/

namespace ShaderLift

open Glsl

structure Texture where
  dimension  : ResourceDimension
  returnType : ReturnType
  deriving DecidableEq, Repr

-- What a texture returns; floats where the dialect has no unsigned integers.
def Texture.valueType (d : Dialect) (t : Texture) : ValueType :=
  if d.has .unsignedIntegers then .ofReturnType t.returnType else .float

inductive MemoryLayout where
  | raw
  | structured (stride : UInt32)
  deriving DecidableEq, Repr

inductive UavKind where
  | typed (dimension : ResourceDimension) (returnType : ReturnType)
  | buffer (layout : MemoryLayout)
  deriving DecidableEq, Repr

structure Uav where
  kind       : UavKind
  coherent   : Bool
  hasCounter : Bool := false
  isRead     : Bool := false
  isWritten  : Bool := false
  isAtomic   : Bool := false
  deriving DecidableEq, Repr

namespace Uav

def isTyped (u : Uav) : Bool :=
  match u.kind with
  | .typed _ _ => true
  | .buffer _ => false

def valueType (u : Uav) : ValueType :=
  match u.kind with
  | .typed _ returnType => .ofReturnType returnType
  | .buffer _ => .uint

end Uav

structure SharedMemory where
  layout : MemoryLayout
  words  : UInt32
  deriving DecidableEq, Repr

structure SampleOperands where
  texture : Nat
  sampler : Option Nat
  shadow  : Bool
  deriving DecidableEq, Repr

structure UavAccess where
  operand : Nat
  reads   : Bool
  writes  : Bool
  atomic  : Bool
  deriving DecidableEq, Repr

namespace Opcode

def sampleOperands? : Opcode → Option SampleOperands
  | sample | sampleB | sampleL | sampleD | gather4 | lod => some ⟨2, some 3, false⟩
  | sampleC | sampleCLz | gather4C => some ⟨2, some 3, true⟩
  | gather4Po => some ⟨3, some 4, false⟩
  | gather4PoC => some ⟨3, some 4, true⟩
  | ld | ldMs | resInfo => some ⟨2, none, false⟩
  | bufInfo => some ⟨1, none, false⟩
  | _ => none

def uavAccess? : Opcode → Option UavAccess
  | ldUavTyped | ldRaw => some ⟨2, true, false, false⟩
  | ldStructured => some ⟨3, true, false, false⟩
  | storeUavTyped | storeRaw | storeStructured => some ⟨0, false, true, false⟩
  | atomicAnd | atomicOr | atomicXor | atomicCmpStore | atomicIadd | atomicImax | atomicImin
  | atomicUmax | atomicUmin => some ⟨0, true, true, true⟩
  | immAtomicIadd | immAtomicAnd | immAtomicOr | immAtomicXor | immAtomicExch | immAtomicCmpExch
  | immAtomicImax | immAtomicImin | immAtomicUmax | immAtomicUmin => some ⟨1, true, true, true⟩
  | _ => none

end Opcode

structure Resources where
  constantBuffers : SlotMap UniformBuffer := .empty
  textures        : SlotMap Texture := .empty
  samplers        : SlotMap SamplerMode := .empty
  buffers         : SlotMap MemoryLayout := .empty
  uavs            : SlotMap Uav := .empty
  shared          : SlotMap SharedMemory := .empty
  immediates      : Option (List UInt32) := none
  pairs           : SortedMap SamplerKey Unit := .empty

def quarter (n : UInt32) : UInt32 :=
  n / 4 + if n % 4 = 0 then 0 else 1

def Program.operand (p : Program) (id : OperandId) : Except LiftError Operand :=
  match p.operands[id]? with
  | some op => .ok op
  | none => .error .outOfRange

def Program.slotOf (p : Program) (inst : Instruction) (kind : RegisterKind) (i : Nat) :
    Except LiftError (Option UInt32) :=
  match inst.operands[i]? with
  | none => .ok none
  | some id => do
    let op ← p.operand id
    return if op.register = kind then op.slot? else none

namespace Resources

-- Takes in a declaration. Of several declarations of one slot the last one counts.
def declare (d : Dialect) (p : Program) (r : Resources) : Declared → Resources
  | .constantBuffer slot size dynamic =>
    let buffer := p.constantBuffers.find? (·.bindPoint == slot)
    { r with constantBuffers := r.constantBuffers.insert slot (.build d slot size dynamic buffer) }
  | .resource slot dimension _ returnType =>
    { r with textures := r.textures.insert slot ⟨dimension, returnType.x⟩ }
  | .sampler slot mode => { r with samplers := r.samplers.insert slot mode }
  | .resourceRaw slot => { r with buffers := r.buffers.insert slot .raw }
  | .resourceStructured slot stride =>
    { r with buffers := r.buffers.insert slot (.structured stride) }
  | .uavTyped slot dimension returnType coherent =>
    { r with uavs := r.uavs.insert slot { kind := .typed dimension returnType.x, coherent } }
  | .uavRaw slot coherent =>
    { r with uavs := r.uavs.insert slot { kind := .buffer .raw, coherent } }
  | .uavStructured slot stride hasCounter coherent =>
    { r with
      uavs := r.uavs.insert slot { kind := .buffer (.structured stride), coherent, hasCounter } }
  | .tgsmRaw slot byteCount =>
    { r with shared := r.shared.insert slot ⟨.raw, quarter byteCount⟩ }
  | .tgsmStructured slot stride count =>
    { r with shared := r.shared.insert slot ⟨.structured stride, quarter (stride * count)⟩ }
  | .immediateConstantBuffer bytes => { r with immediates := some (Word.ofByteList bytes) }
  | _ => r

-- Takes in how instruction `i` samples. Textures that are read without a sampler are answered.
def sampleUse (p : Program) (r : Resources) (i : Nat) (inst : Instruction) :
    Except LiftError (Resources × Option UInt32) := do
  let some operands := inst.opcode.sampleOperands? | return (r, none)
  let some texture ← p.slotOf inst .resource operands.texture | return (r, none)
  if r.buffers.contains texture then
    return (r, none)
  if !r.textures.contains texture then
    throw (.unresolved i (.texture texture))
  let some position := operands.sampler | return (r, some texture)
  match ← p.slotOf inst .sampler position with
  | some sampler =>
    if !r.samplers.contains sampler then
      throw (.unresolved i (.samplerOperand inst.opcode))
    return ({ r with pairs := r.pairs.insert ⟨texture, some sampler, operands.shadow⟩ () }, none)
  | none => throw (.unresolved i (.samplerOperand inst.opcode))

def uavUse (p : Program) (r : Resources) (inst : Instruction) : Except LiftError Resources := do
  let some access := inst.opcode.uavAccess? | return r
  let some slot ← p.slotOf inst .unorderedAccessView access.operand | return r
  return { r with
    uavs := r.uavs.modify slot fun u =>
      { u with
        isRead := u.isRead || access.reads
        isWritten := u.isWritten || access.writes
        isAtomic := u.isAtomic || access.atomic } }

def scan (p : Program) : (r : Resources) → (fetched : List UInt32) → List (Instruction × Nat) →
    Except LiftError (Resources × List UInt32)
  | r, fetched, [] => return (r, fetched)
  | r, fetched, (inst, i) :: insts => do
    let (r, texture) ← r.sampleUse p i inst
    let r ← r.uavUse p inst
    scan p r (texture.toList ++ fetched) insts

-- A texture that no sampler reads is fetched from on its own.
def addFetched (r : Resources) (texture : UInt32) : Resources :=
  if r.pairs.keys.any (·.texture == texture) then r
  else { r with pairs := r.pairs.insert ⟨texture, none, false⟩ () }

-- The numbers that declarations are made into resources with.
def numbers (d : Dialect) (p : Program) : List Nat :=
  p.declarations.flatMap fun decl =>
    match decl.declared with
    | .constantBuffer slot _ dynamic =>
      UniformBuffer.numbers d dynamic (p.constantBuffers.find? (·.bindPoint == slot))
    | .tgsmStructured _ stride count => [stride.toNat * count.toNat]
    | _ => []

def collect (d : Dialect) (p : Program) : Except LiftError Resources := do
  let r := p.declarations.foldl (fun r decl => r.declare d p decl.declared) {}
  let (r, fetched) ← scan p r [] p.instructions.zipIdx
  return fetched.foldl addFetched r

def pair? (r : Resources) (texture sampler : UInt32) (shadow : Bool) : Option SamplerKey :=
  let key : SamplerKey := ⟨texture, some sampler, shadow⟩
  if r.pairs.contains key then some key else none

-- The name under which a texture is fetched from: one that does not compare, if there is one.
def fetchKey? (r : Resources) (texture : UInt32) : Option SamplerKey :=
  let keys := r.pairs.keys.filter (·.texture == texture)
  (keys.find? (!·.shadow)).or keys.head?

def imageSlots (r : Resources) : List UInt32 :=
  (r.uavs.entries.filter (·.2.isTyped)).map (·.1)

def storages (r : Resources) : List Storage :=
  r.buffers.keys.map .resource ++
    (r.uavs.entries.filter (!·.2.isTyped)).map (.uav ·.1) ++
    (r.uavs.entries.filter (·.2.hasCounter)).map (.counter ·.1)

def imageBinding (r : Resources) (slot : UInt32) : Nat :=
  r.imageSlots.idxOf slot

def storageBinding (r : Resources) (s : Storage) : Nat :=
  r.storages.idxOf s

end Resources

def ResourceDimension.samplerName? : ResourceDimension → Option (String × Option Feature)
  | texture1D => some ("1D", some .textures1D)
  | texture2D => some ("2D", none)
  | texture2DMs => some ("2DMS", some .texturesMultisample)
  | texture3D => some ("3D", some .textures3D)
  | textureCube => some ("Cube", none)
  | texture1DArray => some ("1DArray", some .arrays1D)
  | texture2DArray => some ("2DArray", some .arrays)
  | texture2DMsArray => some ("2DMSArray", some .arraysMultisample)
  | textureCubeArray => some ("CubeArray", some .arraysCube)
  | buffer => some ("Buffer", some .bufferTextures)
  | unknown | rawBuffer | structuredBuffer => none

def ResourceDimension.canCompare : ResourceDimension → Bool
  | texture2DMs | texture2DMsArray | texture3D | buffer => false
  | _ => true

def ResourceDimension.imageName? : ResourceDimension → Option String
  | buffer => some "Buffer"
  | texture1D => some "1D"
  | texture1DArray => some "1DArray"
  | texture2D => some "2D"
  | texture2DArray => some "2DArray"
  | texture3D => some "3D"
  | _ => none

def Texture.samplerType (d : Dialect) (t : Texture) (shadow : Bool) : Except LiftError String := do
  let some (dimension, feature) := t.dimension.samplerName?
    | throw (.unresolved 0 (.textureDimension t.dimension))
  if let some feature := feature then
    d.require feature none
  if shadow then
    d.require .shadowSamplers none
    if !t.dimension.canCompare then
      d.require .comparisonDimension none
    return "sampler" ++ dimension ++ "Shadow"
  else
    return (t.valueType d).letter ++ "sampler" ++ dimension

namespace Uav

-- Images that are both read and written have one channel.
def format (u : Uav) : String :=
  let channels := if u.isAtomic || u.isRead && u.isWritten then "r32" else "rgba32"
  match u.valueType with
  | .float => channels ++ "f"
  | .int => channels ++ "i"
  | .uint => channels ++ "ui"

def accessQualifier (u : Uav) : List String :=
  match u.isRead, u.isWritten || u.isAtomic with
  | true, false => ["readonly"]
  | false, true => if u.isAtomic then [] else ["writeonly"]
  | _, _ => []

end Uav

namespace Resources

def precision (d : Dialect) : List String :=
  if d.has .precisionQualifiers then ["highp"] else []

-- Samplers keep their default precision where fragment shaders may lack the high one.
def samplerPrecision (d : Dialect) : List String :=
  if d.has .inOutKeywords then precision d else []

def samplerDecl (d : Dialect) (r : Resources) (key : SamplerKey) (unit : Nat) :
    Except LiftError Decl := do
  let some texture := r.textures.get? key.texture | throw .outOfRange
  return .sampler unit (d.has .explicitBinding) (samplerPrecision d)
    (← texture.samplerType d key.shadow) key

def storageDecl (d : Dialect) (r : Resources) (s : Storage) (qualifiers : List String) : Decl :=
  .storage s (r.storageBinding s) (d.has .explicitBinding) qualifiers

def uavDecls (d : Dialect) (r : Resources) (slot : UInt32) (u : Uav) :
    Except LiftError (List Decl) := do
  let coherent := if u.coherent then ["coherent"] else []
  let counter :=
    if u.hasCounter then [r.storageDecl d (.counter slot) []] else []
  match u.kind with
  | .typed dimension _ =>
    d.require .images none
    let some name := dimension.imageName? | throw (.unresolved 0 (.imageDimension slot))
    let image := Decl.image slot (r.imageBinding slot) (d.has .explicitBinding) u.format
      (coherent ++ u.accessQualifier ++ precision d) (u.valueType.letter ++ "image" ++ name)
    return image :: counter
  | .buffer _ =>
    d.require .storageBuffers none
    return r.storageDecl d (.uav slot) coherent :: counter

def decls (d : Dialect) (r : Resources) : Except LiftError (List Decl) := do
  let constants := r.constantBuffers.values.flatMap (UniformBuffer.decls d)
  let samplers ← r.pairs.keys.zipIdx.mapM fun (key, unit) => r.samplerDecl d key unit
  let buffers ← r.buffers.keys.mapM fun slot => do
    d.require .storageBuffers none
    return r.storageDecl d (.resource slot) ["readonly"]
  let uavs ← r.uavs.entries.mapM fun (slot, u) => r.uavDecls d slot u
  let shared := r.shared.entries.map fun (slot, m) => Decl.shared slot (max m.words 1)
  return constants ++ samplers ++ buffers ++ uavs.flatten ++ shared

def immediatesAreUint (d : Dialect) : Bool :=
  d.has .arrayConstructors && d.has .unsignedIntegers

def rows : List UInt32 → List (List UInt32)
  | a :: b :: c :: e :: rest => [a, b, c, e] :: rows rest
  | [] => []
  | short => [short]

def rowWords (row : List UInt32) : List UInt32 :=
  [0, 1, 2, 3].map (row[·]?.getD 0)

def uintRow (row : List UInt32) : Expr :=
  .call "uvec4" ((rowWords row).map fun word => .lit (.hex word 1))

-- A row of floats. Words that look like integers keep their numeric value.
def floatRow (d : Dialect) (row : List UInt32) : Expr :=
  .call "vec4" ((rowWords row).map fun word =>
    match ValueType.guess [word] with
    | .float => literal d word .float
    | _ => literal d (Binary32.ofInt (Word.signed word)) .float)

def immediatesDecl (d : Dialect) (r : Resources) : List Decl :=
  match r.immediates with
  | none => []
  | some words =>
    let length := max ((words.length + 3) / 4) 1
    if immediatesAreUint d then [.immediates "uvec4" length (some ((rows words).map uintRow))]
    else if d.has .arrayConstructors then
      [.immediates "vec4" length (some ((rows words).map (floatRow d)))]
    else [.immediates "vec4" length none]

-- Fills the immediate constants where they cannot be declared with their values.
def immediatesInit (d : Dialect) (r : Resources) : List Line :=
  if d.has .arrayConstructors then []
  else
    ((r.immediates.map rows).getD []).zipIdx.map fun (row, i) =>
      .stmt (.assign (.index (.var .immediates) (.int i)) (floatRow d row))

end Resources

end ShaderLift
