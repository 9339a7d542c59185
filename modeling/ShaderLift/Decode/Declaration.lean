import ShaderLift.Decode.Instruction
import ShaderLift.Bytecode.Declaration
import ShaderLift.Bytecode.Stage

/-!
Reading declarations.
-/

namespace ShaderLift

-- Four return types of four bits each, the first lane lowest.
def readReturnType (word : UInt32) : Option (Quad ReturnType) := do
  let lane (shift : Nat) := ReturnType.ofRaw? (Word.bits word shift 4)
  return ⟨← lane 0, ← lane 4, ← lane 8, ← lane 12⟩

namespace Decoder

def declarationFault (start : Nat) (fault : DeclarationFault) : Decoder α :=
  throw ⟨start, .declaration fault⟩

def orFault (start : Nat) (fault : DeclarationFault) : Option α → Decoder α
  | some a => return a
  | none => declarationFault start fault

def declaredOperand : Decoder (OperandId × Operand) := do
  let id ← operand
  match (← get).operands[id]? with
  | some op => return (id, op)
  | none => return (id, { register := .null })

def slot : Decoder UInt32 := do
  let start ← position
  let (_, op) ← declaredOperand
  orFault start .dynamicRegister op.slot?

-- Reads the name of a system value, with the index that names of tessellation factors include.
def systemValue (start : Nat) : Decoder (SystemValue × UInt32) := do
  let raw := (← word).toNat
  orFault start (.systemValue raw) (SystemValue.ofDeclared? raw)

def systemValueIf (start : Nat) (present : Bool) : Decoder (Option SystemValue × UInt32) := do
  if present then
    let (value, index) ← systemValue start
    return (some value, index)
  else
    return (none, 0)

def declared (start : Nat) (op : Opcode) (token : UInt32) : Decoder Declared :=
  let field (width : Nat) := Word.bits token 11 width
  let coherent := Word.bit token 16
  match op with
  | .dclResource => do
    let slot ← slot
    let dimension ←
      orFault start (.resourceDimension (field 5)) (ResourceDimension.ofRaw? (field 5))
    let returnType ← orFault start .resourceReturnType (readReturnType (← word))
    return .resource slot dimension (Word.bits token 16 7) returnType
  | .dclConstantBuffer => do
    let (_, op) ← declaredOperand
    match op.indices[0]?.bind Index.static?, op.indices[1]?.bind Index.static? with
    | some slot, some size => return .constantBuffer slot size (Word.bit token 11)
    | _, _ => declarationFault start .constantBuffer
  | .dclSampler => do
    let slot ← slot
    let mode ← orFault start (.samplerMode (field 4)) (SamplerMode.ofRaw? (field 4))
    return .sampler slot mode
  | .dclIndexRange => return .indexRange (← operand) (← word)
  | .dclGsOutputPrimitiveTopology =>
    return .gsOutputTopology
      (← orFault start (.outputTopology (field 7)) (PrimitiveTopology.ofRaw? (field 7)))
  | .dclGsInputPrimitive =>
    return .gsInputPrimitive
      (← orFault start (.inputPrimitive (field 6)) (InputPrimitive.ofRaw? (field 6)))
  | .dclMaxOutputVertexCount => return .maxOutputVertexCount (← word)
  | .dclInput | .dclInputSgv | .dclInputSiv => do
    let id ← operand
    let (value, index) ← systemValueIf start (op ≠ .dclInput)
    return .input id value index none
  | .dclInputPs | .dclInputPsSgv | .dclInputPsSiv => do
    let interpolation ←
      orFault start (.interpolationMode (field 4)) (InterpolationMode.ofRaw? (field 4))
    let id ← operand
    let (value, index) ← systemValueIf start (op ≠ .dclInputPs)
    return .input id value index (some interpolation)
  | .dclOutput | .dclOutputSgv | .dclOutputSiv => do
    let id ← operand
    let (value, index) ← systemValueIf start (op ≠ .dclOutput)
    return .output id value index
  | .dclTemps => return .temps (← word)
  | .dclIndexableTemp => return .indexableTemp (← word) (← word) (← word)
  | .dclGlobalFlags => return .globalFlags (.ofNat (field 13))
  | .dclStream => return .stream (← slot)
  | .dclFunctionBody => return .functionBody (← word)
  | .dclFunctionTable => do
    let index ← word
    let count ← word
    return .functionTable index (← slice count.toNat)
  | .dclInterface => do
    let index ← word
    let _ ← word
    let packed ← word
    return .interface index (.ofNat (Word.bits packed 16 16)) (← slice (Word.bits packed 0 16))
  | .dclInputControlPointCount => return .inputControlPointCount (.ofNat (field 6))
  | .dclOutputControlPointCount => return .outputControlPointCount (.ofNat (field 6))
  | .dclTessDomain =>
    return .tessDomain (← orFault start (.tessDomain (field 2)) (TessDomain.ofRaw? (field 2)))
  | .dclTessPartitioning =>
    return .tessPartitioning
      (← orFault start (.tessPartitioning (field 3)) (TessPartitioning.ofRaw? (field 3)))
  | .dclTessOutputPrimitive =>
    return .tessOutputPrimitive
      (← orFault start (.tessOutputPrimitive (field 3)) (TessOutputPrimitive.ofRaw? (field 3)))
  | .dclHsMaxTessFactor => return .hsMaxTessFactor (← word)
  | .dclHsForkPhaseInstanceCount => return .hsForkPhaseInstanceCount (← word)
  | .dclHsJoinPhaseInstanceCount => return .hsJoinPhaseInstanceCount (← word)
  | .dclThreadGroup => return .threadGroup ⟨← word, ← word, ← word⟩
  | .dclUavTyped => do
    let slot ← slot
    let dimension ← orFault start (.uavDimension (field 5)) (ResourceDimension.ofRaw? (field 5))
    let returnType ← orFault start .uavReturnType (readReturnType (← word))
    return .uavTyped slot dimension returnType coherent
  | .dclUavRaw => return .uavRaw (← slot) coherent
  | .dclUavStructured => return .uavStructured (← slot) (← word) (Word.bit token 23) coherent
  | .dclTgsmRaw => return .tgsmRaw (← slot) (← word)
  | .dclTgsmStructured => return .tgsmStructured (← slot) (← word) (← word)
  | .dclResourceRaw => return .resourceRaw (← slot)
  | .dclResourceStructured => return .resourceStructured (← slot) (← word)
  | .dclGsInstanceCount => return .gsInstanceCount (← word)
  | .hsDecls => return .hsDecls
  | op => declarationFault start (.notDeclaration op)

def declaration (stage : Stage) (start : Nat) (op : Opcode) (token : UInt32) :
    Decoder Declared := do
  let _ ← sampleControls token
  let declared ← declared start op token
  if stage ≠ .hull ∧ declared.isHullOnly then
    declarationFault start (.outsideHull op)
  return declared

end Decoder

end ShaderLift
