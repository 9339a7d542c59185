import ShaderLift.Bytecode.Operand
import ShaderLift.Bytecode.Resource
import ShaderLift.Bytecode.SystemValue
import ShaderLift.Bytecode.Primitive

/-!
Declarations, and what they say about the stage as a whole.
-/

namespace ShaderLift

inductive Declared where
  | resource (slot : UInt32) (dimension : ResourceDimension) (sampleCount : Nat)
      (returnType : Quad ReturnType)
  | constantBuffer (slot size : UInt32) (dynamic : Bool)
  | sampler (slot : UInt32) (mode : SamplerMode)
  | indexRange (operand : OperandId) (count : UInt32)
  | gsOutputTopology (topology : PrimitiveTopology)
  | gsInputPrimitive (primitive : InputPrimitive)
  | maxOutputVertexCount (count : UInt32)
  | input (operand : OperandId) (systemValue : Option SystemValue) (svIndex : UInt32)
      (interpolation : Option InterpolationMode)
  | output (operand : OperandId) (systemValue : Option SystemValue) (svIndex : UInt32)
  | temps (count : UInt32)
  | indexableTemp (index count components : UInt32)
  | globalFlags (flags : UInt32)
  | stream (slot : UInt32)
  | functionBody (index : UInt32)
  | functionTable (index : UInt32) (bodies : List UInt32)
  | interface (index arrayLength : UInt32) (tables : List UInt32)
  | inputControlPointCount (count : UInt32)
  | outputControlPointCount (count : UInt32)
  | tessDomain (domain : TessDomain)
  | tessPartitioning (partitioning : TessPartitioning)
  | tessOutputPrimitive (primitive : TessOutputPrimitive)
  -- The factor is kept as the word that holds its single-precision number.
  | hsMaxTessFactor (factor : UInt32)
  | hsForkPhaseInstanceCount (count : UInt32)
  | hsJoinPhaseInstanceCount (count : UInt32)
  | threadGroup (size : Triple UInt32)
  | uavTyped (slot : UInt32) (dimension : ResourceDimension) (returnType : Quad ReturnType)
      (coherent : Bool)
  | uavRaw (slot : UInt32) (coherent : Bool)
  | uavStructured (slot stride : UInt32) (hasCounter coherent : Bool)
  | tgsmRaw (slot byteCount : UInt32)
  | tgsmStructured (slot stride count : UInt32)
  | resourceRaw (slot : UInt32)
  | resourceStructured (slot stride : UInt32)
  | gsInstanceCount (count : UInt32)
  | hsDecls
  -- The words of the buffer as bytes, lowest byte of each word first.
  | immediateConstantBuffer (bytes : List UInt8)
  deriving DecidableEq, Repr

def Declared.isHullOnly : Declared → Bool
  | hsDecls | hsForkPhaseInstanceCount _ | hsJoinPhaseInstanceCount _ => true
  | _ => false

structure Declaration where
  declared : Declared
  position : Nat
  instructionsBefore : Nat
  deriving DecidableEq, Repr

structure StageInfo where
  gsInputPrimitive    : Option InputPrimitive := none
  gsOutputTopology    : Option PrimitiveTopology := none
  gsMaxOutputVertices : Option UInt32 := none
  gsInstanceCount     : Option UInt32 := none
  tessDomain          : Option TessDomain := none
  tessPartitioning    : Option TessPartitioning := none
  tessOutputPrimitive : Option TessOutputPrimitive := none
  inputControlPoints  : Option UInt32 := none
  outputControlPoints : Option UInt32 := none
  maxTessFactor       : Option UInt32 := none
  threadGroup         : Option (Triple UInt32) := none
  globalFlags         : UInt32 := 0
  deriving DecidableEq, Repr

namespace StageInfo

def add (info : StageInfo) : Declared → StageInfo
  | .gsOutputTopology t => { info with gsOutputTopology := t }
  | .gsInputPrimitive p => { info with gsInputPrimitive := p }
  | .maxOutputVertexCount n => { info with gsMaxOutputVertices := n }
  | .gsInstanceCount n => { info with gsInstanceCount := n }
  | .tessDomain d => { info with tessDomain := d }
  | .tessPartitioning p => { info with tessPartitioning := p }
  | .tessOutputPrimitive p => { info with tessOutputPrimitive := p }
  | .inputControlPointCount n => { info with inputControlPoints := n }
  | .outputControlPointCount n => { info with outputControlPoints := n }
  | .hsMaxTessFactor f => { info with maxTessFactor := f }
  | .threadGroup size => { info with threadGroup := size }
  | .globalFlags flags => { info with globalFlags := flags }
  | _ => info

def ofDeclarations (ds : List Declaration) : StageInfo :=
  ds.foldl (fun info d => info.add d.declared) {}

def earlyDepthStencil (info : StageInfo) : Bool :=
  Word.bit info.globalFlags 2

end StageInfo

end ShaderLift
