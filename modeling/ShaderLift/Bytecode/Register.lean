/-!
The register files and other things that an operand can name.
-/

namespace ShaderLift

inductive RegisterKind where
  | temp
  | input
  | output
  | indexableTemp
  | immediate32
  | immediate64
  | sampler
  | resource
  | constantBuffer
  | immediateConstantBuffer
  | label
  | inputPrimitiveId
  | outputDepth
  | null
  | rasterizer
  | outputCoverageMask
  | stream
  | functionBody
  | functionTable
  | interface
  | functionInput
  | functionOutput
  | outputControlPointId
  | inputForkInstanceId
  | inputJoinInstanceId
  | inputControlPoint
  | outputControlPoint
  | inputPatchConstant
  | inputDomainPoint
  | thisPointer
  | unorderedAccessView
  | threadGroupSharedMemory
  | inputThreadId
  | inputThreadGroupId
  | inputThreadIdInGroup
  | inputCoverageMask
  | inputThreadIdInGroupFlattened
  | inputGsInstanceId
  | outputDepthGreaterEqual
  | outputDepthLessEqual
  | cycleCounter
  | outputStencilRef
  | innerCoverage
  deriving DecidableEq, Repr

namespace RegisterKind

def all : List RegisterKind :=
  [temp, input, output, indexableTemp, immediate32, immediate64, sampler, resource,
    constantBuffer, immediateConstantBuffer, label, inputPrimitiveId, outputDepth, null,
    rasterizer, outputCoverageMask, stream, functionBody, functionTable, interface,
    functionInput, functionOutput, outputControlPointId, inputForkInstanceId,
    inputJoinInstanceId, inputControlPoint, outputControlPoint, inputPatchConstant,
    inputDomainPoint, thisPointer, unorderedAccessView, threadGroupSharedMemory, inputThreadId,
    inputThreadGroupId, inputThreadIdInGroup, inputCoverageMask, inputThreadIdInGroupFlattened,
    inputGsInstanceId, outputDepthGreaterEqual, outputDepthLessEqual, cycleCounter,
    outputStencilRef, innerCoverage]

theorem mem_all (k : RegisterKind) : k ∈ all := by
  cases k <;> decide

def ofRaw? (raw : Nat) : Option RegisterKind :=
  all[raw]?

def name : RegisterKind → String
  | temp => "Temp"
  | input => "Input"
  | output => "Output"
  | indexableTemp => "IndexableTemp"
  | immediate32 => "Immediate32"
  | immediate64 => "Immediate64"
  | sampler => "Sampler"
  | resource => "Resource"
  | constantBuffer => "ConstantBuffer"
  | immediateConstantBuffer => "ImmediateConstantBuffer"
  | label => "Label"
  | inputPrimitiveId => "InputPrimitiveId"
  | outputDepth => "OutputDepth"
  | null => "Null"
  | rasterizer => "Rasterizer"
  | outputCoverageMask => "OutputCoverageMask"
  | stream => "Stream"
  | functionBody => "FunctionBody"
  | functionTable => "FunctionTable"
  | interface => "Interface"
  | functionInput => "FunctionInput"
  | functionOutput => "FunctionOutput"
  | outputControlPointId => "OutputControlPointId"
  | inputForkInstanceId => "InputForkInstanceId"
  | inputJoinInstanceId => "InputJoinInstanceId"
  | inputControlPoint => "InputControlPoint"
  | outputControlPoint => "OutputControlPoint"
  | inputPatchConstant => "InputPatchConstant"
  | inputDomainPoint => "InputDomainPoint"
  | thisPointer => "ThisPointer"
  | unorderedAccessView => "UnorderedAccessView"
  | threadGroupSharedMemory => "ThreadGroupSharedMemory"
  | inputThreadId => "InputThreadId"
  | inputThreadGroupId => "InputThreadGroupId"
  | inputThreadIdInGroup => "InputThreadIdInGroup"
  | inputCoverageMask => "InputCoverageMask"
  | inputThreadIdInGroupFlattened => "InputThreadIdInGroupFlattened"
  | inputGsInstanceId => "InputGsInstanceId"
  | outputDepthGreaterEqual => "OutputDepthGreaterEqual"
  | outputDepthLessEqual => "OutputDepthLessEqual"
  | cycleCounter => "CycleCounter"
  | outputStencilRef => "OutputStencilRef"
  | innerCoverage => "InnerCoverage"

def isImmediate : RegisterKind → Bool
  | immediate32 | immediate64 => true
  | _ => false

end RegisterKind

end ShaderLift
