import ShaderLift.Flow
import ShaderLift.Bytecode.Stage
import ShaderLift.Bytecode.Declaration
import ShaderLift.Signature
import ShaderLift.Reflection

/-!
A shader program: declarations, instructions and operands, and the tables that come beside them.
-/

namespace ShaderLift

structure Program where
  stage           : Stage := .pixel
  model           : ShaderModel := ⟨5, 0⟩
  declarations    : List Declaration := []
  stageInfo       : StageInfo := .ofDeclarations declarations
  instructions    : List Instruction := []
  operands        : Arena := #[]
  inputs          : Signature := []
  outputs         : Signature := []
  patch           : Signature := []
  constantBuffers : List ConstantBuffer := []
  bindings        : List ResourceBinding := []
  flow            : Option Flow := none
  deriving Repr

namespace Program

def interpolation? (p : Program) (register : UInt32) : Option InterpolationMode :=
  p.declarations.findSome? fun d =>
    match d.declared with
    | .input id _ _ (some mode) =>
      if p.operands[id]?.bind Operand.lastIndex? = some register then some mode else none
    | _ => none

-- Attaches the signatures. Inputs without an interpolation mode get the declared one.
def withSignatures (p : Program) (inputs outputs patch : Signature) : Program :=
  let inputs := inputs.map fun e =>
    { e with interpolation := e.interpolation.or (p.interpolation? e.register) }
  { p with inputs, outputs, patch }

def withConstantBuffers (p : Program) (buffers : List ConstantBuffer) : Program :=
  { p with constantBuffers := buffers }

def withBindings (p : Program) (bindings : List ResourceBinding) : Program :=
  { p with bindings }

def link (p : Program) : Except FlowError Program := do
  return { p with flow := some (← Flow.ofInstructions p.instructions p.operands) }

end Program

end ShaderLift
