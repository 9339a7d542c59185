import ShaderLift.Bytecode.Operand
import ShaderLift.Bytecode.SystemValue

/-!
Signatures: which semantics a stage reads and writes, and in which registers they live.
-/

namespace ShaderLift

inductive ComponentType where
  | float32
  | uint32
  | sint32
  deriving DecidableEq, Repr

-- Numbers of no other type stand for floats.
def ComponentType.ofRaw : Nat → ComponentType
  | 1 => uint32
  | 2 => sint32
  | _ => float32

structure SignatureEntry where
  semantic      : String
  semanticIndex : UInt32
  register      : UInt32
  systemValue   : SystemValue := .undefined
  componentType : ComponentType := .float32
  mask          : WriteMask
  readWriteMask : WriteMask := mask
  stream        : UInt32 := 0
  interpolation : Option InterpolationMode := none
  deriving DecidableEq, Repr

-- The register number of an entry that has no register.
def noRegister : UInt32 := 0xffffffff

abbrev Signature := List SignatureEntry

end ShaderLift
