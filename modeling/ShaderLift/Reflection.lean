import ShaderLift.Word

/-!
Reflection: the variables of constant buffers and the names of bound resources.
-/

namespace ShaderLift

inductive VariableClass where
  | scalar
  | vector
  | matrixRows
  | matrixColumns
  -- Structures and all else that is reached through plain registers only.
  | other
  deriving DecidableEq, Repr

inductive BaseType where
  | bool
  | int
  | uint
  | float
  | double
  deriving DecidableEq, Repr

structure VariableType where
  shape    : VariableClass
  base     : BaseType
  rows     : UInt32
  columns  : UInt32
  elements : UInt32
  deriving DecidableEq, Repr

namespace VariableType

def scalar (base : BaseType) : VariableType :=
  ⟨.scalar, base, 1, 1, 0⟩

def vector (base : BaseType) (columns : UInt32) : VariableType :=
  ⟨.vector, base, 1, columns, 0⟩

def matrix (base : BaseType) (rows columns : UInt32) (rowMajor : Bool) : VariableType :=
  ⟨if rowMajor then .matrixRows else .matrixColumns, base, rows, columns, 0⟩

def array (type : VariableType) (elements : UInt32) : VariableType :=
  { type with elements }

end VariableType

structure Variable where
  name   : String
  offset : UInt32
  size   : UInt32
  type   : VariableType
  deriving DecidableEq, Repr

structure ConstantBuffer where
  name      : String
  bindPoint : UInt32
  size      : UInt32
  members   : List Variable
  deriving DecidableEq, Repr

inductive BindingKind where
  | constantBuffer
  | textureBuffer
  | texture
  | sampler
  | uavTyped
  | structured
  | uavStructured
  | byteAddress
  | uavByteAddress
  | uavAppendStructured
  | uavConsumeStructured
  | uavStructuredWithCounter
  deriving DecidableEq, Repr

namespace BindingKind

def all : List BindingKind :=
  [constantBuffer, textureBuffer, texture, sampler, uavTyped, structured, uavStructured,
    byteAddress, uavByteAddress, uavAppendStructured, uavConsumeStructured,
    uavStructuredWithCounter]

def ofRaw? (raw : Nat) : Option BindingKind :=
  all[raw]?

def isUav : BindingKind → Bool
  | uavTyped | uavStructured | uavByteAddress | uavAppendStructured | uavConsumeStructured
  | uavStructuredWithCounter => true
  | _ => false

end BindingKind

structure ResourceBinding where
  name      : String
  kind      : BindingKind
  bindPoint : UInt32
  bindCount : UInt32
  dimension : UInt32
  deriving DecidableEq, Repr

end ShaderLift
