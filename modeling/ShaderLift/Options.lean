import ShaderLift.Dialect.Basic
import ShaderLift.Bytecode.Primitive

/-!
What a caller may choose about the shader text.
-/

namespace ShaderLift

structure Options where
  version             : Version := .gl33
  rules               : Option Dialect := none
  hasGeometry         : Bool := false
  hasPixel            : Bool := true
  -- For domain shaders, of which hull shaders declare it.
  tessPartitioning    : Option TessPartitioning := none
  tessOutputPrimitive : Option TessOutputPrimitive := none
  -- Numbers of more than 32 bits stop the lifting. Unchecked, they lose their upper bits.
  checked             : Bool := true

def Options.dialect (o : Options) : Dialect :=
  o.rules.getD (.ofVersion o.version)

def Options.requireWords (o : Options) (numbers : List Nat) : Except LiftError Unit :=
  if o.checked && numbers.any (UInt32.size ≤ ·) then .error .overflow else .ok ()

end ShaderLift
