import ShaderLift.Container.Signature
import ShaderLift.Container.Reflection
import ShaderLift.Decode.Program
import ShaderLift.Lift.Shader

/-!
Programs and shaders from whole containers and from bare token streams.
-/

namespace ShaderLift

namespace Container

def signature (c : Container) (codes : List FourCC) : Except DecodeError Signature :=
  match c.chunk? codes with
  | some chunk => chunk.signature
  | none => return []

def reflection (c : Container) : Except DecodeError Reflection :=
  match c.chunk? [.rdef] with
  | some chunk => chunk.reflection
  | none => return {}

def program (c : Container) : Except DecodeError Program := do
  let p ← Program.decode (← c.tokens)
  let inputs ← c.signature [.isg1, .isgn]
  let outputs ← c.signature [.osg1, .osg5, .osgn]
  let patch ← c.signature [.psg1, .pcsg]
  let reflection ← c.reflection
  return ((p.withSignatures inputs outputs patch).withConstantBuffers
    reflection.constantBuffers).withBindings reflection.bindings

end Container

namespace Program

def ofContainer (bytes : List UInt8) : Except DecodeError Program := do
  (← Container.parse bytes).program

def linkAndLift (p : Program) (o : Options) : Except LiftError Shader := do
  (← p.link.mapError .unbalanced).lift o

end Program

namespace Shader

def ofTokens (tokens : List UInt32) (o : Options) : Except LiftError Shader := do
  ((← (Program.decode tokens).mapError .malformed).linkAndLift o)

def ofContainer (bytes : List UInt8) (o : Options) : Except LiftError Shader := do
  ((← (Program.ofContainer bytes).mapError .malformed).linkAndLift o)

end Shader

end ShaderLift
