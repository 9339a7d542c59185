import ShaderLift.Lift.Context

/-!
What is carried along while the functions of a shader are written: names that are used up,
extensions that are asked for, and which parts of open switches are indented.
-/

namespace ShaderLift

open Glsl

-- Extensions, in the order in which they are named.
inductive Extension where
  | arbTextureLod
  | extTextureLod
  | oesDerivatives
  deriving DecidableEq, Repr

namespace Extension

def all : List Extension :=
  [arbTextureLod, extTextureLod, oesDerivatives]

def name : Extension → String
  | arbTextureLod => "GL_ARB_shader_texture_lod"
  | extTextureLod => "GL_EXT_shader_texture_lod"
  | oesDerivatives => "GL_OES_standard_derivatives"

end Extension

structure Progress where
  fresh      : Nat := 0
  -- For each open switch, innermost first: whether a case label has been written.
  openCases  : List Bool := []
  extensions : List Extension := []
  deriving DecidableEq, Repr

abbrev Emit := StateT Progress (Except LiftError)

namespace Emit

def freshName : Emit Name :=
  modifyGet fun s => (.scratch s.fresh, { s with fresh := s.fresh + 1 })

def useExtension (e : Extension) : Emit Unit :=
  modify fun s => { s with extensions := e :: s.extensions }

end Emit

end ShaderLift
