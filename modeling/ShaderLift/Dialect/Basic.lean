import ShaderLift.LiftError

/-!
A dialect: a version of the target language, and the capabilities that are used of it.
-/

namespace ShaderLift

structure Dialect where
  version      : Version
  capabilities : Capabilities

namespace Dialect

def ofVersion (v : Version) : Dialect :=
  ⟨v, .ofVersion v⟩

def has (d : Dialect) (c : Capability) : Bool :=
  d.capabilities.has c

def hasAll (d : Dialect) (cs : List Capability) : Bool :=
  cs.all d.has

def add (d : Dialect) (cs : List Capability) : Dialect :=
  { d with capabilities := d.capabilities.union cs }

def remove (d : Dialect) (cs : List Capability) : Dialect :=
  { d with capabilities := d.capabilities.diff cs }

def requireAll (d : Dialect) (cs : List Capability) (name : String) (index : Option Nat) :
    Except LiftError Unit :=
  if d.hasAll cs then .ok () else .error (.unavailable name d.version index)

def require (d : Dialect) (f : Feature) (index : Option Nat) : Except LiftError Unit :=
  match f.needs with
  | some cs => d.requireAll cs f.name index
  | none => .error (.unavailable f.name d.version index)

end Dialect

end ShaderLift
