import ShaderLift.Glsl.Statement

/-!
Terminals: what a register at the border of a stage is copied from or to.
-/

namespace ShaderLift

open Glsl

inductive Terminal where
  | scalar (value : Expr) (type : ValueType)
  | vector (value : Expr) (type : ValueType)
  | lanes (values : List Expr)
  deriving Repr

-- The components of a mask; all four, like none, are the bare value.
def maskPick (mask : WriteMask) (e : Expr) : Expr :=
  if mask = .xyzw ∨ mask.isEmpty then e else .select e mask.components

def firstLane (mask : WriteMask) : Nat :=
  mask.components.headD 0

namespace Terminal

def load (d : Dialect) (register : Expr) (mask : WriteMask) : Terminal → List Stmt
  | scalar value type =>
    [.assign (.select register [firstLane mask]) (cast d value type .float 1)]
  | vector value type =>
    [.assign (maskPick mask register) (cast d (maskPick mask value) type .float mask.count)]
  | lanes values =>
    mask.components.zipWith (fun c value => .assign (.select register [c]) value) values

def store (d : Dialect) (register : Expr) (mask : WriteMask) : Terminal → List Stmt
  | scalar value type =>
    [.assign value (cast d (.select register [firstLane mask]) .float type 1)]
  | vector value type =>
    [.assign (maskPick mask value) (cast d (maskPick mask register) .float type mask.count)]
  | lanes values =>
    mask.components.zipWith (fun c value => .assign value (.select register [c])) values

end Terminal

def fileRegister (file : RegisterFile) (register : UInt32) : Expr :=
  .index (.var (.file file)) (.number register)

-- A register of the vertex that a loop has come to, in a file of `stride` registers per vertex.
def vertexRegister (file : RegisterFile) (stride register : UInt32) : Expr :=
  .index (.var (.file file))
    (.binary .add (.binary .mul (.var .loopIndex) (.number stride)) (.number register))

def elements (array : Expr) (first count : Nat) : List Expr :=
  (List.range count).map fun i => .index array (.int ((first + i : Nat) : Int))

end ShaderLift
