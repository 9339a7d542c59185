/-!
Primitives of geometry shaders and the fixed choices of the tessellator.
-/

namespace ShaderLift

inductive InputPrimitive where
  | point
  | line
  | triangle
  | lineAdj
  | triangleAdj
  | patch (points : UInt32)
  deriving DecidableEq, Repr

namespace InputPrimitive

def ofRaw? (raw : Nat) : Option InputPrimitive :=
  match raw with
  | 1 => some point
  | 2 => some line
  | 3 => some triangle
  | 6 => some lineAdj
  | 7 => some triangleAdj
  | raw => if 8 ≤ raw ∧ raw ≤ 39 then some (patch (.ofNat (raw - 7))) else none

def vertexCount : InputPrimitive → UInt32
  | point => 1
  | line => 2
  | triangle => 3
  | lineAdj => 4
  | triangleAdj => 6
  | patch points => points

end InputPrimitive

inductive PrimitiveTopology where
  | pointList
  | lineStrip
  | triangleStrip
  deriving DecidableEq, Repr

-- Lists and strips of one primitive are both emitted as strips.
def PrimitiveTopology.ofRaw? : Nat → Option PrimitiveTopology
  | 1 => some pointList
  | 2 | 3 => some lineStrip
  | 4 | 5 => some triangleStrip
  | _ => none

inductive TessDomain where
  | isoline
  | triangle
  | quad
  deriving DecidableEq, Repr

def TessDomain.ofRaw? : Nat → Option TessDomain
  | 1 => some isoline
  | 2 => some triangle
  | 3 => some quad
  | _ => none

inductive TessPartitioning where
  | integer
  | pow2
  | fractionalOdd
  | fractionalEven
  deriving DecidableEq, Repr

def TessPartitioning.ofRaw? : Nat → Option TessPartitioning
  | 1 => some integer
  | 2 => some pow2
  | 3 => some fractionalOdd
  | 4 => some fractionalEven
  | _ => none

inductive TessOutputPrimitive where
  | point
  | line
  | triangleCw
  | triangleCcw
  deriving DecidableEq, Repr

def TessOutputPrimitive.ofRaw? : Nat → Option TessOutputPrimitive
  | 1 => some point
  | 2 => some line
  | 3 => some triangleCw
  | 4 => some triangleCcw
  | _ => none

end ShaderLift
