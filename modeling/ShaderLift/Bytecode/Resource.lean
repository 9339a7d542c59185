/-!
Textures, buffers and samplers as declarations and instructions describe them.
-/

namespace ShaderLift

inductive ResourceDimension where
  | unknown
  | buffer
  | texture1D
  | texture2D
  | texture2DMs
  | texture3D
  | textureCube
  | texture1DArray
  | texture2DArray
  | texture2DMsArray
  | textureCubeArray
  | rawBuffer
  | structuredBuffer
  deriving DecidableEq, Repr

namespace ResourceDimension

def all : List ResourceDimension :=
  [unknown, buffer, texture1D, texture2D, texture2DMs, texture3D, textureCube, texture1DArray,
    texture2DArray, texture2DMsArray, textureCubeArray, rawBuffer, structuredBuffer]

def ofRaw? (raw : Nat) : Option ResourceDimension :=
  all[raw]?

def name : ResourceDimension → String
  | unknown => "Unknown"
  | buffer => "Buffer"
  | texture1D => "Texture1D"
  | texture2D => "Texture2D"
  | texture2DMs => "Texture2DMs"
  | texture3D => "Texture3D"
  | textureCube => "TextureCube"
  | texture1DArray => "Texture1DArray"
  | texture2DArray => "Texture2DArray"
  | texture2DMsArray => "Texture2DMsArray"
  | textureCubeArray => "TextureCubeArray"
  | rawBuffer => "RawBuffer"
  | structuredBuffer => "StructuredBuffer"

-- How many coordinates a sample takes, the array slice included.
def coordCount : ResourceDimension → Nat
  | buffer | texture1D | rawBuffer | structuredBuffer | unknown => 1
  | texture2D | texture2DMs | texture1DArray => 2
  | texture3D | textureCube | texture2DArray | texture2DMsArray => 3
  | textureCubeArray => 4

-- How many components a texel offset or a gradient has, the array slice excluded.
def offsetCount : ResourceDimension → Nat
  | buffer | texture1D | texture1DArray | rawBuffer | structuredBuffer | unknown => 1
  | texture2D | texture2DMs | texture2DArray | texture2DMsArray => 2
  | texture3D | textureCube | textureCubeArray => 3

def sizeCount : ResourceDimension → Nat
  | textureCube => 2
  | textureCubeArray => 3
  | d => d.coordCount

theorem sizeCount_le (d : ResourceDimension) : d.sizeCount ≤ 3 := by
  cases d <;> decide

def imageCoordCount : ResourceDimension → Nat
  | buffer | texture1D => 1
  | texture1DArray | texture2D => 2
  | _ => 3

def isArray : ResourceDimension → Bool
  | texture1DArray | texture2DArray | texture2DMsArray | textureCubeArray => true
  | _ => false

def isMultisampled : ResourceDimension → Bool
  | texture2DMs | texture2DMsArray => true
  | _ => false

end ResourceDimension

inductive ReturnType where
  | unorm
  | snorm
  | sint
  | uint
  | float
  | mixed
  | double
  | continued
  | unused
  deriving DecidableEq, Repr

namespace ReturnType

def all : List ReturnType :=
  [unorm, snorm, sint, uint, float, mixed, double, continued, unused]

-- Numbered from one.
def ofRaw? : Nat → Option ReturnType
  | 0 => none
  | raw + 1 => all[raw]?

end ReturnType

inductive SamplerMode where
  | default
  | comparison
  | mono
  deriving DecidableEq, Repr

namespace SamplerMode

def all : List SamplerMode :=
  [default, comparison, mono]

def ofRaw? (raw : Nat) : Option SamplerMode :=
  all[raw]?

end SamplerMode

inductive SizeFormat where
  | float
  | rcpFloat
  | uint
  deriving DecidableEq, Repr

namespace SizeFormat

def all : List SizeFormat :=
  [float, rcpFloat, uint]

def ofRaw? (raw : Nat) : Option SizeFormat :=
  all[raw]?

end SizeFormat

end ShaderLift
