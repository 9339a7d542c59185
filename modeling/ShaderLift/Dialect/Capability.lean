import ShaderLift.Dialect.Version

/-!
What a version of the target language can express, one capability for each family of decisions that
a writer of shaders has to take.
-/

namespace ShaderLift

inductive Capability where
  | esProfile
  | precisionQualifiers
  -- `in` and `out` instead of `attribute` and `varying`.
  | inOutKeywords
  -- Declared fragment outputs instead of `gl_FragData`.
  | fragDataOutputs
  | explicitInputLocation
  | explicitOutputLocation
  | uniformBlocks
  -- The `$Globals` constant buffer becomes a uniform block as well.
  | globalsInUniformBlock
  -- `layout(binding = N)` on blocks, samplers and images.
  | explicitBinding
  -- `layout(offset = N)` on the members of uniform blocks.
  | memberOffsets
  | unsignedIntegers
  | bitwiseOps
  -- `floatBitsToUint` and its kin.
  | bitCasts
  -- One overloaded `texture` instead of `texture2D` and its kin.
  | textureOverloads
  | texelFetch
  | textureSize
  | switchStatements
  | roundEvenTrunc
  -- Array constructors, hence constant arrays.
  | arrayConstructors
  | nonSquareMatrices
  -- Explicit-LOD and gradient sampling through an extension.
  | textureLodExt
  | textureLod
  -- Derivatives through an extension.
  | derivativesExt
  | derivatives
  | fineDerivatives
  | textureArrays
  | textureCubeArrays
  | texture3D
  | texture1D
  | shadowSamplers
  | multisampleTextures
  | textureBuffers
  | textureGather
  | textureQueryLod
  | textureQueryLevels
  -- `gl_VertexID` and `gl_InstanceID`.
  | systemValueIds
  | fragDepth
  | interfaceBlocks
  | geometryShaders
  | multiStreamGs
  | gsInstancing
  | tessellation
  | computeShaders
  | storageBuffers
  | imageLoadStore
  | doubles
  | int64
  | bitfieldFunctions
  | packHalf
  -- `interpolateAt` functions, the `sample` qualifier and `gl_SampleID`.
  | sampleInterpolation
  | noperspective
  | clipDistance
  | conservativeDepth
  | earlyFragmentTests
  deriving DecidableEq, Repr

namespace Capability

-- The bit, the first desktop version and the first ES version of a capability.
structure Entry where
  bit     : Nat
  desktop : Option Version
  es      : Option Version

open Version

def entry : Capability → Entry
  | esProfile => ⟨0, none, es20⟩
  | precisionQualifiers => ⟨1, none, es20⟩
  | inOutKeywords => ⟨2, gl30, es30⟩
  | fragDataOutputs => ⟨3, gl30, es30⟩
  | explicitInputLocation => ⟨4, gl33, es30⟩
  | explicitOutputLocation => ⟨5, gl33, es30⟩
  | uniformBlocks => ⟨7, gl31, es30⟩
  | globalsInUniformBlock => ⟨8, gl31, es30⟩
  | explicitBinding => ⟨9, gl42, es31⟩
  | memberOffsets => ⟨10, gl44, none⟩
  | unsignedIntegers => ⟨11, gl30, es30⟩
  | bitwiseOps => ⟨12, gl30, es30⟩
  | bitCasts => ⟨13, gl33, es30⟩
  | textureOverloads => ⟨14, gl30, es30⟩
  | texelFetch => ⟨15, gl30, es30⟩
  | textureSize => ⟨16, gl30, es30⟩
  | switchStatements => ⟨17, gl30, es30⟩
  | roundEvenTrunc => ⟨18, gl30, es30⟩
  | arrayConstructors => ⟨19, gl21, es30⟩
  | nonSquareMatrices => ⟨20, gl21, es30⟩
  | textureLodExt => ⟨21, gl20, es20⟩
  | textureLod => ⟨22, gl30, es30⟩
  | derivativesExt => ⟨23, gl20, es20⟩
  | derivatives => ⟨24, gl20, es30⟩
  | fineDerivatives => ⟨25, gl45, none⟩
  | textureArrays => ⟨26, gl30, es30⟩
  | textureCubeArrays => ⟨27, gl40, es32⟩
  | texture3D => ⟨28, gl20, es30⟩
  | texture1D => ⟨29, gl20, none⟩
  | shadowSamplers => ⟨30, gl20, es30⟩
  | multisampleTextures => ⟨31, gl32, es31⟩
  | textureBuffers => ⟨32, gl31, es32⟩
  | textureGather => ⟨33, gl40, es31⟩
  | textureQueryLod => ⟨34, gl40, none⟩
  | textureQueryLevels => ⟨35, gl43, none⟩
  | systemValueIds => ⟨36, gl31, es30⟩
  | fragDepth => ⟨37, gl20, es30⟩
  | interfaceBlocks => ⟨38, gl32, es32⟩
  | geometryShaders => ⟨39, gl32, es32⟩
  | multiStreamGs => ⟨40, gl40, none⟩
  | gsInstancing => ⟨41, gl40, es32⟩
  | tessellation => ⟨42, gl40, es32⟩
  | computeShaders => ⟨43, gl43, es31⟩
  | storageBuffers => ⟨44, gl43, es31⟩
  | imageLoadStore => ⟨45, gl42, es31⟩
  | doubles => ⟨46, gl40, none⟩
  | int64 => ⟨47, none, none⟩
  | bitfieldFunctions => ⟨48, gl40, es31⟩
  | packHalf => ⟨49, gl42, es30⟩
  | sampleInterpolation => ⟨50, gl40, es32⟩
  | noperspective => ⟨51, gl30, none⟩
  | clipDistance => ⟨52, gl30, none⟩
  | conservativeDepth => ⟨53, gl42, none⟩
  | earlyFragmentTests => ⟨54, gl42, es31⟩

def bit (c : Capability) : Nat :=
  c.entry.bit

def all : List Capability :=
  [esProfile, precisionQualifiers, inOutKeywords, fragDataOutputs, explicitInputLocation,
    explicitOutputLocation, uniformBlocks, globalsInUniformBlock, explicitBinding, memberOffsets,
    unsignedIntegers, bitwiseOps, bitCasts, textureOverloads, texelFetch, textureSize,
    switchStatements, roundEvenTrunc, arrayConstructors, nonSquareMatrices, textureLodExt,
    textureLod, derivativesExt, derivatives, fineDerivatives, textureArrays, textureCubeArrays,
    texture3D, texture1D, shadowSamplers, multisampleTextures, textureBuffers, textureGather,
    textureQueryLod, textureQueryLevels, systemValueIds, fragDepth, interfaceBlocks,
    geometryShaders, multiStreamGs, gsInstancing, tessellation, computeShaders, storageBuffers,
    imageLoadStore, doubles, int64, bitfieldFunctions, packHalf, sampleInterpolation,
    noperspective, clipDistance, conservativeDepth, earlyFragmentTests]

theorem mem_all (c : Capability) : c ∈ all := by
  cases c <;> decide

-- Whether a version has the capability from its family's first version on.
def isDefault (c : Capability) (v : Version) : Bool :=
  ((if v.isEs then c.entry.es else c.entry.desktop).map v.atLeast).getD false

end Capability

structure Capabilities where
  has : Capability → Bool

namespace Capabilities

def ofVersion (v : Version) : Capabilities :=
  ⟨(·.isDefault v)⟩

-- The set that a bit mask spells; bits of no capability are dropped.
def ofBits (bits : Nat) : Capabilities :=
  ⟨fun c => bits.testBit c.bit⟩

def toList (s : Capabilities) : List Capability :=
  Capability.all.filter s.has

def bits (s : Capabilities) : Nat :=
  s.toList.foldr (fun c bits => (1 <<< c.bit) + bits) 0

def union (s : Capabilities) (cs : List Capability) : Capabilities :=
  ⟨fun c => s.has c || cs.contains c⟩

def diff (s : Capabilities) (cs : List Capability) : Capabilities :=
  ⟨fun c => s.has c && !cs.contains c⟩

def Subset (s t : Capabilities) : Prop :=
  ∀ c, s.has c → t.has c

end Capabilities

end ShaderLift
