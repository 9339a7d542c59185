import ShaderLift.Dialect.Capability

/-!
What a shader may ask of its dialect, by the words that a refusal uses.
-/

namespace ShaderLift

inductive Feature where
  | geometryShaders
  | hullShaders
  | domainShaders
  | computeShaders
  | switchStatements
  | multipleStreams
  | memoryBarriers
  | groupBarriers
  | sharedBarriers
  | integerModulus
  | extendedMultiplication
  | carryAndBorrow
  | roundEven
  | bitwiseOperators
  | bitfieldFunctions
  | derivatives
  | halfPacking
  | doubles
  | longImmediates
  | longIndices
  | interpolateAt
  | sampleMaskIn
  | sampleMask
  | fragDepth
  | texelOffsets
  | samplingDimension
  | explicitLod
  | gradients
  | textureGather
  | texelFetch
  | textureQueryLod
  | textureSize
  | textureQueryLevels
  | sharedMemory
  | imageAtomics
  | vertexIds
  | sampleId
  | fragmentPrimitiveId
  | fragmentLayer
  | clipDistance
  | flatInterpolation
  | noperspective
  | perSample
  | noperspectivePerSample
  | storageBuffers
  | images
  | textures1D
  | textures3D
  | texturesMultisample
  | arrays1D
  | arrays
  | arraysMultisample
  | arraysCube
  | bufferTextures
  | shadowSamplers
  | geometryInstancing
  | earlyFragmentTests
  | cullDistances
  | hullClipDistances
  | layerOutsideGeometry
  | comparisonDimension
  | patchPrimitives
  deriving DecidableEq, Repr

namespace Feature

structure Entry where
  name  : String
  -- The capabilities that together provide the feature; nothing does if there are none here.
  needs : Option (List Capability)

open Capability in
def entry : Feature → Entry
  | geometryShaders => ⟨"geometry shaders", some [Capability.geometryShaders]⟩
  | hullShaders => ⟨"hull shaders", some [tessellation]⟩
  | domainShaders => ⟨"domain shaders", some [tessellation]⟩
  | computeShaders => ⟨"compute shaders", some [Capability.computeShaders]⟩
  | switchStatements => ⟨"switch statements", some [Capability.switchStatements]⟩
  | multipleStreams => ⟨"multiple geometry-shader streams", some [multiStreamGs]⟩
  | memoryBarriers => ⟨"memory barriers", some [imageLoadStore]⟩
  | groupBarriers => ⟨"group memory barriers", some [Capability.computeShaders]⟩
  | sharedBarriers => ⟨"shared memory barriers", some [Capability.computeShaders]⟩
  | integerModulus => ⟨"integer modulus", some [bitwiseOps]⟩
  | extendedMultiplication => ⟨"extended multiplication", some [Capability.bitfieldFunctions]⟩
  | carryAndBorrow => ⟨"carry and borrow", some [Capability.bitfieldFunctions]⟩
  | roundEven => ⟨"roundEven", some [roundEvenTrunc]⟩
  | bitwiseOperators => ⟨"bitwise operators", some [bitwiseOps]⟩
  | bitfieldFunctions => ⟨"bit-field functions", some [Capability.bitfieldFunctions]⟩
  | derivatives => ⟨"derivatives", some [Capability.derivatives]⟩
  | halfPacking => ⟨"half-float packing", some [packHalf]⟩
  | doubles => ⟨"double precision", some [Capability.doubles]⟩
  | longImmediates => ⟨"64-bit immediates", some [Capability.doubles]⟩
  | longIndices => ⟨"64-bit register indices", some [int64]⟩
  | interpolateAt => ⟨"interpolateAt functions", some [sampleInterpolation]⟩
  | sampleMaskIn => ⟨"gl_SampleMaskIn", some [sampleInterpolation]⟩
  | sampleMask => ⟨"gl_SampleMask", some [sampleInterpolation]⟩
  | fragDepth => ⟨"gl_FragDepth", some [Capability.fragDepth]⟩
  | texelOffsets => ⟨"texel offsets", some [textureOverloads]⟩
  | samplingDimension => ⟨"sampling this texture dimension", some [textureOverloads]⟩
  | explicitLod => ⟨"explicit-LOD sampling in a fragment shader", some [textureLodExt]⟩
  | gradients => ⟨"gradient sampling", some [textureLodExt]⟩
  | textureGather => ⟨"textureGather", some [Capability.textureGather]⟩
  | texelFetch => ⟨"texelFetch", some [Capability.texelFetch]⟩
  | textureQueryLod => ⟨"textureQueryLod", some [Capability.textureQueryLod]⟩
  | textureSize => ⟨"textureSize", some [Capability.textureSize]⟩
  | textureQueryLevels => ⟨"textureQueryLevels", some [Capability.textureQueryLevels]⟩
  | sharedMemory => ⟨"shared memory", some [Capability.computeShaders]⟩
  | imageAtomics => ⟨"image atomics", some [imageLoadStore]⟩
  | vertexIds => ⟨"gl_VertexID and gl_InstanceID", some [systemValueIds]⟩
  | sampleId => ⟨"gl_SampleID", some [sampleInterpolation]⟩
  | fragmentPrimitiveId =>
    ⟨"gl_PrimitiveID in a fragment shader", some [Capability.geometryShaders]⟩
  | fragmentLayer => ⟨"gl_Layer in a fragment shader", some [Capability.geometryShaders]⟩
  | clipDistance => ⟨"gl_ClipDistance", some [Capability.clipDistance]⟩
  | flatInterpolation => ⟨"flat interpolation", some [inOutKeywords]⟩
  | noperspective => ⟨"noperspective interpolation", some [Capability.noperspective]⟩
  | perSample => ⟨"per-sample interpolation", some [sampleInterpolation]⟩
  | noperspectivePerSample =>
    ⟨"per-sample interpolation", some [sampleInterpolation, Capability.noperspective]⟩
  | storageBuffers => ⟨"storage buffers", some [Capability.storageBuffers]⟩
  | images => ⟨"image load/store", some [imageLoadStore]⟩
  | textures1D => ⟨"1D textures", some [texture1D]⟩
  | textures3D => ⟨"3D textures", some [texture3D]⟩
  | texturesMultisample => ⟨"multisample textures", some [multisampleTextures]⟩
  | arrays1D => ⟨"1D texture arrays", some [texture1D, textureArrays]⟩
  | arrays => ⟨"texture arrays", some [textureArrays]⟩
  | arraysMultisample =>
    ⟨"multisample texture arrays", some [multisampleTextures, textureArrays]⟩
  | arraysCube => ⟨"cube map arrays", some [textureCubeArrays]⟩
  | bufferTextures => ⟨"buffer textures", some [textureBuffers]⟩
  | shadowSamplers => ⟨"shadow samplers", some [Capability.shadowSamplers]⟩
  | geometryInstancing => ⟨"geometry-shader instancing", some [gsInstancing]⟩
  | earlyFragmentTests => ⟨"early fragment tests", some [Capability.earlyFragmentTests]⟩
  | cullDistances => ⟨"cull distances", none⟩
  | hullClipDistances => ⟨"clip and cull distances in a hull shader", none⟩
  | layerOutsideGeometry => ⟨"layer or viewport output outside a geometry shader", none⟩
  | comparisonDimension => ⟨"comparison sampling of this texture dimension", none⟩
  | patchPrimitives => ⟨"patch input to a geometry shader", none⟩

def name (f : Feature) : String :=
  f.entry.name

def needs (f : Feature) : Option (List Capability) :=
  f.entry.needs

end Feature

end ShaderLift
