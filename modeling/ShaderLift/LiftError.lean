import ShaderLift.DecodeError
import ShaderLift.Flow
import ShaderLift.Dialect.Feature

/-!
Why a program cannot be lifted to shader text.
-/

namespace ShaderLift

inductive Unsupported where
  | outsidePhase
  | secondControlPointPhase
  | discardOutsidePixel
  | subroutineInHull
  | labelInFunction
  | noEquivalent
  | caseNotImmediate
  | emissionOutsideGeometry
  | syncWithoutFlags
  | groupSyncOutsideGroup
  | classLinkage
  | noTranslation
  | derivativesOutsidePixel
  | evaluationOutsidePixel
  | evaluatedOperand
  | immediateWithoutValue
  | missingIndex (kind : RegisterKind) (index : Nat)
  | dynamicTemp
  | dynamicIndexableTemp
  | notValue (kind : RegisterKind)
  | notDestination (kind : RegisterKind)
  | comparisonDimension
  | levelZeroCubeArray
  | lodOutsidePixel
  | bufferInfoOfTexture
  | notMemory
  | typedRead
  | typedWrite
  | untypedLoad
  | untypedStore
  | signedAtomic
  deriving DecidableEq, Repr

def Unsupported.message : Unsupported → String
  | outsidePhase => "instruction outside of any hull-shader phase"
  | secondControlPointPhase => "more than one control-point phase"
  | discardOutsidePixel => "discard outside a pixel shader"
  | subroutineInHull => "subroutines in a hull shader"
  | labelInFunction => "label inside a function body"
  | noEquivalent => "no GLSL equivalent"
  | caseNotImmediate => "case label is not an immediate"
  | emissionOutsideGeometry => "vertex emission outside a geometry shader"
  | syncWithoutFlags => "sync without flags"
  | groupSyncOutsideGroup => "thread-group sync outside compute and hull shaders"
  | classLinkage => "class linkage"
  | noTranslation => "no GLSL translation"
  | derivativesOutsidePixel => "derivatives outside a pixel shader"
  | evaluationOutsidePixel => "attribute evaluation outside a pixel shader"
  | evaluatedOperand => "evaluated operand is not a static input"
  | immediateWithoutValue => "immediate operand without a value"
  | missingIndex kind index => s!"`{kind.name}` operand is missing index {index}"
  | dynamicTemp => "dynamically indexed temp"
  | dynamicIndexableTemp => "dynamically selected indexable temp"
  | notValue kind => s!"`{kind.name}` operand used as a value"
  | notDestination kind => s!"`{kind.name}` operand used as a destination"
  | comparisonDimension => "comparison sampling of this dimension"
  | levelZeroCubeArray => "level-zero comparison of a cube map array"
  | lodOutsidePixel => "LOD query outside a pixel shader"
  | bufferInfoOfTexture => "bufinfo on a texture"
  | notMemory => "operand is not a memory resource"
  | typedRead => "typed UAV read through ld_raw/ld_structured"
  | typedWrite => "typed UAV written through store_raw/store_structured"
  | untypedLoad => "ld_uav_typed on an untyped UAV"
  | untypedStore => "store_uav_typed on an untyped UAV"
  | signedAtomic => "signed atomic min/max on untyped memory"

inductive Unresolved where
  | dynamicLabel
  | label (label : UInt32)
  | dynamicConstantBuffer
  | constantBuffer (slot : UInt32)
  | dynamicConstantIndex (slot : UInt32)
  | uncoveredRegister (slot register : UInt32)
  | immediateConstants
  | dynamicTexture
  | texture (slot : UInt32)
  | textureDimension (dimension : ResourceDimension)
  | samplerOperand (op : Opcode)
  | dynamicSampler
  | samplerPair (texture sampler : UInt32)
  | fetchSampler (texture : UInt32)
  | dynamicMemory
  | resourceBuffer (slot : UInt32)
  | uav (slot : UInt32)
  | imageDimension (slot : UInt32)
  | sharedMemory (slot : UInt32)
  | hiddenCounter
  | interpolatedInput (register : UInt32)
  | inputPrimitive
  deriving DecidableEq, Repr

def Unresolved.message : Unresolved → String
  | dynamicLabel => "call with a dynamic label"
  | label l => s!"label l{decimal l}"
  | dynamicConstantBuffer => "constant buffer selected dynamically"
  | constantBuffer slot => s!"cb{decimal slot} has no dcl_constantbuffer"
  | dynamicConstantIndex slot => s!"dynamic index into cb{decimal slot}"
  | uncoveredRegister slot register =>
    s!"cb{decimal slot}[{decimal register}] is not covered by any variable"
  | immediateConstants => "icb read without dcl_immediateConstantBuffer"
  | dynamicTexture => "dynamically indexed texture"
  | texture slot => s!"t{decimal slot} has no dcl_resource"
  | textureDimension dimension => s!"texture of dimension {dimension.name}"
  | samplerOperand op => s!"sampler operand of `{op.mnemonic}`"
  | dynamicSampler => "dynamically indexed sampler"
  | samplerPair t s => s!"t{decimal t} with s{decimal s}"
  | fetchSampler t => s!"t{decimal t} is never declared as a sampler"
  | dynamicMemory => "dynamically indexed memory operand"
  | resourceBuffer slot => s!"t{decimal slot} is not a raw or structured buffer"
  | uav slot => s!"u{decimal slot} has no declaration"
  | imageDimension slot => s!"u{decimal slot} has no image dimension"
  | sharedMemory slot => s!"g{decimal slot} has no declaration"
  | hiddenCounter => "UAV without a hidden counter"
  | interpolatedInput register => s!"v{decimal register} is not an interpolated input"
  | inputPrimitive => "geometry shader without an input primitive"

inductive LiftError where
  | malformed (error : DecodeError)
  | unbalanced (error : FlowError)
  | unsupported (index : Nat) (op : Opcode) (reason : Unsupported)
  | unresolved (index : Nat) (what : Unresolved)
  | unavailable (feature : String) (version : Version) (index : Option Nat)
  -- A number refers past the end of an operand list, the arena or the instructions.
  | outOfRange
  | overflow
  deriving DecidableEq, Repr

def LiftError.message : LiftError → String
  | malformed error => "malformed bytecode: " ++ error.message
  | unbalanced error => "unbalanced control flow: " ++ error.message
  | unsupported index op reason =>
    s!"unsupported instruction `{op.mnemonic}` at index {index}: " ++ reason.message
  | unresolved index what => s!"unresolved binding at index {index}: " ++ what.message
  | unavailable feature version _ =>
    feature ++ " is not available when targeting " ++ version.name
  | outOfRange => "reference out of range"
  | overflow => "number of more than 32 bits"

end ShaderLift
