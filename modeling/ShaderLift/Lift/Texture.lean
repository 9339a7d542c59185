import ShaderLift.Lift.Arithmetic

/-!
Texture sampling, texel fetches and queries of textures.
-/

namespace ShaderLift

open Glsl

inductive Lookup where
  | plain
  | lod
  | grad
  deriving DecidableEq, Repr

namespace Lookup

def overload : Lookup → String
  | plain => "texture"
  | lod => "textureLod"
  | grad => "textureGrad"

-- The feature that the lookup needs in dialects where an extension provides it.
def feature : Lookup → Feature
  | grad => .gradients
  | _ => .explicitLod

end Lookup

def ResourceDimension.legacyLookup? : ResourceDimension → (shadow : Bool) → Option String
  | texture1D, false => some "texture1D"
  | texture2D, false => some "texture2D"
  | texture3D, false => some "texture3D"
  | textureCube, false => some "textureCube"
  | texture1D, true => some "shadow1D"
  | texture2D, true => some "shadow2D"
  | _, _ => none

namespace Context

def texture (c : Context) (id : OperandId) : Except LiftError (UInt32 × Texture) := do
  let op ← c.operand id
  let slot ← c.orUnresolved .dynamicTexture op.slot?
  let texture ← c.orUnresolved (.texture slot) (c.resources.textures.get? slot)
  return (slot, texture)

-- Picks components of a result, through the selection of the resource operand.
def resourcePick (op : Operand) (components : List Nat) (e : Expr) : Expr :=
  e.pick (components.map op.component)

def legacyFunction (c : Context) (dimension : ResourceDimension) (shadow : Bool) (lookup : Lookup) :
    Emit String := do
  let stem ←
    match dimension.legacyLookup? shadow with
    | some stem => pure stem
    | none => do
      c.require .samplingDimension
      pure "texture"
  if lookup = .plain then
    return stem
  if lookup = .lod ∧ c.stage ≠ .pixel then
    return stem ++ "Lod"
  c.require lookup.feature
  match c.has .esProfile, lookup with
  | true, .lod => do
    Emit.useExtension .extTextureLod
    return stem ++ "LodEXT"
  | true, _ => do
    Emit.useExtension .extTextureLod
    return stem ++ "GradEXT"
  | false, .lod => do
    Emit.useExtension .arbTextureLod
    return stem ++ "Lod"
  | false, _ => do
    Emit.useExtension .arbTextureLod
    return stem ++ "GradARB"

def lookupFunction (c : Context) (dimension : ResourceDimension) (shadow : Bool) (lookup : Lookup)
    (hasOffset : Bool) : Emit String := do
  if c.has .textureOverloads then
    return lookup.overload ++ if hasOffset then "Offset" else ""
  if hasOffset then
    c.require .texelOffsets
  c.legacyFunction dimension shadow lookup

def offsetVector (c : Context) (n : Nat) : List Int → Expr
  | [offset] => .int offset
  | offsets => .call (c.vec .int n) (offsets.map .int)

def immediateOffset (c : Context) (inst : Instruction) (dimension : ResourceDimension) :
    Option Expr :=
  match inst.controls with
  | .sample controls =>
    (controls.offsets.filter (·.toList.any (· ≠ 0))).map fun offsets =>
      let n := dimension.offsetCount
      c.offsetVector n (offsets.toList.take n)
  | _ => none

-- The coordinate of a comparison, and the reference value where it stands apart.
def compareCoord (c : Context) (dimension : ResourceDimension) (coord reference : Expr) :
    Except LiftError (Expr × List Expr) :=
  match dimension with
  | .texture1D => return (.call "vec3" [coord, .floatZero, reference], [])
  | .texture2D | .texture1DArray => return (.call "vec3" [coord, reference], [])
  | .texture2DArray | .textureCube => return (.call "vec4" [coord, reference], [])
  | .textureCubeArray => return (coord, [reference])
  | _ => c.unsupported .comparisonDimension

structure SampleCall where
  inst      : Instruction
  sampler   : Expr
  dimension : ResourceDimension
  type      : ValueType
  coord     : Expr
  offset    : List Expr
  shadow    : Bool
  component : Nat

structure SampleValue where
  call     : Expr
  type     : ValueType
  isScalar : Bool := false

-- Comparisons are vectors in dialects without overloads.
def shadowResult (c : Context) (e : Expr) : Expr :=
  if c.has .textureOverloads then e else .select e [0]

def sampleFunction (c : Context) (s : SampleCall) (lookup : Lookup) : Emit String :=
  c.lookupFunction s.dimension s.shadow lookup (!s.offset.isEmpty)

-- Compares at the first level. Dialects lack the plain form for some dimensions, where gradients
-- of zero do the same.
def sampleLevelZero (c : Context) (s : SampleCall) : Emit SampleValue := do
  if s.dimension = .textureCubeArray then
    c.unsupported .levelZeroCubeArray
  let reference ← c.argSource s.inst 4 .float [0]
  let (coord, _) ← c.compareCoord s.dimension s.coord reference
  match s.dimension with
  | .texture2DArray | .textureCube =>
    let zeros := Expr.call (c.vec .float s.dimension.offsetCount) [.floatZero]
    let f ← c.sampleFunction s .grad
    return ⟨.call f ([s.sampler, coord, zeros, zeros] ++ s.offset), .float, true⟩
  | _ =>
    let f ← c.sampleFunction s .lod
    return ⟨c.shadowResult (.call f ([s.sampler, coord, .floatZero] ++ s.offset)), .float, true⟩

def sampleValue (c : Context) (s : SampleCall) : Emit SampleValue := do
  let gather := if s.offset.isEmpty then "textureGather" else "textureGatherOffset"
  let gatherCompare (i : Nat) : Except LiftError SampleValue := do
    c.require .textureGather
    let reference ← c.argSource s.inst i .float [0]
    return ⟨.call gather ([s.sampler, s.coord, reference] ++ s.offset), .float, false⟩
  match s.inst.opcode with
  | .sample =>
    let f ← c.sampleFunction s .plain
    return ⟨.call f ([s.sampler, s.coord] ++ s.offset), s.type, false⟩
  | .sampleB =>
    let bias ← c.argSource s.inst 4 .float [0]
    let f ← c.sampleFunction s .plain
    return ⟨.call f ([s.sampler, s.coord] ++ s.offset ++ [bias]), s.type, false⟩
  | .sampleL =>
    let lod ← c.argSource s.inst 4 .float [0]
    let f ← c.sampleFunction s .lod
    return ⟨.call f ([s.sampler, s.coord, lod] ++ s.offset), s.type, false⟩
  | .sampleD =>
    let lanes := List.range s.dimension.offsetCount
    let dx ← c.argSource s.inst 4 .float lanes
    let dy ← c.argSource s.inst 5 .float lanes
    let f ← c.sampleFunction s .grad
    return ⟨.call f ([s.sampler, s.coord, dx, dy] ++ s.offset), s.type, false⟩
  | .sampleC =>
    let reference ← c.argSource s.inst 4 .float [0]
    let (coord, apart) ← c.compareCoord s.dimension s.coord reference
    let f ← c.sampleFunction s .plain
    return ⟨c.shadowResult (.call f ([s.sampler, coord] ++ apart ++ s.offset)), .float, true⟩
  | .sampleCLz => c.sampleLevelZero s
  | .gather4C => gatherCompare 4
  | .gather4PoC => gatherCompare 5
  | _ =>
    c.require .textureGather
    let component := if s.component = 0 then [] else [Expr.int s.component]
    return ⟨.call gather ([s.sampler, s.coord] ++ s.offset ++ component), s.type, false⟩

def samplePair (c : Context) (inst : Instruction) (operands : SampleOperands) (position : Nat) :
    Except LiftError (Texture × SamplerKey × Operand) := do
  let (textureSlot, texture) ← c.texture (← c.arg inst operands.texture)
  let sampler ← c.operand (← c.arg inst position)
  let samplerSlot ← c.orUnresolved .dynamicSampler sampler.slot?
  let key ← c.orUnresolved (.samplerPair textureSlot samplerSlot)
    (c.resources.pair? textureSlot samplerSlot operands.shadow)
  return (texture, key, sampler)

def sample (c : Context) (inst : Instruction) (operands : SampleOperands) (position : Nat) :
    Emit (List Line) := do
  let (texture, key, sampler) ← c.samplePair inst operands position
  match ← c.argDestination inst 0 with
  | none => return []
  | some dst =>
    let dimension := texture.dimension
    let coord ← c.argSource inst 1 .float (List.range dimension.coordCount)
    let offset ←
      match inst.opcode with
      | .gather4Po | .gather4PoC => do
        pure [← c.argSource inst 2 .int (List.range dimension.offsetCount)]
      | _ => pure (c.immediateOffset inst dimension).toList
    let result ← c.sampleValue {
      inst, dimension, coord, offset
      sampler := .var (.sampler key)
      type := texture.valueType c.dialect
      shadow := operands.shadow
      component := sampler.component 0 }
    if result.isScalar then
      let value := c.splat .float dst.components.length result.call
      return c.storeLine dst value result.type
    else
      let resource ← c.operand (← c.arg inst operands.texture)
      return c.storeLine dst (resourcePick resource dst.components result.call) result.type

def fetchName (c : Context) (slot : UInt32) : Except LiftError Expr := do
  return .var (.sampler (← c.orUnresolved (.fetchSampler slot) (c.resources.fetchKey? slot)))

def loadTexel (c : Context) (inst : Instruction) : Except LiftError (List Line) := do
  c.require .texelFetch
  let id ← c.arg inst 2
  let (slot, texture) ← c.texture id
  let name ← c.fetchName slot
  c.withDestination inst fun dst => do
    let dimension := texture.dimension
    let coord ← c.argSource inst 1 .int (List.range dimension.coordCount)
    let call ←
      if dimension = .buffer then
        pure (Expr.call "texelFetch" [name, coord])
      else if dimension.isMultisampled then do
        pure (Expr.call "texelFetch" [name, coord, ← c.argSource inst 3 .int [0]])
      else do
        let lod ← c.argSource inst 1 .int [3]
        match c.immediateOffset inst dimension with
        | some offset => pure (Expr.call "texelFetchOffset" [name, coord, lod, offset])
        | none => pure (Expr.call "texelFetch" [name, coord, lod])
    let value := resourcePick (← c.operand id) dst.components call
    return c.storeLine dst value (texture.valueType c.dialect)

def queryLod (c : Context) (inst : Instruction) : Except LiftError (List Line) := do
  if c.stage ≠ .pixel then
    c.unsupported .lodOutsidePixel
  c.require .textureQueryLod
  let (texture, key, _) ← c.samplePair inst ⟨2, some 3, false⟩ 3
  c.withDestination inst fun dst => do
    let coord ← c.argSource inst 1 .float (List.range texture.dimension.offsetCount)
    let level := Expr.call "textureQueryLod" [.var (.sampler key), coord]
    let resource ← c.operand (← c.arg inst 2)
    let value := Expr.call "vec4" [level, .floatZero, .floatZero]
    return c.storeLine dst (resourcePick resource dst.components value) .float

-- The size of a texture in its first components, and its number of levels in the last one.
def sizeVector (c : Context) (name mip : Expr) (dimension : ResourceDimension)
    (wantsLevels : Bool) : Except LiftError Expr := do
  let isSingle := dimension = .buffer ∨ dimension.isMultisampled
  let size := Expr.call "textureSize" (if isSingle then [name] else [name, mip])
  let levels ←
    if !wantsLevels then pure (Expr.int 0)
    else if isSingle then pure (Expr.int 1)
    else do
      c.require .textureQueryLevels
      pure (Expr.call "textureQueryLevels" [name])
  let zeros := List.replicate (3 - dimension.sizeCount) (Expr.int 0)
  return .call (c.vec .int 4) (size :: zeros ++ [levels])

def sizeInfo (c : Context) (inst : Instruction) : Except LiftError (List Line) := do
  c.require .textureSize
  let id ← c.arg inst 2
  let (slot, texture) ← c.texture id
  let name ← c.fetchName slot
  c.withDestination inst fun dst => do
    let mip ← c.argSource inst 1 .int [0]
    let resource ← c.operand id
    let wantsLevels := (dst.components.map resource.component).contains 3
    let size ← c.sizeVector name mip texture.dimension wantsLevels
    let format :=
      match inst.controls with
      | .resInfo format _ => format
      | _ => .float
    let (vector, type) :=
      match format with
      | .uint => (Expr.call (c.vec .uint 4) [size], ValueType.uint)
      | .float => (.call "vec4" [size], .float)
      | .rcpFloat =>
        let inverse := Expr.binary .div .floatOne (.call "vec3" [.select size [0, 1, 2]])
        (.call "vec4" [inverse, .call "float" [.select size [3]]], .float)
    return c.storeLine dst (resourcePick resource dst.components vector) type

end Context

end ShaderLift
