/-!
The values that the pipeline itself defines, and how inputs are interpolated.
-/

namespace ShaderLift

inductive SystemValue where
  | undefined
  | position
  | clipDistance
  | cullDistance
  | renderTargetArrayIndex
  | viewportArrayIndex
  | vertexId
  | primitiveId
  | instanceId
  | isFrontFace
  | sampleIndex
  | finalQuadEdgeTessFactor
  | finalQuadInsideTessFactor
  | finalTriEdgeTessFactor
  | finalTriInsideTessFactor
  | finalLineDetailTessFactor
  | finalLineDensityTessFactor
  | target
  | depth
  | coverage
  | depthGreaterEqual
  | depthLessEqual
  | stencilRef
  | innerCoverage
  deriving DecidableEq, Repr

namespace SystemValue

def low : List SystemValue :=
  [undefined, position, clipDistance, cullDistance, renderTargetArrayIndex, viewportArrayIndex,
    vertexId, primitiveId, instanceId, isFrontFace, sampleIndex, finalQuadEdgeTessFactor,
    finalQuadInsideTessFactor, finalTriEdgeTessFactor, finalTriInsideTessFactor,
    finalLineDetailTessFactor, finalLineDensityTessFactor]

def high : List SystemValue :=
  [target, depth, coverage, depthGreaterEqual, depthLessEqual, stencilRef, innerCoverage]

def all : List SystemValue :=
  low ++ high

theorem mem_all (sv : SystemValue) : sv ∈ all := by
  cases sv <;> decide

def ofRaw? (raw : Nat) : Option SystemValue :=
  if raw < 64 then low[raw]? else high[raw - 64]?

-- The numbering of declarations, which has one number for each edge or inside factor of a
-- tessellated patch. The second part of the answer tells these apart.
def ofDeclared? (raw : Nat) : Option (SystemValue × UInt32) :=
  if raw < 11 then (ofRaw? raw).map (·, 0)
  else if raw < 15 then some (finalQuadEdgeTessFactor, .ofNat (raw - 11))
  else if raw < 17 then some (finalQuadInsideTessFactor, .ofNat (raw - 15))
  else if raw < 20 then some (finalTriEdgeTessFactor, .ofNat (raw - 17))
  else if raw = 20 then some (finalTriInsideTessFactor, 0)
  else if raw = 21 then some (finalLineDetailTessFactor, 0)
  else if raw = 22 then some (finalLineDensityTessFactor, 0)
  else if raw < 64 then none
  else (ofRaw? raw).map (·, 0)

def index (sv : SystemValue) : Nat :=
  all.idxOf sv

theorem index_inj {a b : SystemValue} (h : a.index = b.index) : a = b := by
  have ha : all[a.index]? = some a := by cases a <;> rfl
  have hb : all[b.index]? = some b := by cases b <;> rfl
  rw [h, hb] at ha
  exact (Option.some.inj ha).symm

def isEdgeTessFactor : SystemValue → Bool
  | finalQuadEdgeTessFactor | finalTriEdgeTessFactor
  | finalLineDetailTessFactor | finalLineDensityTessFactor => true
  | _ => false

def isInsideTessFactor : SystemValue → Bool
  | finalQuadInsideTessFactor | finalTriInsideTessFactor => true
  | _ => false

def semantic : SystemValue → String
  | undefined => "TEXCOORD"
  | position => "SV_Position"
  | clipDistance => "SV_ClipDistance"
  | cullDistance => "SV_CullDistance"
  | renderTargetArrayIndex => "SV_RenderTargetArrayIndex"
  | viewportArrayIndex => "SV_ViewportArrayIndex"
  | vertexId => "SV_VertexID"
  | primitiveId => "SV_PrimitiveID"
  | instanceId => "SV_InstanceID"
  | isFrontFace => "SV_IsFrontFace"
  | sampleIndex => "SV_SampleIndex"
  | finalQuadEdgeTessFactor | finalTriEdgeTessFactor
  | finalLineDetailTessFactor | finalLineDensityTessFactor => "SV_TessFactor"
  | finalQuadInsideTessFactor | finalTriInsideTessFactor => "SV_InsideTessFactor"
  | target => "SV_Target"
  | depth => "SV_Depth"
  | coverage => "SV_Coverage"
  | depthGreaterEqual => "SV_DepthGreaterEqual"
  | depthLessEqual => "SV_DepthLessEqual"
  | stencilRef => "SV_StencilRef"
  | innerCoverage => "SV_InnerCoverage"

end SystemValue

inductive InterpolationMode where
  | undefined
  | constant
  | linear
  | linearCentroid
  | linearNoPerspective
  | linearNoPerspectiveCentroid
  | linearSample
  | linearNoPerspectiveSample
  deriving DecidableEq, Repr

namespace InterpolationMode

def all : List InterpolationMode :=
  [undefined, constant, linear, linearCentroid, linearNoPerspective, linearNoPerspectiveCentroid,
    linearSample, linearNoPerspectiveSample]

def ofRaw? (raw : Nat) : Option InterpolationMode :=
  all[raw]?

end InterpolationMode

end ShaderLift
