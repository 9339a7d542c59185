import ShaderLift.Lift.Emit
import ShaderLift.Glsl.Source

/-!
What stands in front of the functions of a shader.
-/

namespace ShaderLift

open Glsl

def Context.preamble (c : Context) (extensions : List Extension) : List String :=
  let precision (grade : String) : List String :=
    ["precision " ++ grade ++ " float;", "precision " ++ grade ++ " int;"]
  let enabled := Extension.all.filter extensions.contains
  [c.dialect.version.directive] ++
    enabled.map (fun e => "#extension " ++ e.name ++ " : enable") ++
    if !c.has .precisionQualifiers then []
    else if c.stage = .pixel ∧ !c.has .inOutKeywords then
      ["#ifdef GL_FRAGMENT_PRECISION_HIGH"] ++ precision "highp" ++ ["#else"] ++
        precision "mediump" ++ ["#endif"]
    else precision "highp"

def InputPrimitive.layoutName? : InputPrimitive → Option String
  | point => some "points"
  | line => some "lines"
  | triangle => some "triangles"
  | lineAdj => some "lines_adjacency"
  | triangleAdj => some "triangles_adjacency"
  | patch _ => none

def PrimitiveTopology.layoutName : PrimitiveTopology → String
  | pointList => "points"
  | lineStrip => "line_strip"
  | triangleStrip => "triangle_strip"

def TessDomain.layoutName : TessDomain → String
  | isoline => "isolines"
  | triangle => "triangles"
  | quad => "quads"

def TessPartitioning.layoutName : TessPartitioning → String
  | integer | pow2 => "equal_spacing"
  | fractionalOdd => "fractional_odd_spacing"
  | fractionalEven => "fractional_even_spacing"

def TessOutputPrimitive.layoutNames : TessOutputPrimitive → List String
  | point => ["point_mode"]
  | line => []
  | triangleCw => ["cw"]
  | triangleCcw => ["ccw"]

namespace Context

def geometryLayout (c : Context) : Except LiftError (List Decl) := do
  let info := c.program.stageInfo
  let some primitive := info.gsInputPrimitive | throw (.unresolved 0 .inputPrimitive)
  let input ←
    match primitive.layoutName? with
    | some name => pure name
    | none => do
      c.dialect.require .patchPrimitives none
      pure ""
  let output := (info.gsOutputTopology.getD .pointList).layoutName
  let maxVertices := "max_vertices = " ++ decimal (info.gsMaxOutputVertices.getD 1)
  let instances ←
    match info.gsInstanceCount.filter (· > 1) with
    | some n => do
      c.dialect.require .geometryInstancing none
      pure [Decl.stageLayout ["invocations = " ++ decimal n] "in"]
    | none => pure []
  return [.stageLayout [input] "in", .stageLayout [output, maxVertices] "out"] ++ instances

def stageLayout (c : Context) : Except LiftError (List Decl) := do
  let info := c.program.stageInfo
  match c.stage with
  | .geometry => c.geometryLayout
  | .hull =>
    let points := max (info.outputControlPoints.getD 1) 1
    return [.stageLayout ["vertices = " ++ decimal points] "out"]
  | .domain =>
    let domain := (info.tessDomain.getD .triangle).layoutName
    let partitioning := c.options.tessPartitioning.or info.tessPartitioning
    let primitive := c.options.tessOutputPrimitive.or info.tessOutputPrimitive
    return [.stageLayout
      ([domain, (partitioning.getD .integer).layoutName] ++
        (primitive.map TessOutputPrimitive.layoutNames).getD []) "in"]
  | .compute =>
    let size := info.threadGroup.getD ⟨1, 1, 1⟩
    return [.stageLayout
      ["local_size_x = " ++ decimal size.x, "local_size_y = " ++ decimal size.y,
        "local_size_z = " ++ decimal size.z] "in"]
  | .pixel =>
    if info.earlyDepthStencil then
      c.dialect.require .earlyFragmentTests none
      return [.stageLayout ["early_fragment_tests"] "in"]
    else
      return []
  | .vertex => return []

def depthLayout (c : Context) : List Decl :=
  let uses (kind : RegisterKind) : Bool :=
    c.program.instructions.any fun inst =>
      inst.operands.any fun id => c.program.operands[id]?.any (·.register = kind)
  if c.stage ≠ .pixel ∨ !c.has .conservativeDepth then []
  else if uses .outputDepthGreaterEqual then [.depthLayout "depth_greater"]
  else if uses .outputDepthLessEqual then [.depthLayout "depth_less"]
  else []

def registerDecls (c : Context) : List Decl :=
  c.temps.entries.map (fun (register, type) => .temp (c.vec type 4) register) ++
    c.program.indexableTemps.entries.map (fun (register, length) =>
      .indexableTemp register (max length 1)) ++
    c.sizes.decls c.stage

def decls (c : Context) : Except LiftError (List Decl) := do
  let layout ← c.stageLayout
  c.options.requireWords (c.resources.constantBuffers.values.flatMap UniformBuffer.lengths)
  let resources ← c.resources.decls c.dialect
  c.options.requireWords (c.sizes.numbers c.stage)
  return layout ++ c.depthLayout ++ resources ++ c.interface.vars.map .interface ++
    c.resources.immediatesDecl c.dialect ++ c.registerDecls

end Context

end ShaderLift
