import ShaderLift.Lift.Terminal
import ShaderLift.Lift.Registers

/-!
Inputs and outputs of a stage. Instructions reach them as registers, which live in arrays of
vectors. Lines at the start of a shader fill these from the variables of the stage's interface, and
lines at its end copy them back out. Stages match variables by name: a letter for the stage that
writes them, and the semantic.
-/

namespace ShaderLift

open Glsl

structure Varying where
  register : UInt32
  mask     : WriteMask
  name     : String
  type     : ValueType
  deriving DecidableEq, Repr

structure Interface where
  vars        : List InterfaceVariable := []
  load        : List Line := []
  store       : List Line := []
  pointLoad   : List Line := []
  patchStore  : List Line := []
  attributes  : List (String × UInt32) := []
  fragOutputs : List (String × UInt32) := []
  varyings    : List Varying := []
  deriving Repr

namespace Interface

def append (a b : Interface) : Interface where
  vars := a.vars ++ b.vars
  load := a.load ++ b.load
  store := a.store ++ b.store
  pointLoad := a.pointLoad ++ b.pointLoad
  patchStore := a.patchStore ++ b.patchStore
  attributes := a.attributes ++ b.attributes
  fragOutputs := a.fragOutputs ++ b.fragOutputs
  varyings := a.varyings ++ b.varyings

instance : Append Interface := ⟨append⟩

def varying? (i : Interface) (register : UInt32) (component : Nat) : Option Varying :=
  i.varyings.find? fun v => v.register = register && v.mask.contains component

end Interface

structure FileSizes where
  inputs        : UInt32 := 0
  outputs       : UInt32 := 0
  patch         : UInt32 := 0
  -- Vertices of an input primitive, or control points of an input patch.
  inputVertices  : UInt32 := 0
  outputVertices : UInt32 := 0
  deriving DecidableEq, Repr

-- Entries that no register of `v` or `o` stands for: they have an operand kind of their own.
def SignatureEntry.isSkipped (e : SignatureEntry) : Bool :=
  e.register = noRegister ||
    match e.systemValue with
    | .depth | .depthGreaterEqual | .depthLessEqual | .coverage | .stencilRef
    | .innerCoverage => true
    | _ => false

def SignatureEntry.clipCount (e : SignatureEntry) : Nat :=
  if e.systemValue = .clipDistance then e.mask.count else 0

def SignatureEntry.variableName (letters : String) (e : SignatureEntry) : String :=
  letters ++ "_" ++ Identifier.ofSemantic e.semantic e.semanticIndex

structure Border where
  dialect : Dialect
  options : Options
  stage   : Stage
  sizes   : FileSizes

namespace Border

def require (b : Border) (f : Feature) : Except LiftError Unit :=
  b.dialect.require f none

def inKeyword (b : Border) : String :=
  if b.dialect.has .inOutKeywords then "in"
  else if b.stage = .vertex then "attribute"
  else "varying"

def outKeyword (b : Border) : String :=
  if b.dialect.has .inOutKeywords then "out" else "varying"

-- The type of a variable that stages hand on; there are only floats without `in` and `out`.
def varyingType (b : Border) (e : SignatureEntry) : ValueType :=
  if b.dialect.has .inOutKeywords then (ValueType.ofComponentType e.componentType).lower b.dialect
  else .float

def vec4 (b : Border) (t : ValueType) : String :=
  t.vecName b.dialect 4

def flat (t : ValueType) : List String :=
  if t = .float then [] else ["flat"]

-- Whether nobody reads what this stage hands on.
def dropsVaryings (b : Border) : Bool :=
  let isLast :=
    match b.stage with
    | .vertex | .domain => !b.options.hasGeometry
    | .geometry => true
    | _ => false
  isLast && !b.options.hasPixel

def interpolation (b : Border) (e : SignatureEntry) (t : ValueType) :
    Except LiftError (List String) :=
  if t ≠ .float then return ["flat"]
  else
    match e.interpolation with
    | some .constant => do
      b.require .flatInterpolation
      return ["flat"]
    | some .linearCentroid => return if b.dialect.has .inOutKeywords then ["centroid"] else []
    | some .linearNoPerspective => do
      b.require .noperspective
      return ["noperspective"]
    | some .linearNoPerspectiveCentroid => do
      b.require .noperspective
      return ["noperspective", "centroid"]
    | some .linearSample => do
      b.require .perSample
      return ["sample"]
    | some .linearNoPerspectiveSample => do
      b.require .noperspectivePerSample
      return ["noperspective", "sample"]
    | _ => return []

def lines (stmts : List Stmt) : List Line :=
  stmts.map .stmt

def loadInput (b : Border) (e : SignatureEntry) (terminal : Terminal) : List Line :=
  lines (terminal.load b.dialect (fileRegister .inputs e.register) e.mask)

def storeOutput (b : Border) (e : SignatureEntry) (terminal : Terminal) : List Line :=
  lines (terminal.store b.dialect (fileRegister .outputs e.register) e.mask)

def vertexInput (b : Border) (e : SignatureEntry) : Except LiftError Interface := do
  let idInput (name : String) : Except LiftError Interface := do
    b.require .vertexIds
    return { load := b.loadInput e (.scalar (.builtin name) .int) }
  match e.systemValue with
  | .vertexId => idInput "VertexID"
  | .instanceId => idInput "InstanceID"
  | _ =>
    let name := e.variableName "a"
    let type := b.varyingType e
    let location :=
      if b.dialect.has .explicitInputLocation then
        [Decl.layoutText ["location = " ++ decimal e.register]]
      else []
    return {
      vars := [{ qualifiers := location ++ [b.inKeyword], type := b.vec4 type, name }]
      attributes := [(name, e.register)]
      load := b.loadInput e (.vector (.var (.varying name)) type) }

def fragCoord : Expr :=
  let coord := Expr.builtin "FragCoord"
  .call "vec4" [.select coord [0, 1, 2], .binary .div .floatOne (.select coord [3])]

def pixelInput (b : Border) (clip : Nat) (e : SignatureEntry) : Except LiftError Interface := do
  let fixed (terminal : Terminal) : Interface := { load := b.loadInput e terminal }
  let int (value : Expr) : Interface := fixed (.scalar value .int)
  match e.systemValue with
  | .position => return fixed (.vector fragCoord .float)
  | .isFrontFace =>
    return int (.paren (.cond (.builtin "FrontFacing") (.int (-1)) (.int 0)))
  | .sampleIndex =>
    b.require .sampleId
    return int (.builtin "SampleID")
  | .primitiveId =>
    b.require .fragmentPrimitiveId
    return int (.builtin "PrimitiveID")
  | .renderTargetArrayIndex =>
    b.require .fragmentLayer
    return int (.builtin "Layer")
  | .viewportArrayIndex =>
    b.require .fragmentLayer
    return int (.builtin "ViewportIndex")
  | .clipDistance =>
    b.require .clipDistance
    return fixed (.lanes (elements (.builtin "ClipDistance") clip e.mask.count))
  | .cullDistance =>
    b.require .cullDistances
    return {}
  | _ =>
    let name := e.variableName (if b.options.hasGeometry then "g" else "v")
    let type := b.varyingType e
    let qualifiers ← b.interpolation e type
    return {
      vars := [{ qualifiers := qualifiers ++ [b.inKeyword], type := b.vec4 type, name }]
      load := b.loadInput e (.vector (.var (.varying name)) type)
      varyings := [⟨e.register, e.mask, name, type⟩] }

def currentVertex (array : String) : Expr :=
  .index (.builtin array) (.var .loopIndex)

def arrayInput (b : Border) (clip : Nat) (e : SignatureEntry) : Except LiftError Interface := do
  let file := if b.stage = .geometry then RegisterFile.inputs else .inputPoints
  let letters := if b.stage = .domain then "tc" else "v"
  let register := vertexRegister file b.sizes.inputs e.register
  let loop (terminal : Terminal) : List Line :=
    block (.times b.sizes.inputVertices) [.stmts (terminal.load b.dialect register e.mask)]
  let plain : Except LiftError Interface := do
    let name := e.variableName letters
    let type := b.varyingType e
    let qualifiers := if b.stage = .geometry then flat type else []
    return {
      vars :=
        [{ qualifiers := qualifiers ++ ["in"], type := b.vec4 type, name, isArray := true }]
      load := loop (.vector (.index (.var (.varying name)) (.var .loopIndex)) type) }
  match e.systemValue with
  | .position =>
    return { load := loop (.vector (.field (currentVertex "in") "gl_Position") .float) }
  | .clipDistance =>
    if b.stage = .geometry then
      b.require .clipDistance
      let array := Expr.field (currentVertex "in") "gl_ClipDistance"
      return { load := loop (.lanes (elements array clip e.mask.count)) }
    else plain
  | .cullDistance =>
    b.require .cullDistances
    return {}
  | _ => plain

def input (b : Border) (clip : Nat) (e : SignatureEntry) : Except LiftError Interface :=
  match b.stage with
  | .vertex => b.vertexInput e
  | .pixel => b.pixelInput clip e
  | .geometry | .hull | .domain => b.arrayInput clip e
  | .compute => return {}

def pixelOutput (b : Border) (e : SignatureEntry) : Interface :=
  let n := e.semanticIndex
  if b.dialect.has .fragDataOutputs then
    let name := "out_Target" ++ decimal n
    let type := (ValueType.ofComponentType e.componentType).lower b.dialect
    let location :=
      if b.dialect.has .explicitOutputLocation then
        [Decl.layoutText ["location = " ++ decimal n]]
      else []
    { vars := [{ qualifiers := location ++ ["out"], type := b.vec4 type, name }]
      fragOutputs := [(name, n)]
      store := b.storeOutput e (.vector (.var (.varying name)) type) }
  else
    { store := b.storeOutput e (.vector (.index (.builtin "FragData") (.number n)) .float) }

def hullOutput (b : Border) (e : SignatureEntry) : Except LiftError Interface := do
  let invocation := Expr.builtin "InvocationID"
  let register := vertexRegister .outputPoints b.sizes.outputs e.register
  let readBack (terminal : Terminal) : List Line :=
    block (.times b.sizes.outputVertices) [.stmts (terminal.load b.dialect register e.mask)]
  match e.systemValue with
  | .position =>
    let position (vertex : Expr) : Terminal :=
      .vector (.field (.index (.builtin "out") vertex) "gl_Position") .float
    return {
      store := b.storeOutput e (position invocation)
      pointLoad := readBack (position (.var .loopIndex)) }
  | .clipDistance | .cullDistance =>
    b.require .hullClipDistances
    return {}
  | _ =>
    let name := e.variableName "tc"
    let type := b.varyingType e
    let element (vertex : Expr) : Terminal := .vector (.index (.var (.varying name)) vertex) type
    return {
      vars := [{ qualifiers := ["out"], type := b.vec4 type, name, isArray := true }]
      store := b.storeOutput e (element invocation)
      pointLoad := readBack (element (.var .loopIndex)) }

def vertexOutput (b : Border) (clip : Nat) (e : SignatureEntry) : Except LiftError Interface := do
  let isGeometry := b.stage = .geometry
  let fixed (terminal : Terminal) : Interface := { store := b.storeOutput e terminal }
  let plain : Except LiftError Interface := do
    if b.dropsVaryings then
      return {}
    let name := e.variableName (if isGeometry then "g" else "v")
    let type := b.varyingType e
    let stream ←
      if isGeometry ∧ e.stream ≠ 0 then do
        b.require .multipleStreams
        pure [Decl.layoutText ["stream = " ++ decimal e.stream]]
      else pure []
    return {
      vars :=
        [{ qualifiers := stream ++ flat type ++ [b.outKeyword], type := b.vec4 type, name }]
      store := b.storeOutput e (.vector (.var (.varying name)) type) }
  match e.systemValue with
  | .position => return fixed (.vector (.builtin "Position") .float)
  | .clipDistance =>
    b.require .clipDistance
    return fixed (.lanes (elements (.builtin "ClipDistance") clip e.mask.count))
  | .cullDistance =>
    b.require .cullDistances
    return {}
  | .renderTargetArrayIndex =>
    if isGeometry then
      return fixed (.scalar (.builtin "Layer") .int)
    b.require .layerOutsideGeometry
    return {}
  | .viewportArrayIndex =>
    if isGeometry then
      return fixed (.scalar (.builtin "ViewportIndex") .int)
    b.require .layerOutsideGeometry
    return {}
  | .primitiveId =>
    if isGeometry then return fixed (.scalar (.builtin "PrimitiveID") .int) else plain
  | _ => plain

def output (b : Border) (clip : Nat) (e : SignatureEntry) : Except LiftError Interface :=
  match b.stage with
  | .pixel => return b.pixelOutput e
  | .hull => b.hullOutput e
  | .vertex | .domain | .geometry => b.vertexOutput clip e
  | .compute => return {}

def tessLevel (sv : SystemValue) (index : UInt32) : Expr :=
  match sv with
  | .finalLineDetailTessFactor => .index (.builtin "TessLevelOuter") (.int 1)
  | .finalLineDensityTessFactor => .index (.builtin "TessLevelOuter") (.int 0)
  | sv =>
    let array := if sv.isInsideTessFactor then "TessLevelInner" else "TessLevelOuter"
    .index (.builtin array) (.number index)

-- The numbers of the tessellation levels that an entry stands for.
def levelNumbers (e : SignatureEntry) : List Nat :=
  if e.systemValue.isEdgeTessFactor || e.systemValue.isInsideTessFactor then
    (List.range e.mask.count).map (e.semanticIndex.toNat + ·)
  else []

def patch (b : Border) (e : SignatureEntry) : Interface :=
  let isHull := b.stage = .hull
  let copy (terminal : Terminal) : Interface :=
    if isHull then
      { patchStore :=
          lines (terminal.store b.dialect (fileRegister .patchOutputs e.register) e.mask) }
    else
      { load := lines (terminal.load b.dialect (fileRegister .patchInputs e.register) e.mask) }
  if e.systemValue.isEdgeTessFactor || e.systemValue.isInsideTessFactor then
    copy (.lanes ((List.range e.mask.count).map fun i =>
      tessLevel e.systemValue (e.semanticIndex + .ofNat i)))
  else if e.isSkipped then {}
  else
    let name := e.variableName "pc"
    let type := b.varyingType e
    let handed : InterfaceVariable :=
      { qualifiers := ["patch", if isHull then "out" else "in"], type := b.vec4 type, name }
    { copy (.vector (.var (.varying name)) type) with vars := [handed] }

-- Joins what entries contribute, counting the clip distances before each.
def entries (one : Nat → SignatureEntry → Except LiftError Interface) :
    (clip : Nat) → Signature → Except LiftError Interface
  | _, [] => return {}
  | clip, e :: es =>
    if e.isSkipped then entries one clip es
    else do
      let part ← one clip e
      let rest ← entries one (clip + e.clipCount) es
      return part ++ rest

end Border

def Program.fileSizes (o : Options) (p : Program) (inputs outputs patch : Signature) :
    Except LiftError FileSizes := do
  let info := p.stageInfo
  let inputRegisters ← p.extent o inputs [.input, .inputControlPoint]
  let outputRegisters ← p.extent o outputs [.output, .outputControlPoint]
  let patchRegisters ←
    match p.stage with
    | .hull => p.extent o patch [.output, .inputPatchConstant]
    | .domain => p.extent o patch [.inputPatchConstant]
    | _ => pure 0
  let isPatch := p.stage = .hull ∨ p.stage = .domain
  return {
    inputs := inputRegisters
    outputs := outputRegisters
    patch := patchRegisters
    inputVertices :=
      if p.stage = .geometry then (info.gsInputPrimitive.map InputPrimitive.vertexCount).getD 1
      else if isPatch then max (info.inputControlPoints.getD 1) 1
      else 0
    outputVertices := if isPatch then max (info.outputControlPoints.getD 1) 1 else 0 }

namespace Interface

def build (d : Dialect) (o : Options) (p : Program) (phases : Option Phases) :
    Except LiftError (Interface × FileSizes) := do
  let inputs ← p.signature phases .input
  let outputs ← p.signature phases .output
  let patch ← p.signature phases .patch
  let sizes ← p.fileSizes o inputs outputs patch
  let border : Border := { dialect := d, options := o, stage := p.stage, sizes }
  let read ← Border.entries border.input 0 inputs
  let written ← Border.entries border.output 0 outputs
  o.requireWords (patch.flatMap Border.levelNumbers)
  let patches := patch.foldl (fun i e => i ++ border.patch e) ({} : Interface)
  return (read ++ written ++ patches, sizes)

end Interface

-- The arrays that hold the registers of a stage. Empty ones are left out.
def FileSizes.decls (s : FileSizes) (stage : Stage) : List Decl :=
  let files : List (RegisterFile × UInt32) :=
    match stage with
    | .vertex | .pixel => [(.inputs, s.inputs), (.outputs, s.outputs)]
    | .geometry => [(.inputs, s.inputVertices * s.inputs), (.outputs, s.outputs)]
    | .hull =>
      [(.inputPoints, s.inputVertices * s.inputs), (.outputPoints, s.outputVertices * s.outputs),
        (.outputs, s.outputs), (.patchOutputs, s.patch)]
    | .domain =>
      [(.inputPoints, s.inputVertices * s.inputs), (.patchInputs, s.patch), (.outputs, s.outputs)]
    | .compute => []
  (files.filter (·.2 > 0)).map fun (file, length) => .file file length

def FileSizes.numbers (s : FileSizes) : Stage → List Nat
  | .geometry | .domain => [s.inputVertices.toNat * s.inputs.toNat]
  | .hull =>
    [s.inputVertices.toNat * s.inputs.toNat, s.outputVertices.toNat * s.outputs.toNat]
  | .vertex | .pixel | .compute => []

end ShaderLift
