import ShaderLift.Proofs.Bounds.Interface
import ShaderLift.Proofs.Lift.Transfer
import ShaderLift.Proofs.Lift.Varyings

/-!
Two stages that follow each other meet in the variables that the first one writes and the second one
reads. For both of them the copies between registers and variables are those that can be told from
the entries of the signature that they share, so what one stores is what the other loads.
-/

namespace ShaderLift

open Glsl Std.Do

set_option mvcgen.warning false

-- What a stage hands to the next one through.
inductive Handed where
  | variable (name : String)
  | tessLevel (inside : Bool) (index : Nat)

def Handed.ofFactor (sv : SystemValue) (index : UInt32) : Handed :=
  match sv with
  | .finalLineDetailTessFactor => .tessLevel false 1
  | .finalLineDensityTessFactor => .tessLevel false 0
  | sv => .tessLevel sv.isInsideTessFactor index.toNat

-- Two consecutive stages, or the part of a hull and a domain shader that belongs to the patch.
inductive Seam where
  | vertexPixel
  | domainPixel
  | geometryPixel
  | vertexGeometry
  | domainGeometry
  | vertexHull
  | hullDomain
  | patch

namespace Seam

def producer : Seam → Stage
  | vertexPixel | vertexGeometry | vertexHull => .vertex
  | domainPixel | domainGeometry => .domain
  | geometryPixel => .geometry
  | hullDomain | patch => .hull

def consumer : Seam → Stage
  | vertexPixel | domainPixel | geometryPixel => .pixel
  | vertexGeometry | domainGeometry => .geometry
  | vertexHull => .hull
  | hullDomain | patch => .domain

-- The signatures of the two stages that describe what is handed on.
def outputs : Seam → SignatureClass
  | patch => .patch
  | _ => .output

def inputs : Seam → SignatureClass
  | patch => .patch
  | _ => .input

def letters : Seam → String
  | geometryPixel => "g"
  | hullDomain => "tc"
  | patch => "pc"
  | _ => "v"

-- The register that a stage copies out, and the one that the next stage copies it into. There is
-- one for each vertex where a stage reads several.
def written (seam : Seam) (register : UInt32) : Expr :=
  match seam with
  | patch => fileRegister .patchOutputs register
  | _ => fileRegister .outputs register

def read (seam : Seam) (stride register : UInt32) : Expr :=
  match seam with
  | vertexPixel | domainPixel | geometryPixel => fileRegister .inputs register
  | vertexGeometry | domainGeometry => vertexRegister .inputs stride register
  | vertexHull | hullDomain => vertexRegister .inputPoints stride register
  | patch => fileRegister .patchInputs register

def tessLevel (inside : Bool) (index : Nat) : Expr :=
  .index (.builtin (if inside then "TessLevelInner" else "TessLevelOuter")) (.int index)

-- How the two stages write what is handed on.
def outlet (seam : Seam) : Handed → Expr
  | .variable name =>
    match seam with
    | hullDomain => .index (.var (.varying name)) (.builtin "InvocationID")
    | _ => .var (.varying name)
  | .tessLevel inside index => tessLevel inside index

def inlet (seam : Seam) : Handed → Expr
  | .variable name =>
    match seam with
    | vertexGeometry | domainGeometry | vertexHull | hullDomain =>
      .index (.var (.varying name)) (.var .loopIndex)
    | _ => .var (.varying name)
  | .tessLevel inside index => tessLevel inside index

-- The lines by which a stage hands on its registers.
def stores (seam : Seam) (i : Interface) : List Line :=
  match seam with
  | patch => i.patchStore
  | _ => i.store

-- Entries without a system value, and at the border of a patch also tessellation factors.
def Admits (seam : Seam) (e : SignatureEntry) : Prop :=
  e.systemValue = .undefined ∨ seam = patch ∧ e.IsTessFactor

end Seam

-- A component of a register, and the lane of what is handed on that goes with it.
structure Link where
  register  : UInt32
  component : Nat
  handed    : Handed
  lane      : Nat

namespace Link

def stored (seam : Seam) (link : Link) : Transfer :=
  ⟨⟨seam.outlet link.handed, link.lane⟩, ⟨seam.written link.register, link.component⟩⟩

def loaded (seam : Seam) (stride : UInt32) (link : Link) : Transfer :=
  ⟨⟨seam.read stride link.register, link.component⟩, ⟨seam.inlet link.handed, link.lane⟩⟩

end Link

-- The type of the variable of an entry.
def SignatureEntry.handedType (d : Dialect) (e : SignatureEntry) : ValueType :=
  if d.has .inOutKeywords then (ValueType.ofComponentType e.componentType).lower d else .float

namespace Seam

variable {d : Dialect} {e : SignatureEntry} {seam : Seam}

def links (seam : Seam) (d : Dialect) (e : SignatureEntry) : List Link :=
  if e.systemValue.isEdgeTessFactor || e.systemValue.isInsideTessFactor then
    e.mask.components.zipWith
      (fun c i => ⟨e.register, c, .ofFactor e.systemValue (e.semanticIndex + .ofNat i), 0⟩)
      (List.range e.mask.count)
  else
    let components :=
      if Narrows d (e.handedType d) e.mask.count then (maskLanes e.mask).take 1
      else maskLanes e.mask
    components.map fun c => ⟨e.register, c, .variable (e.variableName seam.letters), c⟩

-- The name and the type of the variable that both stages declare.
def declared (seam : Seam) (d : Dialect) (e : SignatureEntry) : List (String × String) :=
  if e.systemValue.isEdgeTessFactor || e.systemValue.isInsideTessFactor then []
  else [(e.variableName seam.letters, (e.handedType d).vecName d 4)]

theorem stores_append {i j : Interface} :
    seam.stores (i ++ j) = seam.stores i ++ seam.stores j := by
  cases seam <;> rfl

theorem lanes_written {r : UInt32} : (seam.written r).lanes = wholeLanes (seam.written r) := by
  cases seam <;> rfl

theorem lanes_read {stride r : UInt32} :
    (seam.read stride r).lanes = wholeLanes (seam.read stride r) := by
  cases seam <;> rfl

theorem lanes_outlet {handed : Handed} :
    (seam.outlet handed).lanes = wholeLanes (seam.outlet handed) := by
  cases handed <;> cases seam <;> rfl

theorem lanes_inlet {handed : Handed} :
    (seam.inlet handed).lanes = wholeLanes (seam.inlet handed) := by
  cases handed <;> cases seam <;> rfl

-- What an entry hands on, in the words of one of the stages.
def terminal (seam : Seam) (d : Dialect) (place : Handed → Expr) (e : SignatureEntry) : Terminal :=
  if e.systemValue.isEdgeTessFactor || e.systemValue.isInsideTessFactor then
    .lanes ((List.range e.mask.count).map fun i =>
      place (.ofFactor e.systemValue (e.semanticIndex + .ofNat i)))
  else .vector (place (.variable (e.variableName seam.letters))) (e.handedType d)

theorem links_terminal {place : Handed → Expr} :
    (seam.terminal d place e).links d e.mask =
      (seam.links d e).map fun link => (link.component, ⟨place link.handed, link.lane⟩) := by
  unfold terminal links
  split
  case isTrue => simp [Terminal.links, List.zipWith_map_right, List.map_zipWith]
  case isFalse => simp [Terminal.links]

theorem isWhole_terminal {place : Handed → Expr}
    (h : ∀ handed, (place handed).lanes = wholeLanes (place handed)) :
    (seam.terminal d place e).IsWhole := by
  unfold terminal
  split
  case isTrue => simp [Terminal.IsWhole, h]
  case isFalse => exact h _

theorem register_of_mem_links {link : Link} (h : link ∈ seam.links d e) :
    link.register = e.register := by
  unfold links at h
  split at h
  case isTrue =>
    rw [← List.map_uncurry_zip_eq_zipWith] at h
    have ⟨_, _, h⟩ := List.mem_map.mp h
    exact h ▸ rfl
  case isFalse =>
    have ⟨_, _, h⟩ := List.mem_map.mp h
    exact h ▸ rfl

theorem transfers_store (seam : Seam) :
    ((seam.terminal d seam.outlet e).store d (seam.written e.register) e.mask).flatMap
      Stmt.transfers = (seam.links d e).map (Link.stored seam) := by
  rw [Terminal.transfers_store lanes_written (isWhole_terminal fun _ => lanes_outlet),
    links_terminal, List.map_map]
  exact List.map_congr_left fun link h => by simp [Link.stored, register_of_mem_links h]

theorem transfers_load (seam : Seam) (stride : UInt32) :
    ((seam.terminal d seam.inlet e).load d (seam.read stride e.register) e.mask).flatMap
      Stmt.transfers = (seam.links d e).map (Link.loaded seam stride) := by
  rw [Terminal.transfers_load lanes_read (isWhole_terminal fun _ => lanes_inlet),
    links_terminal, List.map_map]
  exact List.map_congr_left fun link h => by simp [Link.loaded, register_of_mem_links h]

end Seam

-- The names and types of the variables that an interface declares.
def Interface.declared (i : Interface) : List (String × String) :=
  i.vars.map fun v => (v.name, v.type)

namespace Border

variable {b : Border} {e : SignatureEntry} {clip : Nat} {part : Interface} {seam : Seam}

-- The part of a stage that writes or reads what entries hand on.
structure Produces (seam : Seam) (d : Dialect) (es : Signature) (i : Interface) : Prop where
  stores   : transfers (seam.stores i) = (es.flatMap (seam.links d)).map (Link.stored seam)
  declared : i.declared = es.flatMap (seam.declared d)

structure Consumes (seam : Seam) (d : Dialect) (stride : UInt32) (es : Signature) (i : Interface) :
    Prop where
  loads    : transfers i.load = (es.flatMap (seam.links d)).map (Link.loaded seam stride)
  declared : i.declared = es.flatMap (seam.declared d)

theorem terminal_of_undefined {d : Dialect} {place : Handed → Expr}
    (he : e.systemValue = .undefined) :
    seam.terminal d place e =
      .vector (place (.variable (e.variableName seam.letters))) (e.handedType d) := by
  simp [Seam.terminal, he, SystemValue.isEdgeTessFactor, SystemValue.isInsideTessFactor]

theorem declared_of_undefined {d : Dialect} (he : e.systemValue = .undefined) :
    seam.declared d e = [(e.variableName seam.letters, (e.handedType d).vecName d 4)] := by
  simp [Seam.declared, he, SystemValue.isEdgeTessFactor, SystemValue.isInsideTessFactor]

theorem produces_of_store (he : e.systemValue = .undefined)
    (hstore : transfers (seam.stores part) =
      ((Terminal.vector (seam.outlet (.variable (e.variableName seam.letters)))
        (b.varyingType e)).store b.dialect (seam.written e.register) e.mask).flatMap Stmt.transfers)
    (hvars : part.declared = [(e.variableName seam.letters, b.vec4 (b.varyingType e))]) :
    Produces seam b.dialect [e] part where
  stores := by
    rw [List.flatMap_singleton, ← Seam.transfers_store, terminal_of_undefined he]
    exact hstore
  declared := by
    rw [List.flatMap_singleton, declared_of_undefined he]
    exact hvars

theorem consumes_of_load {stride : UInt32} (he : e.systemValue = .undefined)
    (hload : transfers part.load =
      ((Terminal.vector (seam.inlet (.variable (e.variableName seam.letters)))
        (b.varyingType e)).load b.dialect (seam.read stride e.register) e.mask).flatMap
          Stmt.transfers)
    (hvars : part.declared = [(e.variableName seam.letters, b.vec4 (b.varyingType e))]) :
    Consumes seam b.dialect stride [e] part where
  loads := by
    rw [List.flatMap_singleton, ← Seam.transfers_load, terminal_of_undefined he]
    exact hload
  declared := by
    rw [List.flatMap_singleton, declared_of_undefined he]
    exact hvars

theorem produces_hullOutput (he : e.systemValue = .undefined) (h : b.hullOutput e = .ok part) :
    Produces .hullDomain b.dialect [e] part := by
  simp only [hullOutput, he] at h
  cases h
  exact produces_of_store he transfers_lines rfl

theorem produces_vertexOutput (hs : b.stage = seam.producer) (ho : b.options.hasPixel)
    (hseam : seam.producer = .vertex ∨ seam.producer = .domain ∨ seam.producer = .geometry)
    (he : e.systemValue = .undefined) (h : b.vertexOutput clip e = .ok part) :
    Produces seam b.dialect [e] part := by
  have hdrops : b.dropsVaryings = false := by simp [dropsVaryings, ho]
  simp only [vertexOutput, he, hdrops, Bool.false_eq_true, if_false] at h
  cases seam <;> simp only [Seam.producer, reduceCtorEq, or_self] at hs hseam <;>
    simp only [hs, reduceCtorEq, false_and, true_and, if_false, if_true] at h
  case geometryPixel =>
    split at h
    case isTrue =>
      obtain ⟨_, _, h⟩ := bind_eq_ok_iff.mp h
      cases h
      exact produces_of_store he transfers_lines rfl
    case isFalse =>
      cases h
      exact produces_of_store he transfers_lines rfl
  all_goals
    cases h
    exact produces_of_store he transfers_lines rfl

theorem consumes_pixelInput (ho : b.options.hasGeometry = (seam.producer == .geometry))
    (hseam : seam.consumer = .pixel) (he : e.systemValue = .undefined)
    (h : b.pixelInput clip e = .ok part) : Consumes seam b.dialect b.sizes.inputs [e] part := by
  simp only [pixelInput, he] at h
  obtain ⟨_, _, h⟩ := bind_eq_ok_iff.mp h
  cases h
  cases seam <;> cases hseam
  all_goals
    simp only [ho]
    exact consumes_of_load he transfers_lines rfl

theorem consumes_arrayInput (hs : b.stage = seam.consumer)
    (hseam : seam = .vertexGeometry ∨ seam = .domainGeometry ∨ seam = .vertexHull ∨
      seam = .hullDomain)
    (he : e.systemValue = .undefined) (h : b.arrayInput clip e = .ok part) :
    Consumes seam b.dialect b.sizes.inputs [e] part := by
  simp only [arrayInput, he] at h
  rcases hseam with rfl | rfl | rfl | rfl <;> simp only [hs] at h <;> cases h <;>
    exact consumes_of_load he transfers_block rfl

theorem tessLevel_eq_outlet {sv : SystemValue} {index : UInt32} :
    tessLevel sv index = Seam.patch.outlet (.ofFactor sv index) := by
  cases sv <;> rfl

theorem tessLevel_eq_inlet {sv : SystemValue} {index : UInt32} :
    tessLevel sv index = Seam.patch.inlet (.ofFactor sv index) := by
  cases sv <;> rfl

theorem not_isSkipped (he : e.systemValue = .undefined) (hr : e.register ≠ noRegister) :
    ¬e.isSkipped := by
  simp [SignatureEntry.isSkipped, he, hr]

theorem produces_patch (hs : b.stage = .hull) (he : Seam.patch.Admits e)
    (hr : e.register ≠ noRegister) : Produces .patch b.dialect [e] (b.patch e) := by
  by_cases hfactor : e.systemValue.isEdgeTessFactor || e.systemValue.isInsideTessFactor
  case pos =>
    have hlevels := Seam.patch.transfers_store (d := b.dialect) (e := e)
    simp only [Seam.terminal, if_pos hfactor, ← tessLevel_eq_outlet] at hlevels
    simp only [patch, if_pos hfactor, if_pos hs]
    constructor
    case stores => rw [List.flatMap_singleton, ← hlevels]; exact transfers_lines
    case declared => rw [List.flatMap_singleton]; exact (if_pos hfactor).symm
  case neg =>
    have he : e.systemValue = .undefined := he.resolve_right fun h => hfactor h.2
    simp only [patch, if_neg hfactor, if_neg (not_isSkipped he hr), if_pos hs]
    exact produces_of_store he transfers_lines rfl

theorem consumes_patch (hs : b.stage = .domain) (he : Seam.patch.Admits e)
    (hr : e.register ≠ noRegister) : Consumes .patch b.dialect b.sizes.inputs [e] (b.patch e) := by
  have hs : b.stage ≠ .hull := by simp [hs]
  by_cases hfactor : e.systemValue.isEdgeTessFactor || e.systemValue.isInsideTessFactor
  case pos =>
    have hlevels := Seam.patch.transfers_load b.sizes.inputs (d := b.dialect) (e := e)
    simp only [Seam.terminal, if_pos hfactor, ← tessLevel_eq_inlet] at hlevels
    simp only [patch, if_pos hfactor, if_neg hs]
    constructor
    case loads => rw [List.flatMap_singleton, ← hlevels]; exact transfers_lines
    case declared => rw [List.flatMap_singleton]; exact (if_pos hfactor).symm
  case neg =>
    have he : e.systemValue = .undefined := he.resolve_right fun h => hfactor h.2
    simp only [patch, if_neg hfactor, if_neg (not_isSkipped he hr), if_neg hs]
    exact consumes_of_load he transfers_lines rfl

end Border

-- What can be said of entries and of the parts that they make, and of the parts joined.
structure Additive (P : Signature → Interface → Prop) : Prop where
  nil    : P [] {}
  append : ∀ {es es' i i'}, P es i → P es' i' → P (es ++ es') (i ++ i')

namespace Additive

variable {P : Signature → Interface → Prop} {es : Signature} {clip : Nat} {i : Interface}

theorem of_nil {α : Type} {field : Interface → List α} (hnil : field {} = [])
    (happend : ∀ i j, field (i ++ j) = field i ++ field j) : Additive fun _ i => field i = [] where
  nil := hnil
  append {_ _ i i'} hi hi' := by rw [happend, hi, hi', List.append_nil]

theorem entries (hP : Additive P) {one : Nat → SignatureEntry → Except LiftError Interface}
    (hskip : ∀ e ∈ es, e.isSkipped → P [e] {})
    (hone : ∀ clip part, ∀ e ∈ es, one clip e = .ok part → P [e] part)
    (h : Border.entries one clip es = .ok i) : P es i := by
  induction es generalizing clip i
  case nil => cases h; exact hP.nil
  case cons e es hi =>
    have hi {clip : Nat} {i : Interface} (h : Border.entries one clip es = .ok i) : P es i :=
      hi (fun e he => hskip e (List.mem_cons_of_mem _ he))
        (fun clip part e he => hone clip part e (List.mem_cons_of_mem _ he)) h
    unfold Border.entries at h
    split at h
    case isTrue he =>
      exact hP.append (hskip e List.mem_cons_self he) (hi h)
    case isFalse =>
      obtain ⟨part, hpart, h⟩ := bind_eq_ok_iff.mp h
      obtain ⟨rest, hrest, h⟩ := bind_eq_ok_iff.mp h
      cases h
      exact hP.append (hone clip part e List.mem_cons_self hpart) (hi hrest)

theorem patches (hP : Additive P) {b : Border} (hone : ∀ e ∈ es, P [e] (b.patch e)) :
    P es (es.foldl (fun i e => i ++ b.patch e) {}) := by
  -- The induction takes entries from the end, where the fold adds them.
  induction es using List.reverseRecOn
  case nil => exact hP.nil
  case append_singleton es e hi =>
    rw [List.foldl_append]
    exact hP.append (hi fun e he => hone e (List.mem_append_left _ he)) (hone e (by simp))

end Additive

namespace Border

variable {d : Dialect} {seam : Seam} {stride : UInt32}

theorem additive_produces : Additive (Produces seam d) where
  nil := ⟨by cases seam <;> rfl, rfl⟩
  append {es es' i i'} hi hi' := by
    constructor
    case stores => simp [Seam.stores_append, hi.stores, hi'.stores]
    case declared =>
      rw [List.flatMap_append, ← hi.declared, ← hi'.declared]
      exact List.map_append

theorem additive_consumes : Additive (Consumes seam d stride) where
  nil := ⟨rfl, rfl⟩
  append {es es' i i'} hi hi' := by
    have hload : (i ++ i').load = i.load ++ i'.load := rfl
    constructor
    case loads => simp [hload, hi.loads, hi'.loads]
    case declared =>
      rw [List.flatMap_append, ← hi.declared, ← hi'.declared]
      exact List.map_append

end Border

-- The file of a register.
def Glsl.Expr.file? : Expr → Option RegisterFile
  | .index (.var (.file f)) _ => some f
  | _ => none

-- The copies into registers of a file, of those at the start of a shader.
def Interface.loadsInto (f : RegisterFile) (i : Interface) : List Transfer :=
  (transfers i.load).filter (·.target.value.file? = some f)

theorem Interface.loadsInto_append {f : RegisterFile} {i j : Interface} :
    (i ++ j).loadsInto f = i.loadsInto f ++ j.loadsInto f := by
  have hload : (i ++ j).load = i.load ++ j.load := rfl
  simp [loadsInto, hload]

namespace Border

variable {b : Border} {e : SignatureEntry} {clip : Nat} {f : RegisterFile}

theorem loadsInto_other {register : Expr} {t : Terminal} {d : Dialect} {mask : WriteMask}
    (hr : register.lanes = wholeLanes register) (hf : register.file? ≠ some f) :
    ((t.load d register mask).flatMap Stmt.transfers).filter (·.target.value.file? = some f) =
      [] := by
  refine List.filter_eq_nil_iff.mpr fun transfer htransfer => ?_
  rw [Terminal.target_of_mem_load hr htransfer]
  simpa using hf

theorem stores_input : ⦃⌜True⌝⦄ b.input clip e ⦃⇓? i => ⌜i.store = [] ∧ i.patchStore = []⌝⦄ := by
  unfold input vertexInput pixelInput arrayInput
  mvcgen

theorem loads_output : ⦃⌜True⌝⦄ b.output clip e ⦃⇓? i => ⌜i.load = [] ∧ i.patchStore = []⌝⦄ := by
  unfold output hullOutput vertexOutput
  mvcgen
  simp only [pixelOutput]
  split <;> exact ⟨rfl, rfl⟩

theorem stores_patch : (b.patch e).store = [] := by
  simp only [patch]
  split_ifs <;> rfl

-- A domain shader reads what belongs to the patch into registers of its own.
theorem loadsInto_input (hs : b.stage = .domain) :
    ⦃⌜True⌝⦄ b.input clip e ⦃⇓? i => ⌜i.loadsInto .patchInputs = []⌝⦄ := by
  simp only [input, hs, arrayInput]
  have hloop {t : Terminal} : ((t.load b.dialect
      (vertexRegister .inputPoints b.sizes.inputs e.register) e.mask).flatMap
        Stmt.transfers).filter (·.target.value.file? = some .patchInputs) = [] :=
    loadsInto_other rfl (by simp [vertexRegister, Expr.file?])
  mvcgen with simp_all +zetaDelta [Interface.loadsInto]
  all_goals exact hloop

theorem loadsInto_patch (hf : f ≠ .patchInputs) : (b.patch e).loadsInto f = [] := by
  have hfile {t : Terminal} : ((t.load b.dialect (fileRegister .patchInputs e.register)
      e.mask).flatMap Stmt.transfers).filter (·.target.value.file? = some f) = [] :=
    loadsInto_other rfl (by simpa [fileRegister, Expr.file?] using hf.symm)
  simp only [patch, Interface.loadsInto]
  split_ifs <;> simp [hfile]

end Border

namespace Seam

variable {seam : Seam}

-- The file that the consumer reads.
def file : Seam → RegisterFile
  | vertexPixel | domainPixel | geometryPixel | vertexGeometry | domainGeometry => .inputs
  | vertexHull | hullDomain => .inputPoints
  | patch => .patchInputs

theorem file_read {stride r : UInt32} : (seam.read stride r).file? = some seam.file := by
  cases seam <;> rfl

end Seam

namespace Border

variable {b : Border} {kind : SignatureClass} {es : Signature} {i : Interface} {seam : Seam}

-- What the entries of one class contribute.
def Makes (b : Border) (kind : SignatureClass) (es : Signature) (i : Interface) : Prop :=
  match kind with
  | .input => entries b.input 0 es = .ok i
  | .output => entries b.output 0 es = .ok i
  | .patch => es.foldl (fun i e => i ++ b.patch e) {} = i

theorem names_of_makes (h : b.Makes kind es i) : Names i (es.filterMap (b.name? kind)) := by
  cases kind
  case input => exact names_inputs h
  case output => exact names_outputs h
  case patch => cases h; exact names_patches

theorem produces_of_makes (hs : b.stage = seam.producer) (ho : b.options.hasPixel)
    (hes : ∀ e ∈ es, e.register ≠ noRegister ∧ seam.Admits e) (h : b.Makes seam.outputs es i) :
    Produces seam b.dialect es i := by
  by_cases hseam : seam = .patch
  case pos =>
    cases hseam
    cases h
    exact additive_produces.patches fun e he => produces_patch hs (hes e he).2 (hes e he).1
  case neg =>
    have hentry (e) (he : e ∈ es) : e.systemValue = .undefined :=
      (hes e he).2.resolve_right fun h => hseam h.1
    have h : entries b.output 0 es = .ok i := by cases seam <;> first | exact h | contradiction
    refine additive_produces.entries (fun e he hskip => ?_) (fun clip part e he hpart => ?_) h
    case refine_1 => exact absurd hskip (not_isSkipped (hentry e he) (hes e he).1)
    case refine_2 =>
      unfold output at hpart
      rw [hs] at hpart
      cases seam
      case patch => contradiction
      case hullDomain => exact produces_hullOutput (hentry e he) hpart
      all_goals exact produces_vertexOutput hs ho (by simp [Seam.producer]) (hentry e he) hpart

theorem consumes_of_makes (hs : b.stage = seam.consumer)
    (ho : b.stage = .pixel → b.options.hasGeometry = (seam.producer == .geometry))
    (hes : ∀ e ∈ es, e.register ≠ noRegister ∧ seam.Admits e) (h : b.Makes seam.inputs es i) :
    Consumes seam b.dialect b.sizes.inputs es i := by
  by_cases hseam : seam = .patch
  case pos =>
    cases hseam
    cases h
    exact additive_consumes.patches fun e he => consumes_patch hs (hes e he).2 (hes e he).1
  case neg =>
    have hentry (e) (he : e ∈ es) : e.systemValue = .undefined :=
      (hes e he).2.resolve_right fun h => hseam h.1
    have h : entries b.input 0 es = .ok i := by cases seam <;> first | exact h | contradiction
    refine additive_consumes.entries (fun e he hskip => ?_) (fun clip part e he hpart => ?_) h
    case refine_1 => exact absurd hskip (not_isSkipped (hentry e he) (hes e he).1)
    case refine_2 =>
      unfold input at hpart
      rw [hs] at hpart
      cases seam
      case patch => contradiction
      case vertexPixel | domainPixel | geometryPixel =>
        exact consumes_pixelInput (ho hs) rfl (hentry e he) hpart
      all_goals exact consumes_arrayInput hs (by simp) (hentry e he) hpart

-- Entries of other classes take no part.
theorem stores_of_makes (hkind : kind ≠ seam.outputs) (h : b.Makes kind es i) :
    seam.stores i = [] := by
  have hnil : seam.stores {} = [] := by cases seam <;> rfl
  have hadd : Additive fun _ i => seam.stores i = [] := .of_nil hnil fun _ _ => Seam.stores_append
  cases kind
  case input =>
    refine hadd.entries (fun _ _ _ => hnil) (fun clip part e _ hpart => ?_) h
    have ⟨hstore, hpatch⟩ := returns_iff.mp stores_input part hpart
    cases seam <;> first | exact hstore | exact hpatch
  case output =>
    refine hadd.entries (fun _ _ _ => hnil) (fun clip part e _ hpart => ?_) h
    have ⟨_, hpatch⟩ := returns_iff.mp loads_output part hpart
    cases seam <;> first | exact hpatch | contradiction
  case patch =>
    cases h
    refine hadd.patches fun e _ => ?_
    cases seam <;> first | exact stores_patch | contradiction

theorem loadsInto_of_makes (hs : b.stage = seam.consumer) (hkind : kind ≠ seam.inputs)
    (h : b.Makes kind es i) : i.loadsInto seam.file = [] := by
  have hadd : Additive fun _ i => i.loadsInto seam.file = [] :=
    .of_nil rfl fun _ _ => Interface.loadsInto_append
  cases kind
  case input =>
    refine hadd.entries (fun _ _ _ => rfl) (fun clip part e _ hpart => ?_) h
    cases seam <;> first | exact returns_iff.mp (loadsInto_input hs) part hpart | contradiction
  case output =>
    refine hadd.entries (fun _ _ _ => rfl) (fun clip part e _ hpart => ?_) h
    have ⟨hload, _⟩ := returns_iff.mp loads_output part hpart
    rw [Interface.loadsInto, hload]
    rfl
  case patch =>
    cases h
    refine hadd.patches fun e _ => loadsInto_patch ?_
    cases seam <;> first | decide | contradiction

end Border

namespace Interface

variable {d : Dialect} {o : Options} {p : Program} {phases : Option Phases}
variable {i : Interface} {sizes : FileSizes}

theorem exists_parts (h : build d o p phases = .ok (i, sizes)) :
    ∃ (sig : SignatureClass → Signature) (part : SignatureClass → Interface),
      (∀ kind, p.signature phases kind = .ok (sig kind)) ∧
      (∀ kind, ({ dialect := d, options := o, stage := p.stage, sizes } : Border).Makes kind
        (sig kind) (part kind)) ∧
      i = part .input ++ part .output ++ part .patch := by
  unfold build at h
  obtain ⟨inputs, hinputs, h⟩ := bind_eq_ok_iff.mp h
  obtain ⟨outputs, houtputs, h⟩ := bind_eq_ok_iff.mp h
  obtain ⟨patch, hpatch, h⟩ := bind_eq_ok_iff.mp h
  obtain ⟨_, _, h⟩ := bind_eq_ok_iff.mp h
  obtain ⟨ins, hins, h⟩ := bind_eq_ok_iff.mp h
  obtain ⟨outs, houts, h⟩ := bind_eq_ok_iff.mp h
  obtain ⟨_, _, h⟩ := bind_eq_ok_iff.mp h
  cases h
  refine ⟨fun | .input => inputs | .output => outputs | .patch => patch,
    fun | .input => ins | .output => outs | .patch => _, ?_, ?_, rfl⟩
  case refine_1 => rintro (_ | _ | _) <;> assumption
  case refine_2 => rintro (_ | _ | _) <;> first | assumption | rfl

theorem field_of_parts {α : Type} (field : Interface → List α)
    {part : SignatureClass → Interface} {kind : SignatureClass}
    (happend : ∀ i j, field (i ++ j) = field i ++ field j)
    (hother : ∀ other, other ≠ kind → field (part other) = []) :
    field (part .input ++ part .output ++ part .patch) = field (part kind) := by
  rw [happend, happend]
  cases kind <;> simp [hother]

-- The types of the variables of one name.
def typesOf (i : Interface) (name : String) : List String :=
  (i.declared.filter (·.1 = name)).map (·.2)

theorem typesOf_append {j : Interface} {name : String} :
    (i ++ j).typesOf name = i.typesOf name ++ j.typesOf name := by
  have hdeclared : (i ++ j).declared = i.declared ++ j.declared := List.map_append
  simp [typesOf, hdeclared]

theorem typesOf_eq_nil {names : List String} {name : String} (h : Border.Names i names)
    (hname : name ∉ names) : i.typesOf name = [] := by
  rw [typesOf, List.map_eq_nil_iff, List.filter_eq_nil_iff]
  intro pair hpair heq
  have ⟨v, hv, hpair⟩ := List.mem_map.mp hpair
  have hmem : v.name ∈ names := h ▸ List.mem_map_of_mem hv
  simp only [← hpair, decide_eq_true_eq] at heq
  exact hname (heq ▸ hmem)

-- A component of a register is copied to a lane of what the stage hands on.
def Stores (seam : Seam) (i : Interface) (r : UInt32) (c : Nat) (handed : Handed) (lane : Nat) :
    Prop :=
  ⟨⟨seam.outlet handed, lane⟩, ⟨seam.written r, c⟩⟩ ∈ transfers (seam.stores i)

-- A component of a register is copied from a lane of what the stage before has handed on.
def Loads (seam : Seam) (stride : UInt32) (i : Interface) (r : UInt32) (c : Nat) (handed : Handed)
    (lane : Nat) : Prop :=
  ⟨⟨seam.read stride r, c⟩, ⟨seam.inlet handed, lane⟩⟩ ∈ transfers i.load

-- One stage writes what the next one reads: the same lanes, and no others.
structure Meets (seam : Seam) (d : Dialect) (i : Interface) (stride : UInt32) (j : Interface) :
    Prop where
  stores_iff : ∀ r c handed lane,
    i.Stores seam r c handed lane ↔ j.Loads seam stride r c handed lane
  stores     : ∀ t ∈ transfers (seam.stores i), ∃ link, t = Link.stored seam link
  loads      : ∀ t ∈ transfers j.load, t.target.value.file? = some seam.file →
    ∃ link, t = Link.loaded seam stride link
  declared   : ∀ r c name lane, i.Stores seam r c (.variable name) lane →
    i.typesOf name ≠ [] ∧ i.typesOf name = j.typesOf name ∧
      ∀ type ∈ i.typesOf name, ∃ t : ValueType, type = t.vecName d 4

end Interface

-- What an entry says apart from how pixel shaders read between vertices.
def SignatureEntry.bare (e : SignatureEntry) : SignatureEntry :=
  { e with interpolation := none }

namespace Seam

variable {d : Dialect} {seam : Seam} {stride : UInt32} {sig sig' : Signature}

theorem number_inj {m n : UInt32} (h : Expr.number m = .number n) : m = n :=
  UInt32.toNat_inj.mp (by simpa [Expr.number, Expr.int] using h)

theorem written_inj {r r' : UInt32} (h : seam.written r = seam.written r') : r = r' := by
  cases seam <;> exact number_inj (Expr.index.inj h).2

theorem read_inj {r r' : UInt32} (h : seam.read stride r = seam.read stride r') : r = r' := by
  cases seam
  case vertexPixel | domainPixel | geometryPixel | patch => exact number_inj (Expr.index.inj h).2
  all_goals exact number_inj (Expr.binary.inj (Expr.index.inj h).2).2.2

theorem tessLevel_inj {inside inside' : Bool} {index index' : Nat}
    (h : tessLevel inside index = tessLevel inside' index') :
    Handed.tessLevel inside index = .tessLevel inside' index' := by
  cases inside <;> cases inside' <;> simp_all [tessLevel, Expr.builtin, Expr.int]

theorem outlet_inj {handed handed' : Handed} (h : seam.outlet handed = seam.outlet handed') :
    handed = handed' := by
  cases handed <;> cases handed'
  case tessLevel.tessLevel => exact tessLevel_inj h
  all_goals cases seam <;> simp_all [outlet, tessLevel, Expr.builtin]

theorem inlet_inj {handed handed' : Handed} (h : seam.inlet handed = seam.inlet handed') :
    handed = handed' := by
  cases handed <;> cases handed'
  case tessLevel.tessLevel => exact tessLevel_inj h
  all_goals cases seam <;> simp_all [inlet, tessLevel, Expr.builtin]

theorem stored_inj : Function.Injective (Link.stored seam) := by
  rintro ⟨r, c, handed, lane⟩ ⟨r', c', handed', lane'⟩ h
  simp only [Link.stored, Transfer.mk.injEq, Lane.mk.injEq] at h
  obtain ⟨⟨hhanded, rfl⟩, hr, rfl⟩ := h
  rw [written_inj hr, outlet_inj hhanded]

theorem loaded_inj : Function.Injective (Link.loaded seam stride) := by
  rintro ⟨r, c, handed, lane⟩ ⟨r', c', handed', lane'⟩ h
  simp only [Link.loaded, Transfer.mk.injEq, Lane.mk.injEq] at h
  obtain ⟨⟨hr, rfl⟩, hhanded, rfl⟩ := h
  rw [read_inj hr, inlet_inj hhanded]

-- Neither what is copied nor what is declared depends on interpolation.
theorem flatMap_eq_of_bare {α : Type} {f : SignatureEntry → List α} (hf : ∀ e, f e.bare = f e)
    (h : sig'.map (·.bare) = sig.map (·.bare)) : sig'.flatMap f = sig.flatMap f := by
  have hbare (es : Signature) : (es.map (·.bare)).flatMap f = es.flatMap f := by
    rw [List.flatMap_map]
    exact List.flatMap_congr fun e _ => hf e
  rw [← hbare sig', h, hbare sig]

theorem forall_of_bare {P : SignatureEntry → Prop} (hP : ∀ e, P e.bare ↔ P e)
    (h : sig'.map (·.bare) = sig.map (·.bare)) (hsig : ∀ e ∈ sig, P e) : ∀ e ∈ sig', P e := by
  intro e he
  have hmem : e.bare ∈ sig.map (·.bare) := h ▸ List.mem_map_of_mem he
  have ⟨e', he', hbare⟩ := List.mem_map.mp hmem
  exact (hP e).mp (hbare ▸ (hP e').mpr (hsig e' he'))

-- The names of variables start with the same word in both stages.
theorem word_outputs {hasGeometry : Bool} :
    Border.wordOf seam.producer hasGeometry seam.outputs = stem seam.letters ++ "_" := by
  cases seam <;> cases hasGeometry <;> decide

theorem word_inputs {hasGeometry : Bool}
    (h : seam.consumer = .pixel → hasGeometry = (seam.producer == .geometry)) :
    Border.wordOf seam.consumer hasGeometry seam.inputs = stem seam.letters ++ "_" := by
  cases seam <;> cases hasGeometry <;> first | decide | exact absurd (h rfl) (by decide)

-- The types that a signature gives to variables of one name.
def typesOf (seam : Seam) (d : Dialect) (sig : Signature) (name : String) : List String :=
  ((sig.flatMap (seam.declared d)).filter (·.1 = name)).map (·.2)

theorem mem_typesOf {e : SignatureEntry} (he : e ∈ sig)
    (hfactor : ¬(e.systemValue.isEdgeTessFactor || e.systemValue.isInsideTessFactor)) :
    (e.handedType d).vecName d 4 ∈ seam.typesOf d sig (e.variableName seam.letters) := by
  have hmem : (e.variableName seam.letters, (e.handedType d).vecName d 4) ∈ seam.declared d e := by
    rw [declared, if_neg hfactor]
    exact List.mem_singleton_self _
  have hmem := List.mem_flatMap_of_mem he hmem
  exact List.mem_map_of_mem (f := Prod.snd) (List.mem_filter_of_mem hmem (by simp))

theorem exists_vecName_of_mem_typesOf {name type : String} (h : type ∈ seam.typesOf d sig name) :
    ∃ t : ValueType, type = t.vecName d 4 := by
  have ⟨pair, hpair, htype⟩ := List.mem_map.mp h
  have ⟨e, _, hpair⟩ := List.mem_flatMap.mp (List.mem_filter.mp hpair).1
  unfold declared at hpair
  split at hpair
  case isTrue => cases hpair
  case isFalse =>
    cases List.mem_singleton.mp hpair
    exact ⟨_, htype.symm⟩

theorem variable_of_mem_links {e : SignatureEntry} {r : UInt32} {c lane : Nat} {name : String}
    (h : ⟨r, c, .variable name, lane⟩ ∈ seam.links d e) :
    ¬(e.systemValue.isEdgeTessFactor || e.systemValue.isInsideTessFactor) ∧
      name = e.variableName seam.letters := by
  unfold links at h
  split at h
  case isTrue =>
    rw [← List.map_uncurry_zip_eq_zipWith] at h
    have ⟨(c', index), _, h⟩ := List.mem_map.mp h
    have hhanded :
        Handed.ofFactor e.systemValue (e.semanticIndex + .ofNat index) = .variable name :=
      (Link.mk.inj h).2.2.1
    cases hsv : e.systemValue <;> rw [hsv] at hhanded <;> cases hhanded
  case isFalse hfactor =>
    have ⟨_, _, h⟩ := List.mem_map.mp h
    exact ⟨hfactor, (Handed.variable.inj (Link.mk.inj h).2.2.1).symm⟩

end Seam

namespace Interface

variable {d : Dialect} {o o' : Options} {p q : Program} {phases phases' : Option Phases}
variable {seam : Seam} {sig sig' : Signature} {i j : Interface} {sizes sizes' : FileSizes}

-- Variables of other classes have other names.
theorem typesOf_parts {b : Border} {sigs : SignatureClass → Signature}
    {part : SignatureClass → Interface} {kind : SignatureClass} {e : SignatureEntry}
    (hmakes : ∀ kind, b.Makes kind (sigs kind) (part kind))
    (hword : stem seam.letters ++ "_" = b.word kind)
    (hdeclared : (part kind).declared = (sigs kind).flatMap (seam.declared d)) :
    (part .input ++ part .output ++ part .patch).typesOf (e.variableName seam.letters) =
      seam.typesOf d (sigs kind) (e.variableName seam.letters) := by
  have hother (other) (hne : other ≠ kind) :
      (part other).typesOf (e.variableName seam.letters) = [] := by
    refine typesOf_eq_nil (Border.names_of_makes (hmakes other)) fun hmem => ?_
    exact Border.ne_of_starts hne (Border.starts_of_mem hmem) (Border.starts_variableName hword) rfl
  rw [field_of_parts (·.typesOf _) (fun _ _ => typesOf_append) hother, typesOf, hdeclared]
  rfl

-- What the producer stores and declares can be told from the signature.
theorem stores_of_build (hp : p.stage = seam.producer) (ho : o.hasPixel)
    (hsig : p.signature phases seam.outputs = .ok sig)
    (hes : ∀ e ∈ sig, e.register ≠ noRegister ∧ seam.Admits e)
    (h : build d o p phases = .ok (i, sizes)) :
    transfers (seam.stores i) = (sig.flatMap (seam.links d)).map (Link.stored seam) ∧
      ∀ e : SignatureEntry, i.typesOf (e.variableName seam.letters) =
        seam.typesOf d sig (e.variableName seam.letters) := by
  obtain ⟨sigs, part, hsigs, hmakes, rfl⟩ := exists_parts h
  cases hsig.symm.trans (hsigs seam.outputs)
  have hproduces := Border.produces_of_makes hp ho hes (hmakes seam.outputs)
  constructor
  case left =>
    rw [field_of_parts seam.stores (fun _ _ => Seam.stores_append)
      fun other hother => Border.stores_of_makes hother (hmakes other)]
    exact hproduces.stores
  case right =>
    refine fun e => typesOf_parts hmakes ?_ hproduces.declared
    rw [Border.word, hp, Seam.word_outputs]

-- So can what the consumer loads and declares.
theorem loads_of_build (hq : q.stage = seam.consumer)
    (ho : q.stage = .pixel → o.hasGeometry = (seam.producer == .geometry))
    (hsig : q.signature phases seam.inputs = .ok sig)
    (hes : ∀ e ∈ sig, e.register ≠ noRegister ∧ seam.Admits e)
    (h : build d o q phases = .ok (i, sizes)) :
    i.loadsInto seam.file = (sig.flatMap (seam.links d)).map (Link.loaded seam sizes.inputs) ∧
      ∀ e : SignatureEntry, i.typesOf (e.variableName seam.letters) =
        seam.typesOf d sig (e.variableName seam.letters) := by
  obtain ⟨sigs, part, hsigs, hmakes, rfl⟩ := exists_parts h
  cases hsig.symm.trans (hsigs seam.inputs)
  have hconsumes := Border.consumes_of_makes hq ho hes (hmakes seam.inputs)
  constructor
  case left =>
    rw [field_of_parts (loadsInto seam.file) (fun _ _ => loadsInto_append)
      fun other hother => Border.loadsInto_of_makes hq hother (hmakes other), loadsInto,
      hconsumes.loads, List.filter_eq_self]
    intro transfer htransfer
    have ⟨link, _, htransfer⟩ := List.mem_map.mp htransfer
    exact htransfer ▸ decide_eq_true Seam.file_read
  case right =>
    refine fun e => typesOf_parts hmakes ?_ hconsumes.declared
    rw [Border.word, hq, Seam.word_inputs fun hpixel => ho (hq.trans hpixel)]

-- Consecutive stages agree on what is handed on, for all signatures whose entries have registers
-- and no system values other than the factors of a patch.
theorem meets_of_build (seam : Seam) (hp : p.stage = seam.producer) (hq : q.stage = seam.consumer)
    (ho : o.hasPixel) (ho' : q.stage = .pixel → o'.hasGeometry = (seam.producer == .geometry))
    (hsig : p.signature phases seam.outputs = .ok sig)
    (hsig' : q.signature phases' seam.inputs = .ok sig')
    (hsame : sig'.map (·.bare) = sig.map (·.bare))
    (hes : ∀ e ∈ sig, e.register ≠ noRegister ∧ seam.Admits e)
    (hi : build d o p phases = .ok (i, sizes)) (hj : build d o' q phases' = .ok (j, sizes')) :
    Meets seam d i sizes'.inputs j := by
  have hes' := Seam.forall_of_bare (P := fun e => e.register ≠ noRegister ∧ seam.Admits e)
    (fun _ => .rfl) hsame hes
  have hlinks : sig'.flatMap (seam.links d) = sig.flatMap (seam.links d) :=
    Seam.flatMap_eq_of_bare (fun _ => rfl) hsame
  have hdeclared : sig'.flatMap (seam.declared d) = sig.flatMap (seam.declared d) :=
    Seam.flatMap_eq_of_bare (fun _ => rfl) hsame
  obtain ⟨hstores, htypes⟩ := stores_of_build hp ho hsig hes hi
  obtain ⟨hloads, htypes'⟩ := loads_of_build hq ho' hsig' hes' hj
  rw [hlinks] at hloads
  have hmem (link : Link) : link ∈ sig.flatMap (seam.links d) ↔
      Link.stored seam link ∈ transfers (seam.stores i) := by
    rw [hstores, List.mem_map_of_injective Seam.stored_inj]
  have hmem' (link : Link) : link ∈ sig.flatMap (seam.links d) ↔
      Link.loaded seam sizes'.inputs link ∈ transfers j.load := by
    rw [← List.mem_map_of_injective Seam.loaded_inj, ← hloads, loadsInto, List.mem_filter]
    exact and_iff_left (decide_eq_true Seam.file_read)
  constructor
  case stores_iff =>
    intro r c handed lane
    exact (hmem ⟨r, c, handed, lane⟩).symm.trans (hmem' ⟨r, c, handed, lane⟩)
  case stores =>
    intro t ht
    rw [hstores] at ht
    have ⟨link, _, ht⟩ := List.mem_map.mp ht
    exact ⟨link, ht.symm⟩
  case loads =>
    intro t ht hfile
    have ht : t ∈ j.loadsInto seam.file := List.mem_filter.mpr ⟨ht, decide_eq_true hfile⟩
    rw [hloads] at ht
    have ⟨link, _, ht⟩ := List.mem_map.mp ht
    exact ⟨link, ht.symm⟩
  case declared =>
    intro r c name lane hstore
    have ⟨e, he, hlink⟩ := List.mem_flatMap.mp ((hmem ⟨r, c, .variable name, lane⟩).mpr hstore)
    have ⟨hfactor, hname⟩ := Seam.variable_of_mem_links hlink
    have hsigs : seam.typesOf d sig' = seam.typesOf d sig := by
      unfold Seam.typesOf
      rw [hdeclared]
    rw [hname, htypes e, htypes' e, hsigs]
    exact ⟨List.ne_nil_of_mem (Seam.mem_typesOf he hfactor), rfl,
      fun type htype => Seam.exists_vecName_of_mem_typesOf htype⟩

-- A factor of one edge, and two components of an unsigned vector.
def patchSignature : Signature :=
  [{ semantic := "SV_TessFactor", semanticIndex := 1, register := 0,
     systemValue := .finalTriEdgeTessFactor, mask := ⟨8⟩ },
    { semantic := "Tint", semanticIndex := 2, register := 1, componentType := .uint32,
      mask := ⟨6⟩ }]

def patchHull : Program :=
  { stage := .hull, patch := patchSignature }

def patchDomain : Program :=
  { stage := .domain, patch := patchSignature }

theorem meets_of_build_patchSignature :
    ∃ i sizes j sizes', build (.ofVersion .gl45) {} patchHull none = .ok (i, sizes) ∧
      build (.ofVersion .gl45) {} patchDomain none = .ok (j, sizes') ∧
      i.Stores .patch 0 3 (.tessLevel false 1) 0 ∧ i.Stores .patch 1 2 (.variable "pc_TINT2") 2 ∧
      Meets .patch (.ofVersion .gl45) i sizes'.inputs j := by
  have hentries : ∀ e ∈ patchSignature, e.register ≠ noRegister ∧ Seam.patch.Admits e := by
    simp [patchSignature, noRegister, Seam.Admits, SignatureEntry.IsTessFactor,
      SystemValue.isEdgeTessFactor]
  obtain ⟨⟨i, sizes⟩, hi⟩ : ∃ r, build (.ofVersion .gl45) {} patchHull none = .ok r := ⟨_, rfl⟩
  obtain ⟨⟨j, sizes'⟩, hj⟩ : ∃ r, build (.ofVersion .gl45) {} patchDomain none = .ok r := ⟨_, rfl⟩
  have hstored : transfers i.patchStore =
      (patchSignature.flatMap (Seam.patch.links (.ofVersion .gl45))).map (Link.stored .patch) :=
    (stores_of_build (p := patchHull) rfl rfl rfl hentries hi).1
  have hdomain : patchDomain.stage ≠ .pixel := by decide
  refine ⟨i, sizes, j, sizes', hi, hj, ?_, ?_, ?_⟩
  case refine_1 =>
    refine (congrArg (_ ∈ ·) hstored).mpr ?_
    exact .head _
  case refine_2 =>
    refine (congrArg (_ ∈ ·) hstored).mpr ?_
    exact .tail _ (.tail _ (.head _))
  case refine_3 =>
    exact meets_of_build .patch rfl rfl rfl (absurd · hdomain) rfl rfl rfl hentries hi hj

end Interface

end ShaderLift
