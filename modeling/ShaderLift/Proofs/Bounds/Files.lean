import ShaderLift.Container.Program
import ShaderLift.Proofs.Bounds.Shader
import ShaderLift.Proofs.Lift.Temps

/-!
The lengths of register files. A file has a place for each register that a signature, a declaration
or an instruction names, and for no others. So the numbers that subscript files lie within them,
unless they come from where nobody counts: from an operand inside of an index, for a vertex that is
not there, or, in a build without checks, from a sum or product that does not fit into a word.
-/

namespace ShaderLift

open Glsl

theorem mem_of_mapM_iff {ε α β : Type} {f : α → Except ε β} {l : List α} {bs : List β} {b : β}
    (h : l.mapM f = .ok bs) : b ∈ bs ↔ ∃ a ∈ l, f a = .ok b := by
  have h := mapM_eq_ok_iff.mp h
  refine ⟨exists_mem_of_forall₂ h, fun ⟨a, ha, hb⟩ => ?_⟩
  have ⟨b', hb', hf⟩ := exists_mem_of_forall₂ h.flip ha
  exact Except.ok.inj (hb.symm.trans hf) ▸ hb'

theorem UInt32.lt_add_one_of_ne {r : UInt32} (h : r ≠ 0xffffffff) : r < r + 1 := by
  have hr : r.toNat ≠ 0xffffffff := fun he => h (UInt32.toNat_inj.mp he)
  rw [UInt32.lt_iff_toNat_lt, UInt32.toNat_add]
  have := r.toNat_lt
  simp only [UInt32.reduceToNat]
  omega

theorem UInt32.max_one_ne_zero {n : UInt32} : max n 1 ≠ 0 := by
  intro h
  have hn := congrArg UInt32.toNat h
  rw [UInt32.toNat_max] at hn
  simp at hn

-- The operand of an input or output declaration.
def Declared.register? : Declared → Option OperandId
  | input id _ _ _ | output id _ _ => some id
  | _ => none

namespace Program

-- An operand names a register of some kinds.
def Names (p : Program) (kinds : List RegisterKind) (id : OperandId) (r : UInt32) : Prop :=
  ∃ op, p.operands[id]? = some op ∧ op.register ∈ kinds ∧ op.lastIndex? = some r

-- An instruction has an operand itself, and not only inside of an index.
def Takes (p : Program) (id : OperandId) : Prop :=
  ∃ inst ∈ p.instructions, id ∈ inst.operands

-- The registers that a file needs for what names one of them: the first of them, and how many.
inductive Stretch (p : Program) (entries : Signature) (kinds : List RegisterKind) :
    UInt32 → UInt32 → Prop
  | entry {e} (mem : e ∈ entries) (named : e.register ≠ noRegister) :
      Stretch p entries kinds e.register 1
  | declared {decl id r} (mem : decl ∈ p.declarations)
      (declares : decl.declared.register? = some id) (names : p.Names kinds id r) :
      Stretch p entries kinds r 1
  | range {decl id r count} (mem : decl ∈ p.declarations)
      (declares : decl.declared = .indexRange id count) (names : p.Names kinds id r) :
      Stretch p entries kinds r count
  | taken {id r} (takes : p.Takes id) (names : p.Names kinds id r) : Stretch p entries kinds r 1

-- How many registers a file needs for a stretch of them, in words.
def Counts (p : Program) (entries : Signature) (kinds : List RegisterKind) (n : UInt32) : Prop :=
  ∃ first count, p.Stretch entries kinds first count ∧ n = first + count

variable {p : Program} {entries : Signature} {kinds : List RegisterKind} {k m n : UInt32}

theorem registerOf_map_eq_ok {β : Type} {id : OperandId} {f : UInt32 → β} {b : β} :
    (do return (← p.registerOf kinds id).map f) = (.ok (some b) : Except LiftError (Option β)) ↔
      ∃ r, p.Names kinds id r ∧ b = f r := by
  have hregister {o : Option UInt32} : p.registerOf kinds id = .ok o ↔ ∃ op,
      p.operands[id]? = some op ∧
        (if kinds.contains op.register then op.lastIndex? else none) = o := by
    unfold registerOf
    rw [bind_eq_ok_iff]
    refine exists_congr fun op => and_congr operand_eq_ok_iff ?_
    exact ⟨Except.ok.inj, congrArg _⟩
  rw [bind_eq_ok_iff]
  constructor
  case mp =>
    rintro ⟨o, ho, hb⟩
    have ⟨op, hop, ho⟩ := hregister.mp ho
    have ⟨r, hr, hb⟩ := Option.map_eq_some_iff.mp (Except.ok.inj hb)
    rw [hr, Option.ite_none_right_eq_some] at ho
    exact ⟨r, ⟨op, hop, List.contains_iff_mem.mp ho.left, ho.right⟩, hb.symm⟩
  case mpr =>
    rintro ⟨r, ⟨op, hop, hk, hr⟩, rfl⟩
    refine ⟨some r, hregister.mpr ⟨op, hop, ?_⟩, rfl⟩
    rw [if_pos (List.contains_iff_mem.mpr hk), hr]

theorem declaredStretch_eq_ok {declared : Declared} {s : UInt32 × UInt32} :
    p.declaredStretch kinds declared = .ok (some s) ↔
      (∃ id r, declared.register? = some id ∧ p.Names kinds id r ∧ s = (r, 1)) ∨
      ∃ id count r, declared = .indexRange id count ∧ p.Names kinds id r ∧ s = (r, count) := by
  unfold declaredStretch
  cases declared
  case input id _ _ _ | output id _ _ | indexRange id _ =>
    simpa [Declared.register?] using registerOf_map_eq_ok
  all_goals simp [Declared.register?, pure, Except.pure]

theorem mem_stretches_iff {l : List (UInt32 × UInt32)} (h : p.stretches entries kinds = .ok l)
    {first count : UInt32} : (first, count) ∈ l ↔ p.Stretch entries kinds first count := by
  unfold stretches at h
  have ⟨declared, hdeclared, h⟩ := bind_eq_ok_iff.mp h
  have ⟨used, hused, h⟩ := bind_eq_ok_iff.mp h
  rw [← Except.ok.inj h]
  simp only [List.mem_append, List.mem_map, List.mem_filter, List.mem_filterMap, id_eq,
    exists_eq_right, mem_of_mapM_iff hdeclared, mem_of_mapM_iff hused, declaredStretch_eq_ok,
    registerOf_map_eq_ok, List.mem_flatMap, Prod.mk.injEq]
  constructor
  case mp =>
    rintro (⟨_, ⟨⟨e, he, rfl⟩, hne⟩, rfl, rfl⟩ | ⟨decl, hdecl, hd⟩ | ⟨id, hid, r, hr, rfl, rfl⟩)
    · exact .entry he (of_decide_eq_true hne)
    · rcases hd with ⟨id, r, hd, hr, rfl, rfl⟩ | ⟨id, count, r, hd, hr, rfl, rfl⟩
      · exact .declared hdecl hd hr
      · exact .range hdecl hd hr
    · exact .taken hid hr
  case mpr =>
    rintro (⟨he, hne⟩ | ⟨hdecl, hd, hr⟩ | ⟨hdecl, hd, hr⟩ | ⟨hid, hr⟩)
    · exact .inl ⟨_, ⟨⟨_, he, rfl⟩, decide_eq_true hne⟩, rfl, rfl⟩
    · exact .inr (.inl ⟨_, hdecl, .inl ⟨_, _, hd, hr, rfl, rfl⟩⟩)
    · exact .inr (.inl ⟨_, hdecl, .inr ⟨_, _, _, hd, hr, rfl, rfl⟩⟩)
    · exact .inr (.inr ⟨_, hid, _, hr, rfl, rfl⟩)

section Extent

variable {o : Options} (h : p.extent o entries kinds = .ok n)

include h

-- A file has the places that are counted, and no others.
theorem lt_extent_iff : k < n ↔ ∃ m, p.Counts entries kinds m ∧ k < m := by
  have ⟨stretches, hstretches, h⟩ := bind_eq_ok_iff.mp h
  have ⟨_, _, h⟩ := bind_eq_ok_iff.mp h
  rw [← Except.ok.inj h, lt_foldl_max]
  simp only [List.mem_map, Prod.exists, mem_stretches_iff hstretches, Counts, eq_comm,
    UInt32.not_lt_zero, false_or]

-- In a build with checks, no stretch ends beyond the words.
theorem Stretch.fits {first count : UInt32} (hs : p.Stretch entries kinds first count)
    (hw : o.checked) : first.toNat + count.toNat < UInt32.size := by
  have ⟨stretches, hstretches, h⟩ := bind_eq_ok_iff.mp h
  have ⟨_, hnumbers, _⟩ := bind_eq_ok_iff.mp h
  have hmem := (mem_stretches_iff hstretches).mpr hs
  exact Options.requireWords_eq_ok_iff.mp hnumbers hw _ (List.mem_map_of_mem hmem)

end Extent

-- What a register file of a program holds: the class of its signature, the kinds of its registers,
-- and how many vertices have such registers.
structure Contents where
  kind     : SignatureClass
  kinds    : List RegisterKind
  vertices : UInt32

-- The vertices of an input primitive, or the control points of an input patch.
def inputVertices (p : Program) : UInt32 :=
  if p.stage = .geometry then (p.stageInfo.gsInputPrimitive.map InputPrimitive.vertexCount).getD 1
  else max (p.stageInfo.inputControlPoints.getD 1) 1

def contents? (p : Program) : RegisterFile → Option Contents
  | .inputs =>
    match p.stage with
    | .vertex | .pixel => some ⟨.input, [.input, .inputControlPoint], 1⟩
    | .geometry => some ⟨.input, [.input, .inputControlPoint], p.inputVertices⟩
    | .hull | .domain | .compute => none
  | .inputPoints =>
    match p.stage with
    | .hull | .domain => some ⟨.input, [.input, .inputControlPoint], p.inputVertices⟩
    | _ => none
  | .outputs =>
    match p.stage with
    | .compute => none
    | _ => some ⟨.output, [.output, .outputControlPoint], 1⟩
  | .outputPoints =>
    match p.stage with
    | .hull =>
      let points := max (p.stageInfo.outputControlPoints.getD 1) 1
      some ⟨.output, [.output, .outputControlPoint], points⟩
    | _ => none
  | .patchOutputs =>
    match p.stage with
    | .hull => some ⟨.patch, [.output, .inputPatchConstant], 1⟩
    | _ => none
  | .patchInputs =>
    match p.stage with
    | .domain => some ⟨.patch, [.inputPatchConstant], 1⟩
    | _ => none

-- The signatures by which a program is lifted.
def Signs (p : Program) (sig : SignatureClass → Signature) : Prop :=
  ∃ phases : Option Phases, (phases.isSome ↔ p.stage = .hull) ∧
    (∀ ps, phases = some ps → Phases.split p = .ok ps) ∧
    ∀ kind, p.signature phases kind = .ok (sig kind)

-- How many registers each vertex has.
def Measures (p : Program) (sig : SignatureClass → Signature) (contents : Contents) (n : UInt32) :
    Prop :=
  ∀ k, k < n ↔ ∃ m, p.Counts (sig contents.kind) contents.kinds m ∧ k < m

-- The places of a file.
def HasPlace (p : Program) (sig : SignatureClass → Signature) (file : RegisterFile) (k : UInt32) :
    Prop :=
  ∃ contents n, p.contents? file = some contents ∧ p.Measures sig contents n ∧
    k < contents.vertices * n

-- What an operand with known indices names: a register of a vertex, and the number that subscripts
-- the file. Operands that name no vertex name registers of the first.
inductive Locates (p : Program) (sig : SignatureClass → Signature) (op : Operand)
    (file : RegisterFile) : (vertex register k : UInt32) → Prop
  | element {register} (flat : ¬op.PerVertex p.stage)
      (first : op.indices[0]? = some (.imm register)) : Locates p sig op file 0 register register
  | vertex {outer inner contents stride} (perVertex : op.PerVertex p.stage)
      (first : op.indices[0]? = some (.imm outer)) (second : op.indices[1]? = some (.imm inner))
      (holds : p.contents? file = some contents) (measures : p.Measures sig contents stride) :
      Locates p sig op file outer inner (outer * stride + inner)

-- Where numbers come from that subscript a file, but are not counted for its length.
inductive Strays (p : Program) (o : Options) (sig : SignatureClass → Signature) :
    RegisterFile → UInt32 → Prop
  -- an index that is another operand, which happens to be known
  | relative {op id scope file k} (used : p.Uses op) (named : op.file? p.stage scope = some file)
      (flat : ¬op.PerVertex p.stage) (first : op.indices[0]? = some (.relative id))
      (known : p.Knows id k) : Strays p o sig file k
  -- an operand with more indices than are read
  | several {op scope file v r k} (used : p.Uses op) (named : op.file? p.stage scope = some file)
      (locates : p.Locates sig op file v r k) (last : op.lastIndex? ≠ some r) :
      Strays p o sig file k
  -- an operand that stands only inside of indices
  | nested {op id scope file v r k} (reached : p.Reaches id) (operand : p.operands[id]? = some op)
      (named : op.file? p.stage scope = some file) (locates : p.Locates sig op file v r k)
      (inner : ¬p.Takes id) : Strays p o sig file k
  -- a vertex that is not there
  | vertex {op scope file contents v r k} (used : p.Uses op)
      (named : op.file? p.stage scope = some file) (perVertex : op.PerVertex p.stage)
      (locates : p.Locates sig op file v r k) (holds : p.contents? file = some contents)
      (outside : contents.vertices ≤ v) : Strays p o sig file k
  -- the last register that a word can number
  | last {op scope file v k} (used : p.Uses op) (named : op.file? p.stage scope = some file)
      (locates : p.Locates sig op file v 0xffffffff k) (unchecked : ¬o.checked) :
      Strays p o sig file k
  -- more places than a word can count
  | wraps {op scope file contents n v r k} (used : p.Uses op)
      (named : op.file? p.stage scope = some file) (locates : p.Locates sig op file v r k)
      (holds : p.contents? file = some contents) (measures : p.Measures sig contents n)
      (overflow : 2 ^ 32 ≤ contents.vertices.toNat * n.toNat) (unchecked : ¬o.checked) :
      Strays p o sig file k
  -- a stage without files
  | compute {op scope file v r k} (used : p.Uses op) (named : op.file? p.stage scope = some file)
      (locates : p.Locates sig op file v r k) (compute : p.stage = .compute) :
      Strays p o sig file k
  -- a tessellation factor without a register
  | factor {e file} (mem : e ∈ sig .patch) (unnamed : e.register = noRegister)
      (factor : e.IsTessFactor) (border : file = .patchInputs ∨ file = .patchOutputs) :
      Strays p o sig file noRegister
  -- a signature of a patch in a stage without patches
  | foreign {e} (mem : e ∈ sig .patch) (stage : p.stage ≠ .hull ∧ p.stage ≠ .domain) :
      Strays p o sig .patchInputs e.register

end Program

-- The registers that a shader declares a place for.
def Shader.HasRegister (s : Shader) (file : RegisterFile) (k : UInt32) : Prop :=
  ∃ n, Decl.file file n ∈ s.source.decls ∧ k < n

-- The lengths of the arrays that a shader declares for a file.
def Shader.fileLengths (s : Shader) (file : RegisterFile) : List UInt32 :=
  s.source.decls.filterMap fun
    | .file file' n => if file' = file then some n else none
    | _ => none

theorem Shader.hasRegister_iff_fileLengths {s : Shader} {file : RegisterFile} {k : UInt32} :
    s.HasRegister file k ↔ ∃ n ∈ s.fileLengths file, k < n := by
  refine exists_congr fun n => and_congr_left fun _ => ?_
  rw [fileLengths, List.mem_filterMap]
  constructor
  case mp => exact fun h => ⟨_, h, by simp⟩
  case mpr =>
    rintro ⟨decl, hdecl, h⟩
    split at h
    case h_2 => cases h
    case h_1 => grind

def FileSizes.registers (s : FileSizes) : SignatureClass → UInt32
  | .input => s.inputs
  | .output => s.outputs
  | .patch => s.patch

theorem Resources.file_notMem_decls {d : Dialect} {r : Resources} {decls : List Decl}
    {file : RegisterFile} {n : UInt32} (h : r.decls d = .ok decls) : Decl.file file n ∉ decls := by
  intro hmem
  cases makesDecl_of_mem h _ hmem
  case constants hd => cases UniformBuffer.isConstants_decls _ hd
  case sampler hmade =>
    have ⟨_, hd⟩ := exists_type_of_samplerDecl hmade
    cases hd
  case view _ hmade hd =>
    rcases image_or_storage_of_uavDecls hmade hd with ⟨_, _, _, _, _, hd⟩ | ⟨_, _, hd⟩ <;> cases hd

namespace Program

variable {p : Program} {sig : SignatureClass → Signature} {sizes : FileSizes} {file : RegisterFile}
variable {contents : Contents} {k m n : UInt32} {op : Operand}

theorem Measures.unique (hm : p.Measures sig contents m) (hn : p.Measures sig contents n) :
    m = n := by
  have hlt (k : UInt32) : k < m ↔ k < n := (hm k).trans (hn k).symm
  have hmn := (hlt n).not.mpr (UInt32.lt_irrefl n)
  have hnm := (hlt m).not.mp (UInt32.lt_irrefl m)
  exact UInt32.le_antisymm (UInt32.not_lt.mp hmn) (UInt32.not_lt.mp hnm)

section Sizes

variable {o : Options}
variable (h : p.fileSizes o (sig .input) (sig .output) (sig .patch) = .ok sizes)

include h

theorem extent_of_fileSizes (hc : p.contents? file = some contents) :
    p.extent o (sig contents.kind) contents.kinds = .ok (sizes.registers contents.kind) := by
  unfold fileSizes at h
  have ⟨inputs, hinputs, h⟩ := bind_eq_ok_iff.mp h
  have ⟨outputs, houtputs, h⟩ := bind_eq_ok_iff.mp h
  unfold contents? at hc
  cases hs : p.stage <;> simp only [hs] at h hc
  case hull | domain =>
    have ⟨patch, hpatch, h⟩ := bind_eq_ok_iff.mp h
    cases h
    cases file <;> cases hc <;> assumption
  all_goals
    cases h
    cases file <;> cases hc <;> assumption

theorem measures_of_fileSizes (hc : p.contents? file = some contents) :
    p.Measures sig contents (sizes.registers contents.kind) :=
  fun _ => lt_extent_iff (extent_of_fileSizes h hc)

theorem vertices_of_fileSizes :
    (p.stage ≠ .vertex → p.stage ≠ .pixel → p.stage ≠ .compute →
      sizes.inputVertices = p.inputVertices) ∧
    (p.stage = .hull → sizes.outputVertices = max (p.stageInfo.outputControlPoints.getD 1) 1) := by
  unfold fileSizes at h
  have ⟨inputs, hinputs, h⟩ := bind_eq_ok_iff.mp h
  have ⟨outputs, houtputs, h⟩ := bind_eq_ok_iff.mp h
  unfold inputVertices
  cases hs : p.stage <;> simp only [hs] at h
  case hull | domain =>
    have ⟨patch, hpatch, h⟩ := bind_eq_ok_iff.mp h
    cases h
    simp
  all_goals
    cases h
    simp

-- The arrays are those of the files that hold registers.
theorem mem_fileDecls_iff : (∃ n, Decl.file file n ∈ sizes.decls p.stage ∧ k < n) ↔
    ∃ contents, p.contents? file = some contents ∧
      k < contents.vertices * sizes.registers contents.kind := by
  have ⟨hinputs, houtputs⟩ := vertices_of_fileSizes h
  have hmem {files : List (RegisterFile × UInt32)} {toDecl : RegisterFile × UInt32 → Decl}
      (hdecl : ∀ f, toDecl f = .file f.1 f.2) :
      (∃ n, Decl.file file n ∈ (files.filter (·.2 > 0)).map toDecl ∧ k < n) ↔
        ∃ n, (file, n) ∈ files ∧ k < n := by
    refine exists_congr fun n => and_congr_left fun hk => ?_
    have hn : 0 < n := UInt32.lt_of_le_of_lt (UInt32.zero_le) hk
    simp [hdecl, hn]
  unfold FileSizes.decls
  dsimp only
  rw [hmem fun _ => rfl]
  clear hmem h
  unfold contents?
  cases hs : p.stage <;> rw [hs] at hinputs houtputs
  all_goals cases file <;> simp [FileSizes.registers, hinputs, houtputs]

-- The lengths of the files that hold the registers of several vertices are calculated.
theorem mul_mem_numbers (hc : p.contents? file = some contents) : contents.vertices = 1 ∨
    contents.vertices.toNat * (sizes.registers contents.kind).toNat ∈ sizes.numbers p.stage := by
  have ⟨hinputs, houtputs⟩ := vertices_of_fileSizes h
  unfold contents? at hc
  unfold FileSizes.numbers
  cases hs : p.stage <;> rw [hs] at hinputs houtputs
  all_goals cases file <;> simp only [hs] at hc <;> cases hc
  all_goals simp [FileSizes.registers, hinputs, houtputs]

end Sizes

theorem registers_of_contents (hc : p.contents? file = some contents) :
    sizes.registers contents.kind = sizes.stride file := by
  unfold contents? at hc
  cases hs : p.stage <;> cases file <;> simp only [hs] at hc <;> cases hc <;> rfl

theorem Locates.eq {v r : UInt32} (h : p.Locates sig op file v r k)
    (hc : p.contents? file = some contents) (hn : p.Measures sig contents n) : k = v * n + r := by
  cases h
  case element => simp
  case vertex hc' hn' _ _ =>
    cases hc.symm.trans hc'
    rw [hn.unique hn']

section Lifted

variable {o : Options} {s : Shader} {c : Context} {phases : Option Phases}
variable (l : p.Lifted o s c phases)

include l

-- No part of the head but the registers declares a file.
theorem Lifted.file_mem_decls_iff :
    Decl.file file n ∈ s.source.decls ↔ Decl.file file n ∈ c.sizes.decls p.stage := by
  have ⟨layouts, resources, hlayouts, hresources, hdecls⟩ := Context.exists_parts l.decls
  have hstage : c.stage = p.stage := congrArg Program.stage l.program
  have hlayout : Decl.file file n ∉ layouts := fun hmem => hlayouts _ hmem
  have hresource : Decl.file file n ∉ resources := Resources.file_notMem_decls hresources
  have himmediates : Decl.file file n ∉ c.resources.immediatesDecl c.dialect := by
    unfold Resources.immediatesDecl
    split
    case h_1 => simp
    case h_2 =>
      dsimp only
      split_ifs <;> simp
  rw [hdecls, ← hstage]
  simp [hlayout, hresource, himmediates, Context.registerDecls]

-- A primitive that a geometry shader takes has vertices: patches are refused.
theorem Lifted.inputVertices_ne_zero : p.inputVertices ≠ 0 := by
  unfold inputVertices
  split
  case isFalse => exact UInt32.max_one_ne_zero
  case isTrue hs =>
    have hstage : c.stage = .geometry := (congrArg Program.stage l.program).trans hs
    obtain ⟨layout, hlayout, _⟩ := bind_eq_ok_iff.mp l.decls
    simp only [Context.stageLayout, hstage, Context.geometryLayout] at hlayout
    rw [l.program] at hlayout
    cases hprimitive : p.stageInfo.gsInputPrimitive
    case none => decide
    case some primitive =>
      cases primitive
      case patch =>
        simp only [hprimitive, InputPrimitive.layoutName?] at hlayout
        obtain ⟨_, hrequire, _⟩ := bind_eq_ok_iff.mp hlayout
        cases hrequire
      all_goals decide

theorem Lifted.vertices_ne_zero (hc : p.contents? file = some contents) :
    contents.vertices ≠ 0 := by
  unfold contents? at hc
  cases hs : p.stage <;> cases file <;> simp only [hs] at hc <;> cases hc
  case geometry.inputs | hull.inputPoints | domain.inputPoints => exact l.inputVertices_ne_zero
  case hull.outputPoints => exact UInt32.max_one_ne_zero
  all_goals decide

-- The arrays have the places of their files.
theorem Lifted.hasRegister_iff
    (hsizes : p.fileSizes o (sig .input) (sig .output) (sig .patch) = .ok c.sizes) :
    s.HasRegister file k ↔ p.HasPlace sig file k := by
  unfold Shader.HasRegister
  simp only [l.file_mem_decls_iff, mem_fileDecls_iff hsizes]
  constructor
  case mp =>
    rintro ⟨contents, hc, hk⟩
    exact ⟨contents, _, hc, measures_of_fileSizes hsizes hc, hk⟩
  case mpr =>
    rintro ⟨contents, n, hc, hn, hk⟩
    exact ⟨contents, hc, (measures_of_fileSizes hsizes hc).unique hn ▸ hk⟩

end Lifted

-- Stages with files have one for the registers of each operand.
theorem exists_contents_of_named {scope : Scope}
    (hscope : scope = .fork ∨ scope = .join → p.stage = .hull) (hs : p.stage ≠ .compute)
    (hnamed : op.file? p.stage scope = some file) :
    ∃ contents, p.contents? file = some contents ∧ op.register ∈ contents.kinds := by
  unfold Operand.file? at hnamed
  unfold contents?
  cases hk : op.register <;> simp only [hk] at hnamed
  case output =>
    split at hnamed <;> cases hnamed
    case isTrue h => simp [hscope h]
    case isFalse => cases hstage : p.stage <;> simp_all
  case input | inputControlPoint | outputControlPoint | inputPatchConstant =>
    cases hstage : p.stage <;> simp_all
    all_goals subst hnamed; simp
  all_goals cases hnamed

-- Only stages with files name registers of vertices.
theorem ne_compute_of_perVertex {scope : Scope} (hv : op.PerVertex p.stage)
    (hnamed : op.file? p.stage scope = some file) : p.stage ≠ .compute := by
  have ⟨_, hv⟩ := hv
  unfold Operand.file? at hnamed
  intro hs
  cases hk : op.register <;> simp_all

theorem mul_add_lt_mul {v r vertices : UInt32} (hv : v < vertices) (hr : r < n)
    (hfits : vertices.toNat * n.toNat < 2 ^ 32) : v * n + r < vertices * n := by
  rw [UInt32.lt_iff_toNat_lt] at hv hr ⊢
  have hplace : v.toNat * n.toNat + r.toNat < vertices.toNat * n.toNat :=
    calc v.toNat * n.toNat + r.toNat
      _ < v.toNat * n.toNat + n.toNat := Nat.add_lt_add_left hr _
      _ = (v.toNat + 1) * n.toNat := (Nat.succ_mul _ _).symm
      _ ≤ vertices.toNat * n.toNat := Nat.mul_le_mul_right _ hv
  rw [UInt32.toNat_add, UInt32.toNat_mul, UInt32.toNat_mul, Nat.mod_add_mod]
  rwa [Nat.mod_eq_of_lt hfits, Nat.mod_eq_of_lt (hplace.trans hfits)]

section Places

variable {o : Options} {s : Shader} {c : Context} {phases : Option Phases}
variable (l : p.Lifted o s c phases)
variable (hsizes : p.fileSizes o (sig .input) (sig .output) (sig .patch) = .ok c.sizes)

include l hsizes

-- In a build with checks, no file has more places than a word can count.
theorem Lifted.fits (hc : p.contents? file = some contents) (hw : o.checked) :
    contents.vertices.toNat * (c.sizes.registers contents.kind).toNat < 2 ^ 32 := by
  have ⟨_, _, h⟩ := bind_eq_ok_iff.mp l.decls
  have ⟨_, _, h⟩ := bind_eq_ok_iff.mp h
  have ⟨_, _, h⟩ := bind_eq_ok_iff.mp h
  have ⟨_, hnumbers, _⟩ := bind_eq_ok_iff.mp h
  rw [l.options, show c.stage = p.stage from congrArg Program.stage l.program] at hnumbers
  rcases mul_mem_numbers hsizes hc with hsingle | hmem
  · rw [hsingle]
    simpa using UInt32.toNat_lt _
  · exact Options.requireWords_eq_ok_iff.mp hnumbers hw _ hmem

theorem Lifted.hasRegister_of_lt (hc : p.contents? file = some contents) {v r : UInt32}
    (hv : v < contents.vertices) (hr : r < c.sizes.registers contents.kind)
    (hfits : contents.vertices.toNat * (c.sizes.registers contents.kind).toNat < 2 ^ 32) :
    s.HasRegister file (v * c.sizes.registers contents.kind + r) :=
  (l.hasRegister_iff hsizes).mpr
    ⟨contents, _, hc, measures_of_fileSizes hsizes hc, mul_add_lt_mul hv hr hfits⟩

-- Files without vertices cannot be too long.
theorem Lifted.hasRegister_of_single (hc : p.contents? file = some contents)
    (hsingle : contents.vertices = 1) {r : UInt32} (hr : r < c.sizes.registers contents.kind) :
    s.HasRegister file r := by
  have hfits : contents.vertices.toNat * (c.sizes.registers contents.kind).toNat < 2 ^ 32 := by
    rw [hsingle]
    simpa using UInt32.toNat_lt _
  simpa using l.hasRegister_of_lt hsizes hc (v := 0) (by rw [hsingle]; decide) hr hfits

theorem Lifted.hasRegister_of_entry (hc : p.contents? file = some contents)
    (hsingle : contents.vertices = 1) {e : SignatureEntry} (he : e ∈ sig contents.kind)
    (hne : e.register ≠ noRegister) : s.HasRegister file e.register := by
  refine l.hasRegister_of_single hsizes hc hsingle ?_
  refine (measures_of_fileSizes hsizes hc _).mpr ⟨_, ⟨_, _, .entry he hne, rfl⟩, ?_⟩
  exact UInt32.lt_add_one_of_ne hne

theorem Lifted.hasRegister_or_strays_of_locates {scope : Scope} {v r : UInt32}
    (hscope : scope = .fork ∨ scope = .join → p.stage = .hull) (used : p.Uses op)
    (named : op.file? p.stage scope = some file) (locates : p.Locates sig op file v r k) :
    s.HasRegister file k ∨ p.Strays o sig file k := by
  by_cases hcompute : p.stage = .compute
  · exact .inr (.compute used named locates hcompute)
  have ⟨contents, hc, hkind⟩ := exists_contents_of_named hscope hcompute named
  have hmeasures := measures_of_fileSizes hsizes hc
  have ⟨id, hreached, hop⟩ := used
  by_cases htaken : p.Takes id
  case neg => exact .inr (.nested hreached hop named locates htaken)
  by_cases hlast : op.lastIndex? = some r
  case neg => exact .inr (.several used named locates hlast)
  by_cases hvertex : v < contents.vertices
  case neg =>
    have houtside := UInt32.not_lt.mp hvertex
    by_cases hv : op.PerVertex p.stage
    · exact .inr (.vertex used named hv locates hc houtside)
    · cases locates
      case vertex hv' _ _ _ _ => exact absurd hv' hv
      case element => exact absurd (UInt32.le_zero_iff.mp houtside) (l.vertices_ne_zero hc)
  have hstretch : p.Stretch (sig contents.kind) contents.kinds r 1 :=
    .taken htaken ⟨op, hop, hkind, hlast⟩
  by_cases hr : r = 0xffffffff
  case pos =>
    subst hr
    refine .inr (.last used named locates fun hw => ?_)
    exact absurd (hstretch.fits (extent_of_fileSizes hsizes hc) hw) (by decide)
  by_cases hfits : contents.vertices.toNat * (c.sizes.registers contents.kind).toNat < 2 ^ 32
  case neg =>
    refine .inr (.wraps used named locates hc hmeasures (Nat.not_lt.mp hfits) fun hw => ?_)
    exact hfits (l.fits hsizes hc hw)
  have hr := (hmeasures r).mpr ⟨_, ⟨_, _, hstretch, rfl⟩, UInt32.lt_add_one_of_ne hr⟩
  rw [locates.eq hc hmeasures]
  exact .inl (l.hasRegister_of_lt hsizes hc hvertex hr hfits)

theorem Lifted.hasRegister_or_strays_of_accesses {scope : Scope}
    (hscope : scope = .fork ∨ scope = .join → p.stage = .hull)
    (h : Accesses p c.sizes scope file k) : s.HasRegister file k ∨ p.Strays o sig file k := by
  match h with
  | .element used named flat first =>
    exact l.hasRegister_or_strays_of_locates hsizes hscope used named (.element flat first)
  | .relative used named flat first known => exact .inr (.relative used named flat first known)
  | .vertex used named perVertex first second =>
    have hstage := ne_compute_of_perVertex perVertex named
    have ⟨contents, hc, _⟩ := exists_contents_of_named hscope hstage named
    rw [← registers_of_contents hc]
    exact l.hasRegister_or_strays_of_locates hsizes hscope used named
      (.vertex perVertex first second hc (measures_of_fileSizes hsizes hc))

theorem Lifted.hasRegister_or_strays_of_conveys
    (h : Conveys p.stage (sig .input) (sig .output) (sig .patch) file k) :
    s.HasRegister file k ∨ p.Strays o sig file k := by
  cases h
  case input e mem named single =>
    have hc : p.contents? .inputs = some ⟨.input, [.input, .inputControlPoint], 1⟩ := by
      rcases single with hs | hs <;> simp [contents?, hs]
    exact .inl (l.hasRegister_of_entry hsizes hc rfl mem named)
  case output e mem named writes =>
    have hc : p.contents? .outputs = some ⟨.output, [.output, .outputControlPoint], 1⟩ := by
      cases hs : p.stage <;> simp_all [contents?]
    exact .inl (l.hasRegister_of_entry hsizes hc rfl mem named)
  case patchOutput e mem named hull =>
    have hc : p.contents? .patchOutputs = some ⟨.patch, [.output, .inputPatchConstant], 1⟩ := by
      simp [contents?, hull]
    by_cases hr : e.register = noRegister
    · exact .inr (hr ▸ .factor mem hr (named.resolve_left fun hne => hne hr) (.inr rfl))
    · exact .inl (l.hasRegister_of_entry hsizes hc rfl mem hr)
  case patchInput e mem named later =>
    by_cases hdomain : p.stage = .domain
    · have hc : p.contents? .patchInputs = some ⟨.patch, [.inputPatchConstant], 1⟩ := by
        simp [contents?, hdomain]
      by_cases hr : e.register = noRegister
      · exact .inr (hr ▸ .factor mem hr (named.resolve_left fun hne => hne hr) (.inl rfl))
      · exact .inl (l.hasRegister_of_entry hsizes hc rfl mem hr)
    · exact .inr (.foreign mem ⟨later, hdomain⟩)

theorem Lifted.hasRegister_or_strays
    (h : p.Origin c.sizes (sig .input) (sig .output) (sig .patch) file k) :
    s.HasRegister file k ∨ p.Strays o sig file k := by
  cases h
  case operand hscope access => exact l.hasRegister_or_strays_of_accesses hsizes hscope access
  case entry conveys => exact l.hasRegister_or_strays_of_conveys hsizes conveys
  case passed hull hlt =>
    have hc : p.contents? .outputs = some ⟨.output, [.output, .outputControlPoint], 1⟩ := by
      simp [contents?, hull]
    exact .inl (l.hasRegister_of_single hsizes hc rfl hlt)

end Places

variable {o : Options} {s : Shader} {linked : Program} {inputs outputs patch : Signature}
  {buffers : List ConstantBuffer} {bindings : List ResourceBinding}

-- The places of the files are those that are counted, and numbers stay within them unless they
-- stray.
theorem lift_declares_subscripts {tokens : List UInt32} (hdecode : decode tokens = .ok p)
    (hlink : (p.withTables inputs outputs patch buffers bindings).link = .ok linked)
    (hlift : linked.lift o = .ok s) : ∃ sig, linked.Signs sig ∧
      (∀ f ∈ s.source.functions.toList,
        f.Subscripts fun file k => s.HasRegister file k ∨ linked.Strays o sig file k) ∧
      ∀ file k, s.HasRegister file k ↔ linked.HasPlace sig file k := by
  have ⟨h, flow, hflow, hof⟩ := closed_of_link (closed_of_decode hdecode) hlink
  have ⟨c, phases, l, hmain, _⟩ := exists_lifted_main hlift
  have hbuild := @Interface.stays_build c.dialect o linked phases h
  rw [l.interface] at hbuild
  obtain ⟨inputs, outputs, patch, hinputs, houtputs, hpatch, hsizes, hconveys⟩ := hbuild
  let sig : SignatureClass → Signature
    | .input => inputs
    | .output => outputs
    | .patch => patch
  have hsizes : linked.fileSizes o (sig .input) (sig .output) (sig .patch) = .ok c.sizes := hsizes
  have hsigs : ∀ kind, linked.signature phases kind = .ok (sig kind)
    | .input => hinputs
    | .output => houtputs
    | .patch => hpatch
  have hc : linked.Enters o c :=
    ⟨l.program, l.options, l.dialect, l.flow, ⟨phases, l.interface⟩, l.resources, l.temps⟩
  have hof : Flow.ofInstructions linked.instructions linked.operands = .ok c.flow :=
    Except.ok.inj (hflow.symm.trans l.flow) ▸ hof
  have hwrite := ends_write h hc hmain hof l.hull.mp l.split hconveys
  have ⟨progress, hrun, _⟩ := l.written
  have hfunctions := hwrite {}
  rw [hrun] at hfunctions
  refine ⟨sig, ⟨phases, l.hull, l.split, hsigs⟩, fun f hf => ?_, fun file k => ?_⟩
  · exact EachLine.mono (fun _ _ => l.hasRegister_or_strays hsizes) (hfunctions f hf)
  · exact l.hasRegister_iff hsizes

-- A pixel shader with `mov o0, v5`.
def plainInput : List UInt32 :=
  [0x50, 11, 0x03000065, 0x001020f2, 0, 0x05000036, 0x001020f2, 0, 0x00101e46, 5, 0x0100003e]

theorem lift_declares_subscripts_plainInput : ∃ p linked s sig,
    decode plainInput = .ok p ∧ (p.withTables [] [] [] [] []).link = .ok linked ∧
    linked.lift {} = .ok s ∧ linked.Signs sig ∧
    (∃ f ∈ s.source.functions.toList, ∃ line ∈ f.body, line.text? = some "o[0] = v[5];") ∧
    s.HasRegister .inputs 5 ∧ ¬s.HasRegister .inputs 6 ∧
    (∀ f ∈ s.source.functions.toList,
      f.Subscripts fun file k => s.HasRegister file k ∨ linked.Strays {} sig file k) ∧
    ∀ file k, s.HasRegister file k ↔ linked.HasPlace sig file k := by
  obtain ⟨p, hdecode, linked, hlink, s, hs, hline, hlengths⟩ : ∃ p, decode plainInput = .ok p ∧
      ∃ linked, (p.withTables [] [] [] [] []).link = .ok linked ∧ ∃ s, linked.lift {} = .ok s ∧
        (∃ f ∈ s.source.functions.toList, ∃ line ∈ f.body, line.text? = some "o[0] = v[5];") ∧
        s.fileLengths .inputs = [6] := by
    decide +kernel
  obtain ⟨sig, hsigns, hfunctions, hplaces⟩ := lift_declares_subscripts hdecode hlink hs
  have hregister (k : UInt32) : s.HasRegister .inputs k ↔ k < 6 := by
    rw [Shader.hasRegister_iff_fileLengths, hlengths]
    simp
  exact ⟨p, linked, s, sig, hdecode, hlink, hs, hsigns, hline, (hregister 5).mpr (by decide),
    (hregister 6).not.mpr (by decide), hfunctions, hplaces⟩

-- A pixel shader with `mov o0, cb0[v5.x]`.
def nestedInput : List UInt32 :=
  [0x50, 17, 0x04000859, 0x00208e46, 0, 1, 0x03000065, 0x001020f2, 0,
    0x07000036, 0x001020f2, 0, 0x04208e46, 0, 0x0010100a, 5, 0x0100003e]

theorem inputs_undeclared_nestedInput : ∃ s, Shader.ofTokens nestedInput {} = .ok s ∧
    (∃ f ∈ s.source.functions.toList, ∃ line ∈ f.body,
      line.text? = some "o[0] = cb0[floatBitsToInt(v[5].x)];") ∧
    ∀ k, ¬s.HasRegister .inputs k := by
  obtain ⟨s, hs, hline, hlengths⟩ : ∃ s, Shader.ofTokens nestedInput {} = .ok s ∧
      (∃ f ∈ s.source.functions.toList, ∃ line ∈ f.body,
        line.text? = some "o[0] = cb0[floatBitsToInt(v[5].x)];") ∧ s.fileLengths .inputs = [] := by
    decide +kernel
  refine ⟨s, hs, hline, fun k hk => ?_⟩
  rw [Shader.hasRegister_iff_fileLengths, hlengths] at hk
  simp at hk

end Program

end ShaderLift
