import ShaderLift.Proofs.Flow.Grammar
import ShaderLift.Proofs.Lift.Collected
import ShaderLift.Proofs.Lift.Registers
import ShaderLift.Proofs.Lift.UniformBlock
import ShaderLift.Proofs.Text.Stems

/-!
The names that a shader needs and that no table gives: those of registers, slots and functions. They
are made of words and numbers, and do not clash with each other.
-/

namespace ShaderLift

open Glsl

namespace UniformBuffer

-- The names of a constant buffer that come from the reflection data of its slot.
def reflected (buffer : Option ConstantBuffer) (b : UniformBuffer) : List String :=
  (if b.isBlock then (buffer.map (Identifier.ofString ·.name)).toList else []) ++
    (b.members.getD []).map (·.name)

-- The names that it gets without such data.
def generated (buffer : Option ConstantBuffer) (b : UniformBuffer) : List String :=
  (if b.isBlock ∧ buffer.isNone then ["cb" ++ decimal b.slot ++ "_block"] else []) ++
    if b.members.isNone then [(Name.constants b.slot).text] else []

variable {buffer : Option ConstantBuffer} {b : UniformBuffer}

theorem stemmed_generated : Stemmed ["cb_block", "cb"] (b.generated buffer) := by
  have hblock : Stemmed ["cb_block"] ["cb" ++ decimal b.slot ++ "_block"] :=
    .singleton (by simp +decide)
  have hraw : Stemmed ["cb"] [(Name.constants b.slot).text] :=
    .singleton (by simp +decide [Name.text])
  exact hblock.ite.append hraw.ite (by decide)

theorem numbered_generated : ∀ name ∈ b.generated buffer, Numbered "cb" b.slot name := by
  intro name h
  simp only [generated, List.mem_append, List.mem_ite_nil_right, List.mem_singleton] at h
  rcases h with ⟨_, rfl⟩ | ⟨_, rfl⟩
  case inl => exact ⟨"_block", rfl, by decide⟩
  case inr => exact ⟨"", by simp [Name.text], by decide⟩

end UniformBuffer

namespace Glsl

namespace SamplerKey

-- What the name says behind the texture.
def tail (k : SamplerKey) : String :=
  (k.sampler.map fun s => "_s" ++ (decimal s ++ if k.shadow then "_cmp" else "")).getD ""

theorem name_eq {k : SamplerKey} : k.name = "t" ++ (decimal k.texture ++ k.tail) := by
  unfold name tail
  cases k.sampler <;> simp [String.append_assoc]

theorem noDigitFirst_tail {k : SamplerKey} : NoDigitFirst k.tail := by
  unfold tail
  cases k.sampler <;> simp [NoDigitFirst]

theorem name_inj {a b : SamplerKey} (ha : a.sampler = none → a.shadow = false)
    (hb : b.sampler = none → b.shadow = false) (h : a.name = b.name) : a = b := by
  rw [name_eq, name_eq] at h
  obtain ⟨htexture, htail⟩ :=
    decimal_append_inj noDigitFirst_tail noDigitFirst_tail (append_cancel_left h)
  obtain ⟨texture, sampler, shadow⟩ := a
  obtain ⟨texture', sampler', shadow'⟩ := b
  cases sampler <;> cases sampler'
  case none.none => simp_all
  case none.some => simp [tail, ← String.toList_inj] at htail
  case some.none => simp [tail, ← String.toList_inj] at htail
  case some.some =>
    have hcmp (k : Bool) : NoDigitFirst (if k then "_cmp" else "") := by cases k <;> decide
    obtain ⟨hsampler, hshadow⟩ :=
      decimal_append_inj (hcmp shadow) (hcmp shadow') (append_cancel_left htail)
    have hshadow : shadow = shadow' := by
      cases shadow <;> cases shadow' <;> simp_all
    simp_all

theorem stem_name {key : SamplerKey} : stem key.name ∈ ["t", "t_s", "t_s_cmp"] := by
  unfold name
  split
  case h_1 => simp +decide
  case h_2 => split <;> simp +decide

end SamplerKey

-- The names of a storage block and of what is in it.
def Storage.names (s : Storage) : List String :=
  [s.blockName, s.data.text]

namespace Storage

def letter : Storage → String
  | resource _ => "t"
  | uav _ | counter _ => "u"

def slot : Storage → UInt32
  | resource slot | uav slot | counter slot => slot

theorem numbered_names {s : Storage} : ∀ name ∈ s.names, Numbered s.letter s.slot name := by
  refine List.forall_mem_cons.mpr ⟨?_, List.forall_mem_singleton.mpr ?_⟩
  case refine_1 => cases s <;> exact ⟨_, rfl, by decide⟩
  case refine_2 => cases s <;> exact ⟨_, rfl, by decide⟩

theorem stemmed_resource {slot : UInt32} : Stemmed ["t_buffer", "t_data"] (resource slot).names :=
  .pair (by simp +decide [blockName]) (by simp +decide [data, Name.text]) (by decide)

theorem stemmed_uav {slot : UInt32} : Stemmed ["u_buffer", "u_data"] (uav slot).names :=
  .pair (by simp +decide [blockName]) (by simp +decide [data, Name.text]) (by decide)

theorem stemmed_counter {slot : UInt32} :
    Stemmed ["u_counter_buffer", "u_counter"] (counter slot).names :=
  .pair (by simp +decide [blockName]) (by simp +decide [data, Name.text]) (by decide)

end Storage

end Glsl

namespace Uav

-- The names of a view and of its counter.
def names (slot : UInt32) (u : Uav) : List String :=
  (if u.isTyped then [(Name.image slot).text] else (Storage.uav slot).names) ++
    if u.hasCounter then (Storage.counter slot).names else []

variable {slot : UInt32} {u : Uav}

theorem stemmed_names :
    Stemmed ["u", "u_buffer", "u_data", "u_counter_buffer", "u_counter"] (u.names slot) := by
  have hview : Stemmed ["u", "u_buffer", "u_data"]
      (if u.isTyped then [(Name.image slot).text] else (Storage.uav slot).names) := by
    split
    case isTrue => exact .singleton (by simp +decide [Name.text])
    case isFalse => exact Storage.stemmed_uav.mono (by decide)
  exact hview.append Storage.stemmed_counter.ite (by decide)

theorem numbered_names : ∀ name ∈ u.names slot, Numbered "u" slot name := by
  refine List.forall_mem_append.mpr ⟨?_, ?_⟩
  case refine_1 =>
    split
    case isTrue => exact List.forall_mem_singleton.mpr ⟨"", by simp [Name.text], by decide⟩
    case isFalse => exact Storage.numbered_names
  case refine_2 =>
    split
    case isTrue => exact Storage.numbered_names
    case isFalse => exact List.forall_mem_nil _

end Uav

namespace Resources

variable {d : Dialect} {p : Program} {r : Resources}

-- The reflection data of a slot.
def bufferAt (p : Program) (slot : UInt32) : Option ConstantBuffer :=
  p.constantBuffers.find? (·.bindPoint == slot)

def reflected (p : Program) (r : Resources) : List String :=
  r.constantBuffers.entries.flatMap fun e => e.2.reflected (bufferAt p e.1)

-- The names of words that fill gaps between the members of blocks.
def padding (d : Dialect) (r : Resources) : List String :=
  r.constantBuffers.values.flatMap fun b => (b.decls d).flatMap Decl.paddingNames

def generated (p : Program) (r : Resources) : List String :=
  (r.constantBuffers.entries.flatMap fun e => e.2.generated (bufferAt p e.1)) ++
    r.pairs.keys.map SamplerKey.name ++
    (r.buffers.keys.flatMap fun slot => (Storage.resource slot).names) ++
    (r.uavs.entries.flatMap fun e => e.2.names e.1) ++
    (r.shared.keys.map fun slot => (Name.shared slot).text) ++
    if r.immediates.isSome then [Name.immediates.text] else []

def stems : List String :=
  ["cb_block", "cb"] ++ ["t", "t_s", "t_s_cmp"] ++ ["t_buffer", "t_data"] ++
    ["u", "u_buffer", "u_data", "u_counter_buffer", "u_counter"] ++ ["g"] ++ ["icb"]

theorem stemmed_generated (hb : r.Built d p) (ho : r.Ordered) : Stemmed stems (r.generated p) := by
  have hconstants : Stemmed ["cb_block", "cb"]
      (r.constantBuffers.entries.flatMap fun e => e.2.generated (bufferAt p e.1)) := by
    refine .slots Prod.fst "cb" hb.sorted.nodup_keys (fun _ _ => UniformBuffer.stemmed_generated) ?_
    intro e he
    rw [← hb.slot_eq he]
    exact UniformBuffer.numbered_generated
  have hsamplers : Stemmed ["t", "t_s", "t_s_cmp"] (r.pairs.keys.map SamplerKey.name) :=
    .map ho.pairs.nodup_keys
      (fun a ha b hb => SamplerKey.name_inj (ho.shadow a ha) (ho.shadow b hb))
      fun _ _ => SamplerKey.stem_name
  have hbuffers : Stemmed ["t_buffer", "t_data"]
      (r.buffers.keys.flatMap fun slot => (Storage.resource slot).names) := by
    refine .slots id "t" ?_ (fun _ _ => Storage.stemmed_resource) fun _ _ => Storage.numbered_names
    rw [List.map_id]
    exact ho.buffers.nodup_keys
  have huavs : Stemmed ["u", "u_buffer", "u_data", "u_counter_buffer", "u_counter"]
      (r.uavs.entries.flatMap fun e => e.2.names e.1) :=
    .slots Prod.fst "u" ho.uavs.nodup_keys (fun _ _ => Uav.stemmed_names)
      fun _ _ => Uav.numbered_names
  have hshared : Stemmed ["g"] (r.shared.keys.map fun slot => (Name.shared slot).text) :=
    .numbers "g" (by decide) ho.shared.nodup_keys
  have himmediates : Stemmed ["icb"] [Name.immediates.text] := .singleton (by decide)
  have h := (hconstants.append hsamplers (by decide)).append hbuffers (by decide)
  have h := (h.append huavs (by decide)).append hshared (by decide)
  exact h.append himmediates.ite (by decide)

end Resources

namespace Context

variable {c : Context} {phases : Option Phases}

def fileNames (c : Context) : List String :=
  (c.sizes.decls c.stage).flatMap Decl.identifiers

theorem stemmed_fileNames : Stemmed ["v", "o", "vicp", "vocp", "vpc", "opc"] c.fileNames := by
  have hfiles {files : List (RegisterFile × UInt32)} {toDecl : RegisterFile × UInt32 → Decl}
      (hdecl : ∀ f, (toDecl f).identifiers = [f.1.name]) (hf : (files.map Prod.fst).Nodup) :
      Stemmed ["v", "o", "vicp", "vocp", "vpc", "opc"]
        (((files.filter (·.2 > 0)).map toDecl).flatMap Decl.identifiers) := by
    have hsub : ((files.filter (·.2 > 0)).map Prod.fst).Sublist (files.map Prod.fst) :=
      List.filter_sublist.map _
    rw [Decl.flatMap_identifiers hdecl, ← Function.comp_def RegisterFile.name, ← List.map_map]
    refine .map (hf.sublist hsub) (fun f _ g _ => ?_) fun f _ => ?_
    case refine_1 => cases f <;> cases g <;> decide
    case refine_2 => cases f <;> decide
  unfold fileNames FileSizes.decls
  refine hfiles (fun _ => rfl) ?_
  cases c.stage <;> simp

-- The functions of phases of one kind, and the one that runs them.
def phaseNames (kind : String) (phases : List Phase) : List String :=
  (List.range phases.length).map (phaseName kind) ++ ["hs_" ++ kind ++ "_phases"]

theorem stemmed_phaseNames {kind : String} {phases : List Phase} {phase run : String}
    (hphase : stem ("hs_" ++ kind ++ "_phase") = phase)
    (hrun : stem ("hs_" ++ kind ++ "_phases") = run) (h : phase ≠ run) :
    Stemmed [phase, run] (phaseNames kind phases) := by
  have hphases : Stemmed [phase] ((List.range phases.length).map (phaseName kind)) := by
    refine .map List.nodup_range (fun _ _ _ _ h => Nat.repr_inj.mp (append_cancel_left h)) ?_
    intro k _
    have hk : stem (phaseName kind k) = stem ("hs_" ++ kind ++ "_phase") := by simp [phaseName]
    simp [hk, hphase]
  have hruns : Stemmed [run] ["hs_" ++ kind ++ "_phases"] := .singleton (by rw [hrun]; simp)
  exact hphases.append hruns (by simp [h])

-- The functions that every program has that is lifted in the same way.
def functionNames (c : Context) : Option Phases → List String
  | none => (if c.stage ≠ .compute then ["store_outputs"] else []) ++ ["main"]
  | some phases =>
    (if phases.controlPoint.isSome then ["hs_cp_main"] else []) ++ ["hs_control_point_phase"] ++
      phaseNames "fork" phases.forks ++ phaseNames "join" phases.joins ++ ["main"]

def functionStems : List String :=
  ["store_outputs"] ++ ["hs_cp_main"] ++ ["hs_control_point_phase"] ++
    ["hs_fork_phase", "hs_fork_phases"] ++ ["hs_join_phase", "hs_join_phases"] ++ ["main"]

theorem stemmed_functionNames : Stemmed functionStems (c.functionNames phases) := by
  have hmain : Stemmed ["main"] ["main"] := .singleton (by decide)
  cases phases
  case none =>
    have hstore : Stemmed ["store_outputs"] ["store_outputs"] := .singleton (by decide)
    exact (hstore.ite.append hmain (by decide)).mono (by decide)
  case some phases =>
    have hpoint : Stemmed ["hs_cp_main"]
        (if phases.controlPoint.isSome then ["hs_cp_main"] else []) :=
      (Stemmed.singleton (by decide)).ite
    have hpoints : Stemmed ["hs_control_point_phase"] ["hs_control_point_phase"] :=
      .singleton (by decide)
    have hforks : Stemmed ["hs_fork_phase", "hs_fork_phases"] (phaseNames "fork" phases.forks) :=
      stemmed_phaseNames (by decide) (by decide) (by decide)
    have hjoins : Stemmed ["hs_join_phase", "hs_join_phases"] (phaseNames "join" phases.joins) :=
      stemmed_phaseNames (by decide) (by decide) (by decide)
    have h := (hpoint.append hpoints (by decide)).append hforks (by decide)
    exact ((h.append hjoins (by decide)).append hmain (by decide)).mono (by decide)

-- The names that a shader always has apart from each other.
def fixedNames (c : Context) (phases : Option Phases) : List String :=
  c.resources.generated c.program ++ c.temps.keys.map (fun n => (Name.temp n).text) ++
    c.program.indexableTemps.keys.map (fun n => (Name.indexableTemp n).text) ++ c.fileNames ++
    c.functionNames phases

def subroutineNames (c : Context) (phases : Option Phases) : List String :=
  if phases.isNone then c.flow.subroutines.map (subroutineName ·.label) else []

def fixedStems : List String :=
  Resources.stems ++ ["r"] ++ ["x"] ++ ["v", "o", "vicp", "vocp", "vpc", "opc"] ++ functionStems

theorem stemmed_fixedNames {d : Dialect} (hb : c.resources.Built d c.program)
    (ho : c.resources.Ordered) (ht : c.temps.Sorted) :
    Stemmed fixedStems (c.fixedNames phases) := by
  have htemps : Stemmed ["r"] (c.temps.keys.map fun n => (Name.temp n).text) :=
    .numbers "r" (by decide) ht.nodup_keys
  have harrays : Stemmed ["x"]
      (c.program.indexableTemps.keys.map fun n => (Name.indexableTemp n).text) :=
    .numbers "x" (by decide) Program.sorted_indexableTemps.nodup_keys
  have h := (Resources.stemmed_generated hb ho).append htemps (by decide)
  have h := (h.append harrays (by decide)).append (stemmed_fileNames (c := c)) (by decide)
  exact h.append stemmed_functionNames (by decide)

-- All names that come from no table.
def generated (c : Context) (phases : Option Phases) : List String :=
  c.fixedNames phases ++ c.subroutineNames phases ++ c.resources.padding c.dialect

end Context

end ShaderLift
