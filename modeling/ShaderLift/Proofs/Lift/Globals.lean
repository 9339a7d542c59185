import ShaderLift.Proofs.Lift.Generated
import ShaderLift.Proofs.Lift.Varyings

/-!
The names at the global scope of a shader. They come from reflection data, from signatures, or are
made of words and numbers. The latter never clash, neither with each other nor with those from
signatures; the others are only as different as the tables make them.
-/

namespace ShaderLift

open Glsl

namespace Glsl

-- Members of blocks and what storage blocks hold are global, since the blocks have no instances.
def Decl.globals : Decl → List String
  | uniformBlock _ _ name members => name :: members.map (·.declarator.name)
  | storage s _ _ _ => s.names
  | decl => decl.identifiers

-- The word between the type of the result and the parameters.
def Function.name (f : Function) : String :=
  .ofList ((f.signature.toList.drop "void ".length).takeWhile (· ≠ '('))

def Source.globals (s : Source) : List String :=
  s.decls.flatMap Decl.globals ++ s.functions.toList.map Function.name

theorem Function.name_eq {f : Function} {name params : String}
    (h : f.signature = "void " ++ name ++ params) (hn : IsWord name)
    (hp : params.toList.head? = some '(') : f.name = name := by
  have hname : ∀ c ∈ name.toList, decide (c ≠ '(') := by
    intro c hc
    refine decide_eq_true fun heq => ?_
    exact absurd (hn c hc) (heq ▸ by decide)
  have hparams : params.toList.takeWhile (· ≠ '(') = [] := by
    cases hlist : params.toList <;> simp_all
  have hlist : f.signature.toList.drop "void ".length = name.toList ++ params.toList := by
    rw [h, String.append_assoc, String.toList_append, String.toList_append]
    exact List.drop_left ..
  rw [Function.name, hlist, List.takeWhile_append_of_pos hname, hparams]
  simp

theorem Decl.flatMap_globals {α : Type} {decl : α → Decl} {names : α → List String}
    (h : ∀ a, (decl a).globals = names a) {l : List α} :
    (l.map decl).flatMap globals = l.flatMap names := by
  rw [List.flatMap_map]
  exact List.flatMap_congr fun a _ => h a

@[simp] theorem BlockMember.isPadding_padding {slot : UInt32} {word : Nat} :
    (padding slot word).isPadding :=
  rfl

@[simp] theorem BlockMember.isPadding_member {offset : Option UInt32} {v : Declarator} :
    (member offset v).isPadding = false :=
  rfl

@[simp] theorem BlockMember.declarator_member {offset : Option UInt32} {v : Declarator} :
    (member offset v).declarator = v :=
  rfl

end Glsl

namespace Member

variable {d : Dialect} {slot cursor : UInt32} {ms : List Member}

-- Without its padding a block has the members that it is made of.
theorem map_name_blockMembers :
    ((blockMembers d slot cursor ms).filter (!·.isPadding)).map (·.declarator.name) =
      ms.map (·.name) := by
  induction ms generalizing cursor
  case nil => rfl
  case cons m ms hi =>
    simp only [blockMembers]
    split
    case isTrue => simp [hi, declarator]
    case isFalse => simp [List.filter_map, Function.comp_def, hi, declarator]

theorem perm_blockMembers : ((blockMembers d slot cursor ms).map (·.declarator.name)).Perm
    (ms.map (·.name) ++
      ((blockMembers d slot cursor ms).filter (·.isPadding)).map (·.declarator.name)) := by
  have hsplit := (List.perm_append_comm.trans (List.filter_append_perm (·.isPadding)
    (blockMembers d slot cursor ms))).symm.map (·.declarator.name)
  rwa [List.map_append, map_name_blockMembers] at hsplit

end Member

namespace UniformBuffer

variable {d : Dialect} {slot size : UInt32} {dynamic : Bool} {buffer : Option ConstantBuffer}
  {b : UniformBuffer}

theorem perm_globals (hb : b = build d slot size dynamic buffer) :
    ((b.decls d).flatMap Decl.globals).Perm
      (b.reflected buffer ++ b.generated buffer ++ (b.decls d).flatMap Decl.paddingNames) := by
  have hname : b.blockName =
      (buffer.map (Identifier.ofString ·.name)).getD ("cb" ++ decimal b.slot ++ "_block") := by
    rw [hb]
    rfl
  cases hmembers : b.members
  case none =>
    cases hblock : b.isBlock <;> cases buffer <;>
      simp [decls, reflected, generated, hmembers, hblock, hname, Decl.globals, Decl.identifiers,
        Decl.paddingNames]
  case some ms =>
    obtain ⟨source, hsource, _⟩ := exists_of_build (hb ▸ hmembers)
    subst hsource
    cases hblock : b.isBlock
    case false =>
      have hnames : (b.decls d).flatMap Decl.globals = ms.map (·.name) := by
        simp only [decls, hmembers, hblock]
        rw [Decl.flatMap_globals fun _ => rfl, List.map_eq_flatMap]
        rfl
      have hpadding : (b.decls d).flatMap Decl.paddingNames = [] := by
        simp [decls, hmembers, hblock, List.flatMap_map, Decl.paddingNames]
      simp [hnames, hpadding, reflected, generated, hmembers, hblock]
    case true =>
      have hdecls : b.decls d = [.uniformBlock b.slot (d.has .explicitBinding) b.blockName
          (Member.blockMembers d b.slot 0 ms)] := by
        simp only [decls, hmembers, hblock]
      rw [hdecls, List.flatMap_singleton, List.flatMap_singleton, reflected, generated, hmembers,
        hblock, hname, Decl.globals, Decl.paddingNames]
      simpa using Member.perm_blockMembers

end UniformBuffer

namespace Resources

variable {d : Dialect} {p : Program} {r : Resources} {decls : List Decl}

theorem globals_samplers {samplers : List Decl} {uavs : List (List Decl)}
    (h : r.DeclParts d samplers uavs) :
    samplers.flatMap Decl.globals = r.pairs.keys.map SamplerKey.name := by
  have hsamplers := h.samplers
  have hkeys : r.pairs.keys.map SamplerKey.name = r.pairs.keys.zipIdx.map (·.1.name) := by
    rw [← Function.comp_def SamplerKey.name, ← List.map_map, List.zipIdx_map_fst]
  rw [hkeys]
  generalize r.pairs.keys.zipIdx = keys at hsamplers ⊢
  clear h
  induction hsamplers
  case nil => rfl
  case cons hmade _ hi =>
    obtain ⟨_, hdecl⟩ := exists_type_of_samplerDecl hmade
    rw [List.flatMap_cons, List.map_cons, hi, hdecl]
    rfl

theorem globals_uavDecls {slot : UInt32} {u : Uav} (h : r.uavDecls d slot u = .ok decls) :
    decls.flatMap Decl.globals = u.names slot := by
  obtain ⟨main, hdecls, hmain⟩ := uavDecls_of_eq_ok h
  have hcounter : (if u.hasCounter then [r.storageDecl d (.counter slot) []] else []).flatMap
      Decl.globals = if u.hasCounter then (Storage.counter slot).names else [] := by
    split <;> rfl
  rw [hdecls, List.flatMap_cons, hcounter, Uav.names]
  congr 1
  split at hmain
  case isTrue htyped =>
    obtain ⟨_, _, hmain⟩ := hmain
    rw [hmain, if_pos htyped]
    rfl
  case isFalse htyped =>
    obtain ⟨_, hmain⟩ := hmain
    rw [hmain, if_neg htyped]
    rfl

theorem globals_uavs {samplers : List Decl} {uavs : List (List Decl)}
    (h : r.DeclParts d samplers uavs) :
    uavs.flatten.flatMap Decl.globals = r.uavs.entries.flatMap fun e => e.2.names e.1 := by
  have huavs := h.uavs
  generalize r.uavs.entries = entries at huavs ⊢
  clear h
  induction huavs
  case nil => rfl
  case cons hmade _ hi =>
    rw [List.flatten_cons, List.flatMap_append, List.flatMap_cons, hi, globals_uavDecls hmade]

theorem globals_immediatesDecl : (r.immediatesDecl d).flatMap Decl.globals =
    if r.immediates.isSome then [Name.immediates.text] else [] := by
  unfold immediatesDecl
  cases r.immediates
  case none => rfl
  case some words =>
    rw [Option.isSome_some, if_pos rfl]
    dsimp only
    split_ifs <;> rfl

theorem perm_constants (hb : r.Built d p) :
    (r.constantBuffers.values.flatMap fun b => (b.decls d).flatMap Decl.globals).Perm
      (r.reflected p ++
        (r.constantBuffers.entries.flatMap fun e => e.2.generated (bufferAt p e.1)) ++
        r.padding d) := by
  have hperm := List.Perm.flatMap_left r.constantBuffers.entries fun e he =>
    have ⟨_, _, _, hbuild⟩ := hb.built e he
    UniformBuffer.perm_globals hbuild
  rw [SortedMap.values, List.flatMap_map, padding, SortedMap.values, List.flatMap_map, reflected]
  refine hperm.trans ((List.flatMap_append_perm ..).symm.trans ?_)
  exact (List.flatMap_append_perm ..).symm.append_right _

-- Reflected names, numbered ones and padding stand side by side for each slot.
theorem perm_globals (hb : r.Built d p) (h : r.decls d = .ok decls) :
    (decls.flatMap Decl.globals ++ (r.immediatesDecl d).flatMap Decl.globals).Perm
      (r.reflected p ++ r.generated p ++ r.padding d) := by
  obtain ⟨samplers, uavs, hparts, hdecls⟩ := exists_declParts h
  have hconstants := perm_constants hb
  have hbuffers : (r.buffers.keys.map fun slot =>
      r.storageDecl d (.resource slot) ["readonly"]).flatMap Decl.globals =
        r.buffers.keys.flatMap fun slot => (Storage.resource slot).names :=
    Decl.flatMap_globals fun _ => rfl
  have hshared {toDecl : UInt32 × SharedMemory → Decl}
      (h : ∀ e, (toDecl e).globals = [(Name.shared e.1).text]) :
      (r.shared.entries.map toDecl).flatMap Decl.globals =
        r.shared.keys.map fun slot => (Name.shared slot).text := by
    rw [Decl.flatMap_globals h, SortedMap.keys, List.map_map, List.map_eq_flatMap]
    rfl
  rw [hdecls, List.flatMap_append, List.flatMap_append, List.flatMap_append, List.flatMap_append,
    List.flatMap_assoc, globals_samplers hparts, hbuffers, globals_uavs hparts,
    hshared fun _ => rfl, globals_immediatesDecl, generated]
  rw [List.perm_iff_count] at hconstants ⊢
  intro name
  have hname := hconstants name
  simp only [List.count_append] at hname ⊢
  omega

end Resources

namespace Context

variable {c : Context} {fs : List Function} {s s' : Progress} {body : List Line}

theorem map_eq_of_forall₂ {α β γ : Type} {R : α → β → Prop} {l : List α} {l' : List β} {f : α → γ}
    {g : β → γ} (h : List.Forall₂ R l l') (hR : ∀ a b, R a b → g b = f a) :
    l'.map g = l.map f := by
  induction h
  case nil => rfl
  case cons hab _ hi => rw [List.map_cons, List.map_cons, hi, hR _ _ hab]

theorem names_of_subroutines {subs : List Subroutine}
    (h : (c.subroutines subs).run s = .ok (fs, s')) :
    fs.map Function.name = subs.map (subroutineName ·.label) :=
  map_eq_of_forall₂ (liftsTo_of_subroutines h) fun _ _ hf =>
    Function.name_eq hf.signature isWord_subroutineName rfl

theorem names_of_phaseFunctions {kind : String} (hk : IsWord kind) {k : Nat} {phases : List Phase}
    (h : (c.phaseFunctions kind k phases).run s = .ok (fs, s')) :
    fs.map Function.name = (List.range' k phases.length).map (phaseName kind) := by
  rw [← List.zipIdx_map_snd, List.map_map]
  exact map_eq_of_forall₂ (phaseTo_of_phaseFunctions h) fun _ _ hf =>
    Function.name_eq hf.signature (isWord_phaseName hk) rfl

theorem names_of_patchFunctions {kind : String} (hk : IsWord kind) {phases : List Phase}
    {after : List Line} (h : (c.patchFunctions kind phases after).run s = .ok (fs, s')) :
    fs.map Function.name = phaseNames kind phases := by
  obtain ⟨gs, t, hgs, h⟩ := Emit.run_bind_eq_ok.mp h
  obtain ⟨hfs, _⟩ := Emit.run_pure_eq_ok.mp h
  have hrun : IsWord ("hs_" ++ kind ++ "_phases") := by simp +decide [hk]
  have hname {body : List Line} : Function.name ⟨"void hs_" ++ kind ++ "_phases()", body⟩ =
      "hs_" ++ kind ++ "_phases" := by
    have hvoid : "void hs_" = "void " ++ "hs_" := by decide
    have hphases : "_phases()" = "_phases" ++ "()" := by decide
    have hsignature : "void hs_" ++ kind ++ "_phases()" =
        "void " ++ ("hs_" ++ kind ++ "_phases") ++ "()" := by
      simp only [hvoid, hphases, String.append_assoc]
    exact Function.name_eq hsignature hrun rfl
  rw [← hfs, List.map_append, names_of_phaseFunctions hk hgs, phaseNames, List.range_eq_range',
    List.map_singleton, hname]

theorem name_main : Function.name ⟨"void main()", body⟩ = "main" :=
  Function.name_eq (show "void main()" = "void " ++ "main" ++ "()" by decide) (by decide) rfl

theorem name_store : Function.name ⟨"void store_outputs()", body⟩ = "store_outputs" :=
  Function.name_eq (show "void store_outputs()" = "void " ++ "store_outputs" ++ "()" by decide)
    (by decide) rfl

theorem name_controlPoint :
    Function.name ⟨"void hs_control_point_phase()", body⟩ = "hs_control_point_phase" :=
  Function.name_eq (show "void hs_control_point_phase()" =
    "void " ++ "hs_control_point_phase" ++ "()" by decide) (by decide) rfl

theorem name_controlPointBody : Function.name ⟨"void hs_cp_main()", body⟩ = "hs_cp_main" :=
  Function.name_eq (show "void hs_cp_main()" = "void " ++ "hs_cp_main" ++ "()" by decide)
    (by decide) rfl

theorem names_of_controlPointFunctions {phase : Option Phase}
    (h : (c.controlPointFunctions phase).run s = .ok (fs, s')) :
    fs.map Function.name =
      (if phase.isSome then ["hs_cp_main"] else []) ++ ["hs_control_point_phase"] := by
  cases phase
  case none =>
    obtain ⟨hfs, _⟩ := Emit.run_pure_eq_ok.mp h
    simp [← hfs, name_controlPoint]
  case some phase =>
    obtain ⟨body, t, hbody, h⟩ := Emit.run_bind_eq_ok.mp h
    obtain ⟨hfs, _⟩ := Emit.run_pure_eq_ok.mp h
    simp [← hfs, name_controlPoint, name_controlPointBody]

theorem names_of_write {phases : Option Phases} {functions : Functions}
    (h : (c.write phases).run s = .ok (functions, s')) :
    functions.toList.map Function.name = c.functionNames phases ++ c.subroutineNames phases := by
  cases phases
  case none =>
    obtain ⟨subs, t, hsubs, h⟩ := Emit.run_bind_eq_ok.mp h
    obtain ⟨body, t', hbody, h⟩ := Emit.run_bind_eq_ok.mp h
    obtain ⟨hfunctions, _⟩ := Emit.run_pure_eq_ok.mp h
    subst hfunctions
    rw [Functions.toList, List.map_append, List.map_cons, names_of_subroutines hsubs,
      name_main]
    by_cases hc : c.stage = .compute <;> simp [functionNames, subroutineNames, hc, name_store]
  case some phases =>
    obtain ⟨points, t, hpoints, h⟩ := Emit.run_bind_eq_ok.mp h
    obtain ⟨forks, t', hforks, h⟩ := Emit.run_bind_eq_ok.mp h
    obtain ⟨joins, t'', hjoins, h⟩ := Emit.run_bind_eq_ok.mp h
    obtain ⟨hfunctions, _⟩ := Emit.run_pure_eq_ok.mp h
    have hmain : c.hullMain.name = "main" := name_main
    subst hfunctions
    simp [Functions.toList, names_of_controlPointFunctions hpoints,
      names_of_patchFunctions (by decide) hforks, names_of_patchFunctions (by decide) hjoins, hmain,
      functionNames, subroutineNames]

-- What the interface is built for.
def border (c : Context) : Border :=
  { dialect := c.dialect, options := c.options, stage := c.stage, sizes := c.sizes }

variable {phases : Option Phases}

theorem globals_registerDecls : c.registerDecls.flatMap Decl.globals =
    c.temps.keys.map (fun n => (Name.temp n).text) ++
      c.program.indexableTemps.keys.map (fun n => (Name.indexableTemp n).text) ++ c.fileNames := by
  rw [fileNames, ← flatMap_registerDecls]
  refine List.flatMap_congr fun decl hd => ?_
  simp only [registerDecls, FileSizes.decls, List.mem_append, List.mem_map] at hd
  obtain (⟨_, _, rfl⟩ | ⟨_, _, rfl⟩) | ⟨_, _, rfl⟩ := hd
  all_goals rfl

theorem stem_subroutineNames : ∀ name ∈ c.subroutineNames phases, stem name = "sub_l" := by
  unfold subroutineNames
  split
  case isTrue =>
    refine List.forall_mem_map.mpr fun sub _ => ?_
    rw [subroutineName, stem_append, stem_decimal]
    decide
  case isFalse => exact List.forall_mem_nil _

end Context

theorem Glsl.Decl.stem_paddingNames {decl : Decl} :
    ∀ name ∈ decl.paddingNames, stem name = "_pad_" := by
  cases decl
  case uniformBlock members =>
    refine List.forall_mem_map.mpr fun m hm => ?_
    have hm := (List.mem_filter.mp hm).right
    cases m
    case member => cases hm
    case padding => simp +decide [BlockMember.declarator]
  all_goals exact List.forall_mem_nil _

theorem Resources.stem_padding {d : Dialect} {r : Resources} :
    ∀ name ∈ r.padding d, stem name = "_pad_" :=
  List.forall_mem_flatMap.mpr fun _ _ =>
    List.forall_mem_flatMap.mpr fun _ _ => Decl.stem_paddingNames

theorem Flow.nodup_labels {insts : List Instruction} {arena : Arena} {flow : Flow}
    (h : ofInstructions insts arena = .ok flow) : (flow.subroutines.map (·.label)).Nodup := by
  obtain ⟨s, hrun, _, _, hflow⟩ := ofInstructions_ok_iff.mp h
  have hlabels := (Labelled.of_run hrun).distinct
  rw [← Scan.labels_endSubroutine (i := insts.length)] at hlabels
  subst hflow
  exact hlabels.sublist (List.sublist_append_left ..)

namespace Program

variable {p : Program} {o : Options} {s : Shader} {c : Context} {phases : Option Phases}

-- Reflection data gives the name, to a constant buffer or to one of its variables.
def Reflects (p : Program) (name : String) : Prop :=
  ∃ buffer ∈ p.constantBuffers, name = Identifier.ofString buffer.name ∨
    ∃ v ∈ buffer.members, name = Identifier.ofString v.name

section Lifted

variable (l : p.Lifted o s c phases)

include l

theorem Lifted.perm_globals : ∃ sig : SignatureClass → Signature,
    (∀ kind, p.signature phases kind = .ok (sig kind)) ∧
      s.source.globals.Perm
        (c.resources.reflected p ++ c.border.names sig ++ c.generated phases) := by
  obtain ⟨sig, hsig, hvars⟩ := Interface.names_of_build l.interface
  obtain ⟨layouts, resources, hlayouts, hresources, hdecls⟩ := Context.exists_parts l.decls
  obtain ⟨_, hrun, _⟩ := l.written
  refine ⟨sig, hsig, ?_⟩
  have hborder : c.border =
      { dialect := c.dialect, options := o, stage := p.stage, sizes := c.sizes } := by
    rw [Context.border, Context.stage, l.options, l.program]
  have hperm := Resources.perm_globals (Resources.built_of_collect l.resources) hresources
  have hlayouts : layouts.flatMap Decl.globals = [] := by
    refine List.flatMap_eq_nil_iff.mpr fun decl hd => ?_
    have hlayout := hlayouts decl hd
    cases decl
    case stageLayout | depthLayout => rfl
    all_goals cases hlayout
  have hinterface : (c.interface.vars.map Decl.interface).flatMap Decl.globals =
      c.border.names sig := by
    rw [hborder, ← hvars, Decl.flatMap_globals fun _ => rfl, List.map_eq_flatMap]
    rfl
  rw [Source.globals, hdecls, Context.names_of_write hrun, Context.generated, Context.fixedNames,
    List.flatMap_append, List.flatMap_append, List.flatMap_append, List.flatMap_append, hlayouts,
    hinterface, Context.globals_registerDecls, l.program]
  rw [List.perm_iff_count] at hperm ⊢
  intro name
  have hname := hperm name
  simp only [List.count_append, List.count_nil] at hname ⊢
  omega

theorem Lifted.reflects : ∀ name ∈ c.resources.reflected p, p.Reflects name := by
  refine List.forall_mem_flatMap.mpr fun e he => ?_
  obtain ⟨size, dynamic, _, hb⟩ := (Resources.built_of_collect l.resources).built e he
  refine List.forall_mem_append.mpr ⟨?block, List.forall_mem_map.mpr fun m hm => ?member⟩
  case block =>
    intro name hname
    simp only [List.mem_ite_nil_right, Option.mem_toList, Option.map_eq_some_iff] at hname
    obtain ⟨_, buffer, hbuffer, hname⟩ := hname
    exact ⟨buffer, List.mem_of_find?_eq_some hbuffer, .inl hname.symm⟩
  case member =>
    cases hmembers : e.2.members
    case none => simp [hmembers] at hm
    case some ms =>
      obtain ⟨buffer, hbuffer, hsource, _⟩ := UniformBuffer.exists_of_build (hb ▸ hmembers)
      have hm : (m.name, m.offset) ∈ ms.map fun m => (m.name, m.offset) :=
        List.mem_map_of_mem (by simpa [hmembers] using hm)
      obtain ⟨v, hv, hname⟩ := List.mem_map.mp ((Member.perm_of_ofBuffer hsource).mem_iff.mp hm)
      refine ⟨buffer, List.mem_of_find?_eq_some hbuffer, .inr ⟨v, hv, ?_⟩⟩
      exact (congrArg Prod.fst hname).symm

theorem Lifted.stemmed_fixedNames : Stemmed Context.fixedStems (c.fixedNames phases) := by
  obtain ⟨_, _, htemps, _⟩ := exists_written l.temps
  have hbuilt := Resources.built_of_collect l.resources
  exact Context.stemmed_fixedNames (l.program ▸ hbuilt) (Resources.ordered_of_collect l.resources)
    htemps

theorem Lifted.stem_generated : ∀ name ∈ c.generated phases,
    stem name ∈ Context.fixedStems ++ ["sub_l"] ++ ["_pad_"] := by
  refine List.forall_mem_append.mpr ⟨List.forall_mem_append.mpr ⟨?_, ?_⟩, ?_⟩
  case refine_1 =>
    exact fun name h => List.mem_append_left _ (List.mem_append_left _
      (l.stemmed_fixedNames.stems name h))
  case refine_2 =>
    exact fun name h => by simp [Context.stem_subroutineNames name h]
  case refine_3 => exact fun name h => by simp [Resources.stem_padding name h]

theorem Lifted.notMem_generated {sig : SignatureClass → Signature} {name : String}
    (h : name ∈ c.border.names sig) : name ∉ c.generated phases := by
  intro hname
  obtain ⟨word, hword, hprefix⟩ := Border.exists_word_of_mem_names h
  have hstems : ∀ t ∈ Context.fixedStems ++ ["sub_l"] ++ ["_pad_"], ∀ word ∈ Border.words,
      ¬word.toList <+: t.toList := by
    decide
  exact hstems _ (l.stem_generated name hname) word hword hprefix

theorem Lifted.nodup_generated_iff : (c.generated phases).Nodup ↔
    (c.subroutineNames phases).Nodup ∧ (c.resources.padding c.dialect).Nodup := by
  have hfixed := l.stemmed_fixedNames
  constructor
  case mp =>
    intro h
    obtain ⟨h, hpadding, _⟩ := List.nodup_append.mp h
    exact ⟨(List.nodup_append.mp h).right.left, hpadding⟩
  case mpr =>
    intro ⟨hsubs, hpadding⟩
    have hsubs : Stemmed ["sub_l"] (c.subroutineNames phases) :=
      ⟨hsubs, fun name h => by simp [Context.stem_subroutineNames name h]⟩
    have hpadding : Stemmed ["_pad_"] (c.resources.padding c.dialect) :=
      ⟨hpadding, fun name h => by simp [Resources.stem_padding name h]⟩
    exact ((hfixed.append hsubs (by decide)).append hpadding (by decide)).nodup

theorem Lifted.nodup_subroutineNames
    (h : ∀ flow, p.flow = some flow → Flow.ofInstructions p.instructions p.operands = .ok flow) :
    (c.subroutineNames phases).Nodup := by
  have hflow : Flow.ofInstructions p.instructions p.operands = .ok c.flow := by
    have hrequire := l.flow
    unfold requireFlow at hrequire
    split at hrequire
    case h_1 flow hp => exact Except.ok.inj hrequire ▸ h flow hp
    case h_2 => exact mapError_eq_ok_iff.mp hrequire
  unfold Context.subroutineNames
  split
  case isFalse => exact List.nodup_nil
  case isTrue =>
    have hnames := (Flow.nodup_labels hflow).map (f := subroutineName) fun _ _ h =>
      decimal_inj.mp (append_cancel_left h)
    rwa [List.map_map] at hnames

theorem Lifted.nodup_padding (h : ∀ b ∈ c.resources.constantBuffers.values, b.EndsInRange) :
    (c.resources.padding c.dialect).Nodup := by
  obtain ⟨_, resources, _, hresources, _⟩ := Context.exists_parts l.decls
  have hnodup :=
    Resources.nodup_paddingNames (Resources.built_of_collect l.resources) h hresources
  rwa [Resources.flatMap_paddingNames hresources] at hnodup

end Lifted

theorem lift_globals_nodup_iff (h : p.lift o = .ok s) :
    ∃ c phases, ∃ sig : SignatureClass → Signature, p.Lifted o s c phases ∧
      (∀ kind, p.signature phases kind = .ok (sig kind)) ∧
      s.source.globals.Perm
        (c.resources.reflected p ++ c.border.names sig ++ c.generated phases) ∧
      (∀ name ∈ c.resources.reflected p, p.Reflects name) ∧
      (s.source.globals.Nodup ↔
        (c.resources.reflected p).Nodup ∧
          (∀ kind, ((sig kind).filterMap (c.border.name? kind)).Nodup) ∧
          (∀ name ∈ c.resources.reflected p,
            name ∉ c.border.names sig ∧ name ∉ c.generated phases) ∧
          (c.subroutineNames phases).Nodup ∧ (c.resources.padding c.dialect).Nodup) ∧
      ((∀ flow, p.flow = some flow →
        Flow.ofInstructions p.instructions p.operands = .ok flow) →
          (c.subroutineNames phases).Nodup) ∧
      ((∀ b ∈ c.resources.constantBuffers.values, b.EndsInRange) →
        (c.resources.padding c.dialect).Nodup) := by
  obtain ⟨c, phases, l⟩ := exists_lifted h
  obtain ⟨sig, hsig, hperm⟩ := l.perm_globals
  refine ⟨c, phases, sig, l, hsig, hperm, l.reflects, ?_, l.nodup_subroutineNames, l.nodup_padding⟩
  rw [hperm.nodup_iff, List.nodup_append, List.nodup_append, l.nodup_generated_iff,
    Border.nodup_names_iff]
  constructor
  case mp =>
    intro ⟨⟨hreflected, hnames, hapart⟩, hgenerated, hdistinct⟩
    refine ⟨hreflected, hnames, fun name h => ⟨fun hn => ?_, fun hg => ?_⟩, hgenerated⟩
    case refine_1 => exact hapart name h name hn rfl
    case refine_2 => exact hdistinct name (List.mem_append_left _ h) name hg rfl
  case mpr =>
    intro ⟨hreflected, hnames, hapart, hgenerated⟩
    refine ⟨⟨hreflected, hnames, fun a ha b hb heq => ?_⟩, hgenerated, fun a ha b hb heq => ?_⟩
    case refine_1 => exact (hapart a ha).left (heq ▸ hb)
    case refine_2 =>
      cases List.mem_append.mp ha
      case inl ha => exact (hapart a ha).right (heq ▸ hb)
      case inr ha => exact l.notMem_generated ha (heq ▸ hb)

-- `mov o0, cb0[0]`
def copiesConstant : List UInt32 :=
  [0x50, 16, 0x04000059, 0x00208e46, 0, 1, 0x03000065, 0x001020f2, 0, 0x06000036, 0x001020f2, 0,
    0x00208e46, 0, 0, 0x0100003e]

-- The program with a name for its constant.
def withConstant (p : Program) (name : String) : Program :=
  p.withConstantBuffers [⟨"Params", 0, 16, [⟨name, 0, 16, .vector .float 4⟩]⟩]

theorem lift_globals_nodup_iff_tint : ∃ p linked s c phases, ∃ sig : SignatureClass → Signature,
    decode copiesConstant = .ok p ∧ (p.withConstant "tint").link = .ok linked ∧
    linked.lift {} = .ok s ∧
    s.source.globals = ["Params", "tint", "out_Target0", "o", "store_outputs", "main"] ∧
    linked.Lifted {} s c phases ∧ (c.resources.reflected linked).Nodup ∧
    (∀ kind, ((sig kind).filterMap (c.border.name? kind)).Nodup) ∧
    ∀ name ∈ c.resources.reflected linked,
      linked.Reflects name ∧ name ∉ c.border.names sig ∧ name ∉ c.generated phases := by
  obtain ⟨p, hdecode, linked, hlink, s, hs, hglobals⟩ : ∃ p, decode copiesConstant = .ok p ∧
      ∃ linked, (p.withConstant "tint").link = .ok linked ∧ ∃ s, linked.lift {} = .ok s ∧
        s.source.globals = ["Params", "tint", "out_Target0", "o", "store_outputs", "main"] := by
    decide +kernel
  obtain ⟨c, phases, sig, l, _, _, hreflects, hiff, _⟩ := lift_globals_nodup_iff hs
  have hnodup : s.source.globals.Nodup := by
    rw [hglobals]
    decide
  obtain ⟨hreflected, hnames, hapart, _⟩ := hiff.mp hnodup
  exact ⟨p, linked, s, c, phases, sig, hdecode, hlink, hs, hglobals, l, hreflected, hnames,
    fun name h => ⟨hreflects name h, hapart name h⟩⟩

-- A constant that has the name of the array of outputs.
theorem globals_clash_outputs : ∃ p linked s, decode copiesConstant = .ok p ∧
    (p.withConstant "o").link = .ok linked ∧ linked.lift {} = .ok s ∧
    s.source.globals = ["Params", "o", "out_Target0", "o", "store_outputs", "main"] ∧
    ¬s.source.globals.Nodup := by
  obtain ⟨p, hdecode, linked, hlink, s, hs, hglobals⟩ : ∃ p, decode copiesConstant = .ok p ∧
      ∃ linked, (p.withConstant "o").link = .ok linked ∧ ∃ s, linked.lift {} = .ok s ∧
        s.source.globals = ["Params", "o", "out_Target0", "o", "store_outputs", "main"] := by
    decide +kernel
  refine ⟨p, linked, s, hdecode, hlink, hs, hglobals, ?_⟩
  rw [hglobals]
  decide

end Program

end ShaderLift
