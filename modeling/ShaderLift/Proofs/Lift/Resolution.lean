import ShaderLift.Proofs.Glsl.Identifiers
import ShaderLift.Proofs.Lift.Declared
import ShaderLift.Proofs.Lift.References

/-!
The names of resources and subroutines. Functions name only what the shader declares, each by the
entry that the name was looked up in, and the host can bind all of it.
-/

namespace ShaderLift

open Glsl

namespace Glsl

-- The host finds a declared resource by its name, with the slot or binding that is declared.
def HostBindings.Lists (b : HostBindings) : Decl → Prop
  | .uniformBlock slot _ name _ => (name, slot) ∈ b.uniformBlocks
  | .uniform slot offset v => (v.name, slot, offset) ∈ b.uniforms
  | .sampler unit _ _ _ key => ⟨key, unit⟩ ∈ b.samplers
  | .storage storage binding _ _ => (storage.blockName, binding) ∈ b.storageBuffers
  | .image slot binding _ _ _ _ => ((Name.image slot).text, binding) ∈ b.images
  | _ => True

theorem HostBindings.lists_ofDecls {decls : List Decl} {decl : Decl} (h : decl ∈ decls) :
    (ofDecls decls).Lists decl := by
  cases decl
  case uniformBlock | uniform | sampler | storage | image =>
    exact List.mem_filterMap.mpr ⟨_, h, rfl⟩
  all_goals trivial

def Decl.constantSlot? : Decl → Option UInt32
  | uniformBlock slot _ _ _ | uniform slot _ _ => some slot
  | _ => none

-- Names that stand neither for a resource nor for a subroutine.
def Name.IsLocal : Name → Prop
  | temp _ | indexableTemp _ | file _ | varying _ | builtin _ | scratch _ | phaseInstance
  | loopIndex => True
  | _ => False

end Glsl

structure Shader.Declares (s : Shader) (decl : Decl) (name : Name) : Prop where
  mem        : decl ∈ s.source.decls
  identifier : name.text ∈ decl.identifiers
  written    : ∃ line ∈ decl.lines, Introduces line name.text
  listed     : s.bindings.Lists decl

-- A name of a resource or subroutine, with the entry that it was looked up in and its declaration.
inductive Resolved (c : Context) (s : Shader) : Name → Prop
  | constants {slot buffer decl} (entry : c.resources.constantBuffers.get? slot = some buffer)
      (raw : buffer.members = none) (made : decl ∈ buffer.decls c.dialect)
      (slot_eq : decl.constantSlot? = some slot) (declared : s.Declares decl (.constants slot)) :
      Resolved c s (.constants slot)
  | member {slot buffer members m decl}
      (entry : c.resources.constantBuffers.get? slot = some buffer)
      (named : buffer.members = some members) (mem : m ∈ members)
      (made : decl ∈ buffer.decls c.dialect) (slot_eq : decl.constantSlot? = some slot)
      (declared : s.Declares decl (.member m.name)) : Resolved c s (.member m.name)
  | immediates {words type length rows} (entry : c.resources.immediates = some words)
      (declared : s.Declares (.immediates type length rows) .immediates) :
      Resolved c s .immediates
  | sampler {key unit visible precision type} (entry : c.resources.pairs.keys[unit]? = some key)
      (made : c.resources.samplerDecl c.dialect key unit =
        .ok (.sampler unit visible precision type key))
      (declared : s.Declares (.sampler unit visible precision type key) (.sampler key)) :
      Resolved c s (.sampler key)
  | resourceData {slot layout qualifiers} (entry : c.resources.buffers.get? slot = some layout)
      (declared : s.Declares (c.resources.storageDecl c.dialect (.resource slot) qualifiers)
        (.resourceData slot)) : Resolved c s (.resourceData slot)
  | uavData {slot uav layout qualifiers} (entry : c.resources.uavs.get? slot = some uav)
      (kind : uav.kind = .buffer layout)
      (declared : s.Declares (c.resources.storageDecl c.dialect (.uav slot) qualifiers)
        (.uavData slot)) : Resolved c s (.uavData slot)
  | counter {slot uav qualifiers} (entry : c.resources.uavs.get? slot = some uav)
      (has : uav.hasCounter)
      (declared : s.Declares (c.resources.storageDecl c.dialect (.counter slot) qualifiers)
        (.counter slot)) : Resolved c s (.counter slot)
  | image {slot uav dimension returnType visible qualifiers type}
      (entry : c.resources.uavs.get? slot = some uav)
      (kind : uav.kind = .typed dimension returnType)
      (declared : s.Declares (.image slot (c.resources.imageBinding slot) visible uav.format
        qualifiers type) (.image slot)) : Resolved c s (.image slot)
  | shared {slot memory} (entry : c.resources.shared.get? slot = some memory)
      (declared : s.Declares (.shared slot (max memory.words 1)) (.shared slot)) :
      Resolved c s (.shared slot)
  | subroutine {label sub store labels main functions f}
      (entry : c.flow.subroutine? label = some sub)
      (written : s.source.functions = .single store labels main functions)
      (declared : label ∈ labels) (defined : f ∈ functions) (lifts : c.LiftsTo sub f)
      (signature : f.signature = "void " ++ subroutineName label ++ "()") :
      Resolved c s (.verbatim (subroutineName label))
  | other {name} (h : name.IsLocal) : Resolved c s name

namespace UniformBuffer

variable {d : Dialect} {b : UniformBuffer}

theorem constantSlot?_of_mem_decls : ∀ decl ∈ b.decls d, decl.constantSlot? = some b.slot := by
  simp only [decls]
  split
  case h_4 => exact List.forall_mem_map.mpr fun _ _ => rfl
  all_goals exact List.forall_mem_singleton.mpr rfl

theorem exists_decl_of_raw (h : b.members = none) :
    ∃ decl ∈ b.decls d, (Name.constants b.slot).text ∈ decl.identifiers := by
  unfold decls
  simp only [h]
  cases b.isBlock
  case false => exact ⟨_, List.mem_singleton.mpr rfl, List.mem_singleton.mpr rfl⟩
  case true => exact ⟨_, List.mem_singleton.mpr rfl, List.mem_singleton.mpr rfl⟩

theorem mem_blockMembers (slot cursor : UInt32) {ms : List Member} {m : Member} (h : m ∈ ms) :
    ∃ offset, .member offset (m.declarator d) ∈ Member.blockMembers d slot cursor ms := by
  induction ms generalizing cursor
  case nil => cases h
  case cons m' ms hi =>
    simp only [Member.blockMembers]
    cases List.mem_cons.mp h
    case inl h =>
      subst h
      split
      case isTrue => exact ⟨_, List.mem_cons_self⟩
      case isFalse => exact ⟨_, List.mem_append_right _ List.mem_cons_self⟩
    case inr h =>
      obtain ⟨offset, hm⟩ := hi (m'.offset + m'.size) h
      split
      case isTrue => exact ⟨offset, List.mem_cons_of_mem _ hm⟩
      case isFalse => exact ⟨offset, List.mem_append_right _ (List.mem_cons_of_mem _ hm)⟩

theorem exists_decl_of_named {ms : List Member} {m : Member} (h : b.members = some ms)
    (hm : m ∈ ms) : ∃ decl ∈ b.decls d, (Name.member m.name).text ∈ decl.identifiers := by
  unfold decls
  simp only [h]
  cases b.isBlock
  case false => exact ⟨_, List.mem_map_of_mem hm, List.mem_singleton.mpr rfl⟩
  case true =>
    have ⟨offset, hm⟩ := mem_blockMembers (d := d) b.slot 0 hm
    exact ⟨_, List.mem_singleton.mpr rfl, List.mem_map.mpr ⟨_, hm, rfl⟩⟩

end UniformBuffer

namespace Resources

variable {d : Dialect} {r : Resources} {decls : List Decl} {slot : UInt32}

section

variable (h : r.decls d = .ok decls)

include h

theorem mem_decls_of_buffer {b : UniformBuffer} (hb : r.constantBuffers.get? slot = some b) :
    ∀ decl ∈ b.decls d, decl ∈ decls := by
  have ⟨_, _, _, hdecls⟩ := exists_declParts h
  intro decl hd
  have hmem := List.mem_flatMap_of_mem (SortedMap.mem_values_of_get? hb) hd
  simp [hdecls, hmem]

theorem exists_sampler_of_mem_keys {key : SamplerKey} (hk : key ∈ r.pairs.keys) :
    ∃ unit visible precision type, r.pairs.keys[unit]? = some key ∧
      r.samplerDecl d key unit = .ok (.sampler unit visible precision type key) ∧
        .sampler unit visible precision type key ∈ decls := by
  have ⟨samplers, uavs, hparts, hdecls⟩ := exists_declParts h
  have ⟨unit, hunit⟩ := List.mem_iff_getElem?.mp hk
  have hmem : (key, unit) ∈ r.pairs.keys.zipIdx := List.mem_zipIdx_iff_getElem?.mpr hunit
  have ⟨decl, hd, hmade⟩ := exists_mem_of_forall₂ hparts.samplers.flip hmem
  have ⟨type, htype⟩ := exists_type_of_samplerDecl hmade
  subst htype
  exact ⟨unit, _, _, type, hunit, hmade, by simp [hdecls, hd]⟩

theorem mem_decls_of_resource {layout : MemoryLayout} (hb : r.buffers.get? slot = some layout) :
    r.storageDecl d (.resource slot) ["readonly"] ∈ decls := by
  have ⟨_, _, _, hdecls⟩ := exists_declParts h
  have hslot : slot ∈ r.buffers.keys := List.mem_map_of_mem (SortedMap.mem_entries_of_get? hb)
  have hmem := List.mem_map_of_mem (f := fun slot => r.storageDecl d (.resource slot) ["readonly"])
    hslot
  simp [hdecls, hmem]

theorem exists_mem_decls_of_uav {u : Uav} (hu : r.uavs.get? slot = some u) :
    ∃ views, r.UavDecls d slot u views ∧ ∀ decl ∈ views, decl ∈ decls := by
  have ⟨samplers, uavs, hparts, hdecls⟩ := exists_declParts h
  have ⟨views, hviews, hmade⟩ :=
    exists_mem_of_forall₂ hparts.uavs.flip (SortedMap.mem_entries_of_get? hu)
  refine ⟨views, uavDecls_of_eq_ok hmade, fun decl hd => ?_⟩
  have hmem : decl ∈ uavs.flatten := List.mem_flatten_of_mem hviews hd
  simp [hdecls, hmem]

theorem mem_decls_of_shared {m : SharedMemory} (hm : r.shared.get? slot = some m) :
    .shared slot (max m.words 1) ∈ decls := by
  have ⟨_, _, _, hdecls⟩ := exists_declParts h
  have hmem := List.mem_map_of_mem (f := fun e => Decl.shared e.1 (max e.2.words 1))
    (SortedMap.mem_entries_of_get? hm)
  simp only [hdecls]
  exact List.mem_append_right _ hmem

end

theorem exists_immediatesDecl {words : List UInt32} (h : r.immediates = some words) :
    ∃ type length rows, .immediates type length rows ∈ r.immediatesDecl d := by
  simp only [immediatesDecl, h]
  split_ifs <;> exact ⟨_, _, _, List.mem_singleton.mpr rfl⟩

end Resources

variable {p : Program} {o : Options} {s : Shader} {c : Context} {phases : Option Phases}

theorem Program.lists_of_lift (h : p.lift o = .ok s) :
    ∀ decl ∈ s.source.decls, s.bindings.Lists decl := by
  have ⟨c, _, _, hbindings⟩ := exists_lifted_bindings h
  intro decl hd
  have hlists := HostBindings.lists_ofDecls hd
  rw [hbindings]
  cases decl <;> exact hlists

namespace Program.Lifted

variable (l : p.Lifted o s c phases) (h : p.lift o = .ok s)

include l

theorem exists_resources : ∃ resources, c.resources.decls c.dialect = .ok resources ∧
    (∀ decl ∈ resources, decl ∈ s.source.decls) ∧
      ∀ decl ∈ c.resources.immediatesDecl c.dialect, decl ∈ s.source.decls := by
  have ⟨layouts, resources, _, hresources, hdecls⟩ := Context.exists_parts l.decls
  refine ⟨resources, hresources, fun decl hd => ?_, fun decl hd => ?_⟩
  case refine_1 => simp [hdecls, hd]
  case refine_2 => simp [hdecls, hd]

theorem resolved_subroutine {label : UInt32} {sub : Subroutine} (hs : p.stage ≠ .hull)
    (entry : c.flow.subroutine? label = some sub) :
    Resolved c s (.verbatim (subroutineName label)) := by
  have ⟨_, hrun, _⟩ := l.written
  have hphases : phases = none := by
    have hhull := mt l.hull.mp hs
    simpa using hhull
  subst hphases
  have ⟨subs, t, hsubs, hrun⟩ := Emit.run_bind_eq_ok.mp hrun
  have ⟨body, t', _, hrun⟩ := Emit.run_bind_eq_ok.mp hrun
  have ⟨hwritten, _⟩ := Emit.run_pure_eq_ok.mp hrun
  have hlabel : sub.label = label := by simpa using List.find?_some entry
  have hmem : sub ∈ c.flow.subroutines := List.mem_of_find?_eq_some entry
  have ⟨f, hf, hlifts⟩ := exists_mem_of_forall₂ (Context.liftsTo_of_subroutines hsubs).flip hmem
  have hlabels : label ∈ c.flow.subroutines.map (·.label) := hlabel ▸ List.mem_map_of_mem hmem
  exact .subroutine entry hwritten.symm hlabels hf hlifts (hlabel ▸ hlifts.signature)

include h

theorem resolved {name : Name} (hn : c.References name) : Resolved c s name := by
  have ⟨resources, hresources, hmem, himmediates⟩ := l.exists_resources
  have declares {decl : Decl} {name : Name} (hd : decl ∈ s.source.decls)
      (hn : name.text ∈ decl.identifiers) : s.Declares decl name :=
    ⟨hd, hn, Decl.exists_line_introduces hn, lists_of_lift h decl hd⟩
  have only {decl : Decl} {name : Name} (hd : decl ∈ resources)
      (hn : decl.identifiers = [name.text]) : s.Declares decl name :=
    declares (hmem decl hd) (hn ▸ List.mem_singleton_self _)
  have slot_eq {slot : UInt32} {buffer : UniformBuffer}
      (entry : c.resources.constantBuffers.get? slot = some buffer) : buffer.slot = slot :=
    (Resources.built_of_collect l.resources).slot_eq (SortedMap.mem_entries_of_get? entry)
  -- A name in a function keeps the entry that it was made from, and each entry has its declaration.
  cases hn
  case inr hn =>
    cases name
    case file | varying | builtin | loopIndex => exact .other trivial
    all_goals cases hn
  case inl hn =>
    cases hn
    case constants slot buffer entry raw =>
      have hslot := slot_eq entry
      have ⟨decl, hd, hid⟩ := UniformBuffer.exists_decl_of_raw (d := c.dialect) raw
      have hmade := hmem decl (Resources.mem_decls_of_buffer hresources entry decl hd)
      have hsl := UniformBuffer.constantSlot?_of_mem_decls decl hd
      rw [hslot] at hid hsl ⊢
      exact .constants entry raw hd hsl (declares hmade hid)
    case member slot buffer members m entry named mem =>
      have ⟨decl, hd, hid⟩ := UniformBuffer.exists_decl_of_named (d := c.dialect) named mem
      have hmade := hmem decl (Resources.mem_decls_of_buffer hresources entry decl hd)
      have hsl := UniformBuffer.constantSlot?_of_mem_decls decl hd
      exact .member entry named mem hd (slot_eq entry ▸ hsl) (declares hmade hid)
    case immediates entry =>
      have ⟨words, entry⟩ := Option.ne_none_iff_exists'.mp entry
      have ⟨type, length, rows, hd⟩ := Resources.exists_immediatesDecl (d := c.dialect) entry
      exact .immediates entry (declares (himmediates _ hd) (List.mem_singleton_self _))
    case sampler key entry =>
      have ⟨unit, visible, precision, type, hunit, hmade, hd⟩ :=
        Resources.exists_sampler_of_mem_keys hresources entry
      exact .sampler hunit hmade (only hd rfl)
    case resourceData slot layout entry =>
      exact .resourceData entry (only (Resources.mem_decls_of_resource hresources entry) rfl)
    case uavData slot uav layout entry kind =>
      obtain ⟨views, ⟨main, hviews, hmain⟩, hd⟩ :=
        Resources.exists_mem_decls_of_uav hresources entry
      rw [if_neg (by simp [Uav.isTyped, kind])] at hmain
      obtain ⟨qualifiers, hmain⟩ := hmain
      have hd : main ∈ resources := hd main (hviews ▸ List.mem_cons_self)
      subst hmain
      exact .uavData entry kind (only hd rfl)
    case counter slot uav entry has =>
      obtain ⟨views, ⟨main, hviews, _⟩, hd⟩ := Resources.exists_mem_decls_of_uav hresources entry
      rw [if_pos has] at hviews
      have hd := hd _ (hviews ▸ List.mem_cons_of_mem _ List.mem_cons_self)
      exact .counter entry has (only hd rfl)
    case image slot uav dimension returnType entry kind =>
      obtain ⟨views, ⟨main, hviews, hmain⟩, hd⟩ :=
        Resources.exists_mem_decls_of_uav hresources entry
      rw [if_pos (by simp [Uav.isTyped, kind])] at hmain
      obtain ⟨qualifiers, type, hmain⟩ := hmain
      have hd : main ∈ resources := hd main (hviews ▸ List.mem_cons_self)
      subst hmain
      exact .image entry kind (only hd rfl)
    case shared slot memory entry =>
      exact .shared entry (only (Resources.mem_decls_of_shared hresources entry) rfl)
    case subroutine label sub hs entry => exact l.resolved_subroutine (l.program ▸ hs) entry
    all_goals exact .other trivial

end Program.Lifted

theorem Program.lift_resolves_names (h : p.lift o = .ok s) : ∃ c phases, p.Lifted o s c phases ∧
    ∀ f ∈ s.source.functions.toList, ∀ line ∈ f.body, line.Over (Resolved c s) := by
  have ⟨c, phases, l⟩ := exists_lifted h
  refine ⟨c, phases, l, fun f hf line hline => ?_⟩
  exact ((l.over f hf).body line hline).mono fun _ => l.resolved h

-- One resource of each kind, and a subroutine.
def everyResource : Program where
  declarations :=
    [.constantBuffer 0 1 true, .immediateConstantBuffer (List.replicate 16 0),
      .resource 0 .texture2D 0 ⟨.float, .float, .float, .float⟩, .sampler 0 .default,
      .resourceRaw 2, .uavStructured 1 4 true false,
      .uavTyped 3 .texture2D ⟨.uint, .uint, .uint, .uint⟩ false, .tgsmRaw 0 16].map
        fun declared => { declared, position := 0, instructionsBefore := 0 }
  instructions :=
    [(.sample, [0, 1, 3, 4]), (.add, [0, 5, 6]), (.immAtomicAlloc, [2, 8]), (.ldRaw, [0, 2, 7]),
      (.storeStructured, [8, 2, 2, 2]), (.storeRaw, [10, 2, 2]), (.storeUavTyped, [9, 1, 1]),
      (.call, [11]), (.ret, []), (.label, [11])].map
        fun (opcode, operands) => { opcode, controls := .alu false 0, operands, position := 0 }
  operands :=
    let lanes : Selection := .swizzle ⟨0, 1, 2, 3⟩
    #[{ register := .temp, selection := .mask .xyzw, indices := [.imm 0] },
      { register := .temp, selection := lanes, indices := [.imm 0] },
      { register := .temp, selection := .select 0, indices := [.imm 0] },
      { register := .resource, selection := lanes, indices := [.imm 0] },
      { register := .sampler, components := .zero, indices := [.imm 0] },
      { register := .constantBuffer, selection := lanes, indices := [.imm 0, .relative 2] },
      { register := .immediateConstantBuffer, selection := lanes, indices := [.imm 0] },
      { register := .resource, selection := lanes, indices := [.imm 2] },
      { register := .unorderedAccessView, selection := .mask .x, indices := [.imm 1] },
      { register := .unorderedAccessView, selection := .mask .xyzw, indices := [.imm 3] },
      { register := .threadGroupSharedMemory, selection := .mask .x, indices := [.imm 0] },
      { register := .label, components := .zero, indices := [.imm 7] }]

theorem Program.lift_resolves_names_everyResource :
    ∃ s, everyResource.lift { version := .gl43 } = .ok s ∧
      ∃ c phases, everyResource.Lifted { version := .gl43 } s c phases ∧
        ∀ f ∈ s.source.functions.toList, ∀ line ∈ f.body, line.Over (Resolved c s) := by
  obtain ⟨s, h⟩ : ∃ s, everyResource.lift { version := .gl43 } = .ok s := by decide +kernel
  exact ⟨s, h, Program.lift_resolves_names h⟩

end ShaderLift
