import ShaderLift.Proofs.Glsl.Printed
import ShaderLift.Proofs.Lift.Generated

/-!
The numbers that resources are bound to. Those of each kind count up from zero, no two resources of
a kind share one, and declarations print the numbers that the host is told.
-/

namespace ShaderLift

open Glsl

namespace Glsl.HostBindings

-- What the host binds for some declarations, and then for others.
instance : Append HostBindings where
  append a b := {
    uniformBlocks := a.uniformBlocks ++ b.uniformBlocks
    uniforms := a.uniforms ++ b.uniforms
    samplers := a.samplers ++ b.samplers
    storageBuffers := a.storageBuffers ++ b.storageBuffers
    images := a.images ++ b.images
    attributes := a.attributes ++ b.attributes
    fragOutputs := a.fragOutputs ++ b.fragOutputs }

section Append

variable {a b : HostBindings}

@[simp] theorem uniformBlocks_append :
    (a ++ b).uniformBlocks = a.uniformBlocks ++ b.uniformBlocks :=
  rfl

@[simp] theorem samplers_append : (a ++ b).samplers = a.samplers ++ b.samplers :=
  rfl

@[simp] theorem storageBuffers_append :
    (a ++ b).storageBuffers = a.storageBuffers ++ b.storageBuffers :=
  rfl

@[simp] theorem images_append : (a ++ b).images = a.images ++ b.images :=
  rfl

@[simp] theorem empty_append : {} ++ b = b :=
  rfl

@[simp] theorem append_empty : a ++ {} = a := by
  change HostBindings.mk _ _ _ _ _ _ _ = a
  simp only [List.append_nil]

end Append

variable {decls decls' : List Decl}

theorem ofDecls_append : ofDecls (decls ++ decls') = ofDecls decls ++ ofDecls decls' := by
  simp only [ofDecls, List.filterMap_append]
  rfl

end Glsl.HostBindings

-- Declarations that the host has nothing to do with.
def Glsl.Decl.IsInternal : Decl → Prop
  | uniformBlock _ _ _ _ | uniform _ _ _ | sampler _ _ _ _ _ | storage _ _ _ _
  | image _ _ _ _ _ _ => False
  | _ => True

theorem Glsl.HostBindings.ofDecls_eq_empty {decls : List Decl}
    (h : ∀ decl ∈ decls, decl.IsInternal) : ofDecls decls = {} := by
  simp only [ofDecls, HostBindings.mk.injEq, List.filterMap_eq_nil_iff, and_true]
  refine ⟨?_, ?_, ?_, ?_, ?_⟩
  all_goals
    intro decl hd
    have hinternal := h decl hd
    cases decl <;> first | rfl | cases hinternal

namespace UniformBuffer

theorem exists_ofDecls (d : Dialect) (b : UniformBuffer) : ∃ uniforms,
    HostBindings.ofDecls (b.decls d) =
      { uniformBlocks := if b.isBlock then [(b.blockName, b.slot)] else [], uniforms } := by
  cases hmembers : b.members <;> cases hblock : b.isBlock
  case none.false => exact ⟨_, by simp only [decls, hmembers, hblock]; rfl⟩
  case none.true => exact ⟨[], by simp only [decls, hmembers, hblock]; rfl⟩
  case some.false ms =>
    refine ⟨ms.map fun m => (m.name, b.slot, m.offset), ?_⟩
    simp [decls, hmembers, hblock, HostBindings.ofDecls, List.filterMap_map, Member.declarator]
  case some.true ms => exact ⟨[], by simp only [decls, hmembers, hblock]; rfl⟩

theorem exists_ofDecls_flatMap (d : Dialect) (bs : List UniformBuffer) : ∃ uniforms,
    HostBindings.ofDecls (bs.flatMap (decls d)) =
      { uniformBlocks := (bs.filter (·.isBlock)).map fun b => (b.blockName, b.slot)
        uniforms } := by
  induction bs
  case nil => exact ⟨[], rfl⟩
  case cons b bs hi =>
    obtain ⟨uniforms, hi⟩ := hi
    obtain ⟨uniforms', hb⟩ := exists_ofDecls d b
    refine ⟨uniforms' ++ uniforms, ?_⟩
    rw [List.flatMap_cons, HostBindings.ofDecls_append, hb, hi, List.filter_cons]
    cases b.isBlock <;> rfl

end UniformBuffer

-- The storage blocks of a view.
def Uav.storages (slot : UInt32) (u : Uav) : List Storage :=
  (if u.isTyped then [] else [.uav slot]) ++ if u.hasCounter then [.counter slot] else []

namespace Resources

variable {d : Dialect} {p : Program} {r : Resources} {decls : List Decl}

-- All storage blocks, in the order of their declarations.
def declaredStorages (r : Resources) : List Storage :=
  r.buffers.keys.map .resource ++ r.uavs.entries.flatMap fun (slot, u) => u.storages slot

theorem map_filter_eq_flatMap {α β : Type} {l : List α} {q : α → Bool} {f : α → β} :
    (l.filter q).map f = l.flatMap fun a => if q a then [f a] else [] := by
  induction l
  case nil => rfl
  case cons a l hi => cases h : q a <;> simp [h, hi]

theorem perm_declaredStorages : r.declaredStorages.Perm r.storages := by
  have hflip (slot : UInt32) (u : Uav) : (if u.isTyped then [] else [Storage.uav slot]) =
      if !u.isTyped then [Storage.uav slot] else [] := by
    cases u.isTyped <;> rfl
  rw [storages, declaredStorages, List.append_assoc, map_filter_eq_flatMap, map_filter_eq_flatMap]
  simp only [Uav.storages, hflip]
  exact (List.flatMap_append_perm ..).symm.append_left _

theorem nodup_imageSlots (h : r.Ordered) : r.imageSlots.Nodup :=
  h.uavs.nodup_keys.sublist (List.filter_sublist.map _)

theorem nodup_storages (h : r.Ordered) : r.storages.Nodup := by
  have hviews {f : UInt32 → Storage} (hf : f.Injective) (q : UInt32 × Uav → Bool) :
      ((r.uavs.entries.filter q).map (f ·.1)).Nodup := by
    have hkeys : ((r.uavs.entries.filter q).map (·.1)).Nodup :=
      h.uavs.nodup_keys.sublist (List.filter_sublist.map _)
    rw [← Function.comp_def f, ← List.map_map]
    exact hkeys.map hf
  have hbuffers : (r.buffers.keys.map Storage.resource).Nodup :=
    h.buffers.nodup_keys.map fun _ _ => Storage.resource.inj
  rw [storages, List.nodup_append, List.nodup_append]
  refine ⟨⟨hbuffers, hviews (fun _ _ => Storage.uav.inj) _, ?_⟩,
    hviews (fun _ _ => Storage.counter.inj) _, ?_⟩
  case refine_1 => exact List.forall_mem_map.mpr fun _ _ => List.forall_mem_map.mpr fun _ _ => nofun
  case refine_2 =>
    refine List.forall_mem_append.mpr ⟨?_, ?_⟩
    all_goals exact List.forall_mem_map.mpr fun _ _ => List.forall_mem_map.mpr fun _ _ => nofun

theorem map_idxOf_eq_range {α : Type} [DecidableEq α] {l : List α} (h : l.Nodup) :
    l.map l.idxOf = List.range l.length := by
  refine List.ext_getElem (by simp) fun i hi _ => ?_
  rw [List.getElem_map, List.getElem_range]
  exact h.idxOf_getElem i (by simpa using hi)

-- The host is told the place of each resource in the list of its kind.
structure Numbers (r : Resources) (b : HostBindings) : Prop where
  uniformBlocks  : b.uniformBlocks =
    (r.constantBuffers.values.filter (·.isBlock)).map fun b => (b.blockName, b.slot)
  samplers       : b.samplers = r.pairs.keys.zipIdx.map fun (key, unit) => ⟨key, unit⟩
  storageBuffers : b.storageBuffers =
    r.declaredStorages.map fun s => (s.blockName, r.storageBinding s)
  images         : b.images =
    r.imageSlots.map fun slot => ((Name.image slot).text, r.imageBinding slot)

theorem ofDecls_samplers {keys : List (SamplerKey × Nat)} {samplers : List Decl}
    (h : List.Forall₂ (fun (key, unit) decl => r.samplerDecl d key unit = .ok decl) keys samplers) :
    HostBindings.ofDecls samplers = { samplers := keys.map fun (key, unit) => ⟨key, unit⟩ } := by
  induction h
  case nil => rfl
  case cons hmade _ hi =>
    obtain ⟨_, rfl⟩ := exists_type_of_samplerDecl hmade
    rw [← List.singleton_append, HostBindings.ofDecls_append, hi]
    rfl

theorem ofDecls_uavDecls {slot : UInt32} {u : Uav} (h : r.uavDecls d slot u = .ok decls) :
    HostBindings.ofDecls decls =
      { storageBuffers := (u.storages slot).map fun s => (s.blockName, r.storageBinding s)
        images := if u.isTyped then [((Name.image slot).text, r.imageBinding slot)] else [] } := by
  obtain ⟨main, rfl, hmain⟩ := uavDecls_of_eq_ok h
  have hcounter : HostBindings.ofDecls
      (if u.hasCounter then [r.storageDecl d (.counter slot) []] else []) =
      { storageBuffers := (if u.hasCounter then [Storage.counter slot] else []).map
          fun s => (s.blockName, r.storageBinding s) } := by
    split <;> rfl
  rw [← List.singleton_append, HostBindings.ofDecls_append, hcounter, Uav.storages, List.map_append]
  split at hmain
  case isTrue htyped =>
    obtain ⟨_, _, rfl⟩ := hmain
    rw [if_pos htyped, if_pos htyped]
    rfl
  case isFalse htyped =>
    obtain ⟨_, rfl⟩ := hmain
    rw [if_neg htyped, if_neg htyped]
    rfl

theorem ofDecls_uavs {entries : List (UInt32 × Uav)} {uavs : List (List Decl)}
    (h : List.Forall₂ (fun (slot, u) decls => r.uavDecls d slot u = .ok decls) entries uavs) :
    HostBindings.ofDecls uavs.flatten =
      { storageBuffers := (entries.flatMap fun (slot, u) => u.storages slot).map
          fun s => (s.blockName, r.storageBinding s)
        images := ((entries.filter (·.2.isTyped)).map (·.1)).map
          fun slot => ((Name.image slot).text, r.imageBinding slot) } := by
  induction h
  case nil => rfl
  case cons e _ _ _ hmade _ hi =>
    rw [List.flatten_cons, HostBindings.ofDecls_append, hi, ofDecls_uavDecls hmade,
      List.flatMap_cons, List.map_append, List.filter_cons]
    cases e.2.isTyped <;> rfl

theorem ofDecls_buffers : HostBindings.ofDecls
    (r.buffers.keys.map fun slot => r.storageDecl d (.resource slot) ["readonly"]) =
      { storageBuffers := (r.buffers.keys.map .resource).map
          fun s => (s.blockName, r.storageBinding s) } := by
  simp [HostBindings.ofDecls, List.filterMap_map, storageDecl]

theorem numbers_of_decls (h : r.decls d = .ok decls) : r.Numbers (.ofDecls decls) := by
  obtain ⟨samplers, uavs, hparts, rfl⟩ := exists_declParts h
  obtain ⟨uniforms, hconstants⟩ :=
    UniformBuffer.exists_ofDecls_flatMap d r.constantBuffers.values
  rw [HostBindings.ofDecls_append, HostBindings.ofDecls_append, HostBindings.ofDecls_append,
    HostBindings.ofDecls_append, hconstants, ofDecls_samplers hparts.samplers, ofDecls_buffers,
    ofDecls_uavs hparts.uavs, HostBindings.ofDecls_eq_empty]
  · constructor <;> simp [declaredStorages, imageSlots]
  · exact List.forall_mem_map.mpr fun _ _ => trivial

namespace Numbers

variable {b : HostBindings}

theorem perm_storageBuffers (h : r.Numbers b) (ho : r.Ordered) :
    (b.storageBuffers.map (·.2)).Perm (List.range b.storageBuffers.length) := by
  have hlength : b.storageBuffers.length = r.storages.length := by
    rw [h.storageBuffers, List.length_map, perm_declaredStorages.length_eq]
  rw [hlength, ← map_idxOf_eq_range (nodup_storages ho), h.storageBuffers, List.map_map]
  exact perm_declaredStorages.map _

theorem images_eq_range (h : r.Numbers b) (ho : r.Ordered) :
    b.images.map (·.2) = List.range b.images.length := by
  rw [h.images, List.length_map, ← map_idxOf_eq_range (nodup_imageSlots ho), List.map_map]
  rfl

theorem nodup_uniformBlocks (h : r.Numbers b) (hb : r.Built d p) :
    (b.uniformBlocks.map (·.2)).Nodup := by
  have hslots : r.constantBuffers.values.map (·.slot) = r.constantBuffers.keys := by
    rw [SortedMap.values, SortedMap.keys, List.map_map]
    exact List.map_congr_left fun e he => hb.slot_eq he
  rw [h.uniformBlocks, List.map_map]
  exact (hslots ▸ hb.sorted.nodup_keys).sublist (List.filter_sublist.map _)

theorem units_eq_range (h : r.Numbers b) :
    b.samplers.map (·.unit) = List.range b.samplers.length := by
  rw [h.samplers, List.map_map, List.length_map, List.length_zipIdx, List.range_eq_range']
  exact List.zipIdx_map_snd 0 _

theorem keys_eq (h : r.Numbers b) :
    b.samplers.map (·.key) = r.pairs.keys := by
  rw [h.samplers, List.map_map]
  exact List.zipIdx_map_fst 0 _

theorem nodup_samplerNames (h : r.Numbers b) (ho : r.Ordered) :
    (b.samplers.map (·.key.name)).Nodup := by
  rw [← Function.comp_def SamplerKey.name, ← List.map_map, h.keys_eq]
  exact ho.pairs.nodup_keys.map_on fun a ha b hb =>
    SamplerKey.name_inj (ho.shadow a ha) (ho.shadow b hb)

end Numbers

end Resources

namespace Glsl

theorem Decl.IsInternal.bound?_eq_none {decl : Decl} (h : decl.IsInternal) :
    decl.bound? = none := by
  cases decl <;> first | rfl | cases h

-- All that the host binds to a number.
def HostBindings.numbered (b : HostBindings) : List (String × Nat) :=
  b.uniformBlocks.map (fun (name, slot) => (name, slot.toNat)) ++
    b.samplers.map (fun u => (u.key.name, u.unit)) ++ b.storageBuffers ++ b.images

theorem HostBindings.perm_numbered {decls : List Decl} :
    (decls.filterMap Decl.bound?).Perm (ofDecls decls).numbered := by
  induction decls
  case nil => rfl
  case cons decl decls hi =>
    rw [List.perm_iff_count] at hi ⊢
    intro bound
    have hbound := hi bound
    cases decl <;>
      simp only [numbered, ofDecls, List.filterMap_cons, Decl.bound?, List.map_cons,
        List.count_append, List.count_cons] at hbound ⊢ <;> omega

end Glsl

theorem Uav.equals_notMem_format {u : Uav} : '=' ∉ u.format.toList := by
  unfold format
  cases u.valueType <;> dsimp only <;> split_ifs <;> decide

namespace Resources

variable {d : Dialect} {r : Resources} {decls : List Decl}

theorem showsBinding_of_uavDecls (hd : d.has .explicitBinding) {slot : UInt32} {u : Uav}
    (h : r.uavDecls d slot u = .ok decls) : ∀ decl ∈ decls, decl.ShowsBinding := by
  obtain ⟨main, rfl, hmain⟩ := uavDecls_of_eq_ok h
  refine List.forall_mem_cons.mpr ⟨?_, ?_⟩
  case refine_1 =>
    split at hmain
    case isTrue =>
      obtain ⟨_, _, rfl⟩ := hmain
      exact ⟨hd, Uav.equals_notMem_format⟩
    case isFalse =>
      obtain ⟨_, rfl⟩ := hmain
      exact hd
  case refine_2 =>
    split
    case isTrue => exact List.forall_mem_singleton.mpr hd
    case isFalse => exact List.forall_mem_nil _

theorem showsBinding_of_decls (hd : d.has .explicitBinding) (h : r.decls d = .ok decls) :
    ∀ decl ∈ decls, decl.ShowsBinding := by
  obtain ⟨samplers, uavs, hparts, rfl⟩ := exists_declParts h
  simp only [List.forall_mem_append]
  refine ⟨⟨⟨⟨?constants, ?samplers⟩, ?buffers⟩, ?uavs⟩, ?shared⟩
  case constants =>
    refine List.forall_mem_flatMap.mpr fun b _ => ?_
    unfold UniformBuffer.decls
    split
    case h_1 | h_3 => exact List.forall_mem_singleton.mpr hd
    case h_2 => exact List.forall_mem_singleton.mpr trivial
    case h_4 => exact List.forall_mem_map.mpr fun _ _ => trivial
  case samplers =>
    intro decl hdecl
    obtain ⟨_, _, hmade⟩ := exists_mem_of_forall₂ hparts.samplers hdecl
    obtain ⟨_, rfl⟩ := exists_type_of_samplerDecl hmade
    exact hd
  case buffers => exact List.forall_mem_map.mpr fun _ _ => hd
  case uavs =>
    intro decl hdecl
    obtain ⟨views, hviews, hdecl⟩ := List.mem_flatten.mp hdecl
    obtain ⟨_, _, hmade⟩ := exists_mem_of_forall₂ hparts.uavs hviews
    exact showsBinding_of_uavDecls hd hmade decl hdecl
  case shared => exact List.forall_mem_map.mpr fun _ _ => trivial

end Resources

namespace Program

variable {p : Program} {o : Options} {s : Shader} {c : Context} {phases : Option Phases}

-- All that the host binds is declared for resources.
theorem Lifted.exists_resourceDecls (l : p.Lifted o s c phases) : ∃ resources,
    c.resources.decls c.dialect = .ok resources ∧
      HostBindings.ofDecls s.source.decls = .ofDecls resources ∧
      ∀ decl ∈ s.source.decls, decl ∈ resources ∨ decl.IsInternal := by
  obtain ⟨layouts, resources, hlayouts, hresources, hdecls⟩ := Context.exists_parts l.decls
  have hlayouts : ∀ decl ∈ layouts, decl.IsInternal := by
    intro decl hd
    have hlayout := hlayouts decl hd
    cases decl <;> trivial
  have himmediates : ∀ decl ∈ c.resources.immediatesDecl c.dialect, decl.IsInternal := by
    unfold Resources.immediatesDecl
    split
    case h_1 => exact List.forall_mem_nil _
    case h_2 => split_ifs <;> exact List.forall_mem_singleton.mpr trivial
  have hregisters : ∀ decl ∈ c.registerDecls, decl.IsInternal := by
    simp only [Context.registerDecls, FileSizes.decls, List.forall_mem_append, List.forall_mem_map]
    exact ⟨⟨fun _ _ => trivial, fun _ _ => trivial⟩, fun _ _ => trivial⟩
  have hrest : ∀ decl ∈ c.interface.vars.map Decl.interface ++
      c.resources.immediatesDecl c.dialect ++ c.registerDecls, decl.IsInternal := by
    simp only [List.forall_mem_append, List.forall_mem_map]
    exact ⟨⟨fun _ _ => trivial, himmediates⟩, hregisters⟩
  rw [List.append_assoc, List.append_assoc, ← List.append_assoc (List.map _ _)] at hdecls
  refine ⟨resources, hresources, ?_, ?_⟩
  case refine_1 =>
    rw [hdecls, HostBindings.ofDecls_append, HostBindings.ofDecls_append,
      HostBindings.ofDecls_eq_empty hlayouts, HostBindings.ofDecls_eq_empty hrest,
      HostBindings.empty_append, HostBindings.append_empty]
  case refine_2 =>
    intro decl hd
    rw [hdecls, List.mem_append, List.mem_append] at hd
    obtain (hd | hd) | hd := hd
    case inl.inl => exact .inr (hlayouts decl hd)
    case inl.inr => exact .inl hd
    case inr => exact .inr (hrest decl hd)

theorem bindings_never_clash (h : p.lift o = .ok s) :
    (s.bindings.storageBuffers.map (·.2)).Perm (List.range s.bindings.storageBuffers.length) ∧
    s.bindings.images.map (·.2) = List.range s.bindings.images.length ∧
    s.bindings.samplers.map (·.unit) = List.range s.bindings.samplers.length ∧
    (s.bindings.samplers.map (·.key.name)).Nodup ∧ (s.bindings.samplers.map (·.key)).Nodup ∧
    (s.bindings.uniformBlocks.map (·.2)).Nodup ∧
    (s.source.decls.filterMap Decl.bound?).Perm s.bindings.numbered ∧
    (o.dialect.has .explicitBinding → ∀ decl ∈ s.source.decls, ∀ name n,
      decl.bound? = some (name, n) →
        ∃ line rest, decl.lines = line :: rest ∧ DeclaresBound line name n) := by
  obtain ⟨c, phases, l, hbindings⟩ := exists_lifted_bindings h
  obtain ⟨resources, hresources, hdecls, hinternal⟩ := l.exists_resourceDecls
  have ho := Resources.ordered_of_collect l.resources
  have hb := Resources.built_of_collect l.resources
  have hnumbers := hdecls ▸ Resources.numbers_of_decls hresources
  rw [hbindings]
  refine ⟨hnumbers.perm_storageBuffers ho, hnumbers.images_eq_range ho, hnumbers.units_eq_range,
    hnumbers.nodup_samplerNames ho, hnumbers.keys_eq ▸ ho.pairs.nodup_keys,
    hnumbers.nodup_uniformBlocks hb, HostBindings.perm_numbered, ?_⟩
  intro hd decl hdecl name n hbound
  cases hinternal decl hdecl
  case inl hdecl =>
    have hshows := Resources.showsBinding_of_decls (l.dialect ▸ hd) hresources
    exact Decl.exists_declaresBound (hshows decl hdecl) hbound
  case inr hdecl =>
    rw [hdecl.bound?_eq_none] at hbound
    cases hbound

-- A counter between two storage blocks, which are numbered before it.
def interleavedViews : Program where
  declarations :=
    [.constantBuffer 3 1 false, .constantBuffer 0 1 false,
      .resource 0 .texture2D 0 ⟨.float, .float, .float, .float⟩, .sampler 0 .default,
      .resourceRaw 2, .uavStructured 1 4 true false,
      .uavTyped 3 .texture2D ⟨.uint, .uint, .uint, .uint⟩ false, .uavRaw 5 false].map (⟨·, 0, 0⟩)
  instructions := [⟨.sample, .sample {}, [0, 1, 2, 3], 0⟩, ⟨.ret, .flow, [], 0⟩]
  operands :=
    #[{ register := .temp, selection := .mask .xyzw, indices := [.imm 0] },
      { register := .temp, indices := [.imm 0] }, { register := .resource, indices := [.imm 0] },
      { register := .sampler, indices := [.imm 0] }]

theorem bindings_never_clash_interleavedViews :
    ∃ s, interleavedViews.lift { version := .gl43 } = .ok s ∧
      s.bindings.storageBuffers =
        [("t2_buffer", 0), ("u1_buffer", 1), ("u1_counter_buffer", 3), ("u5_buffer", 2)] ∧
      (s.bindings.storageBuffers.map (·.2)).Perm (List.range s.bindings.storageBuffers.length) ∧
      (s.bindings.uniformBlocks.map (·.2)).Nodup ∧
      ∀ decl ∈ s.source.decls, ∀ name n, decl.bound? = some (name, n) →
        ∃ line rest, decl.lines = line :: rest ∧ DeclaresBound line name n := by
  obtain ⟨s, h, hbuffers⟩ : ∃ s, interleavedViews.lift { version := .gl43 } = .ok s ∧
      s.bindings.storageBuffers =
        [("t2_buffer", 0), ("u1_buffer", 1), ("u1_counter_buffer", 3), ("u5_buffer", 2)] := by
    decide +kernel
  obtain ⟨hstorages, _, _, _, _, hblocks, _, hlines⟩ := bindings_never_clash h
  exact ⟨s, h, hbuffers, hstorages, hblocks, hlines (by decide)⟩

end Program

end ShaderLift
