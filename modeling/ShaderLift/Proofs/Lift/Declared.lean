import ShaderLift.Proofs.Lift.Header
import ShaderLift.Proofs.Lift.Lifted
import ShaderLift.Proofs.SortedMap

/-!
What a shader declares, in the order of its declarations, and the resources that they are made from.
-/

namespace ShaderLift

open Glsl Std.Do

set_option mvcgen.warning false

theorem exists_mem_of_forall₂ {α β : Type} {R : α → β → Prop} {l : List α} {bs : List β} {b : β}
    (h : List.Forall₂ R l bs) (hb : b ∈ bs) : ∃ a ∈ l, R a b := by
  induction h
  case nil => cases hb
  case cons hr _ hi =>
    cases List.mem_cons.mp hb
    case inl hb => exact ⟨_, List.mem_cons_self, hb ▸ hr⟩
    case inr hb =>
      have ⟨a, ha, hr⟩ := hi hb
      exact ⟨a, List.mem_cons_of_mem _ ha, hr⟩

-- Layouts declare properties, and no names.
def Glsl.Decl.IsLayout : Decl → Prop
  | stageLayout _ _ | depthLayout _ => True
  | _ => False

-- Constants are declared in a block, or one by one.
def Glsl.Decl.IsConstants : Decl → Prop
  | uniformBlock .. | uniform .. => True
  | _ => False

theorem UniformBuffer.isConstants_decls {d : Dialect} {b : UniformBuffer} :
    ∀ decl ∈ b.decls d, decl.IsConstants := by
  unfold decls
  extract_lets raw block
  split
  case h_4 => exact List.forall_mem_map.mpr fun _ _ => trivial
  all_goals exact List.forall_mem_singleton.mpr trivial

namespace Resources

variable {d : Dialect} {r : Resources} {decls : List Decl}

section Built

variable {p : Program}

-- Each constant buffer is built from the slot that it is found under.
structure Built (d : Dialect) (p : Program) (r : Resources) : Prop where
  sorted : r.constantBuffers.Sorted
  built  : ∀ e ∈ r.constantBuffers.entries, ∃ size dynamic,
    (∃ decl ∈ p.declarations, decl.declared = .constantBuffer e.1 size dynamic) ∧
      e.2 = .build d e.1 size dynamic (p.constantBuffers.find? (·.bindPoint == e.1))

theorem Built.declare (h : r.Built d p) {decl : Declaration} (hdecl : decl ∈ p.declarations) :
    (r.declare d p decl.declared).Built d p := by
  cases hd : decl.declared
  case constantBuffer slot size dynamic =>
    refine ⟨h.sorted.insert, fun e he => ?_⟩
    cases SortedMap.mem_insert he
    case inl he => exact h.built e he
    case inr he => exact he ▸ ⟨size, dynamic, ⟨decl, hdecl, hd⟩, rfl⟩
  all_goals exact ⟨h.sorted, h.built⟩

theorem built_of_collect (h : collect d p = .ok r) : r.Built d p := by
  let declared := p.declarations.foldl (fun (r : Resources) decl => r.declare d p decl.declared) {}
  have hdeclared : declared.Built d p :=
    List.foldlRecOn p.declarations _ ⟨SortedMap.sorted_empty, List.forall_mem_nil _⟩
      fun _ h _ hdecl => h.declare hdecl
  have ⟨⟨scanned, fetched⟩, hscan, h⟩ := bind_eq_ok_iff.mp h
  have hscan : scanned.constantBuffers = declared.constantBuffers :=
    returns_iff.mp scan_spec _ hscan
  have hbuffers : r.constantBuffers = declared.constantBuffers := by
    cases h
    obtain ⟨_, hfetched⟩ := exists_pairs_of_addFetched scanned fetched
    rw [hfetched, hscan]
  exact ⟨hbuffers ▸ hdeclared.sorted, hbuffers ▸ hdeclared.built⟩

theorem Built.slot_eq (h : r.Built d p) {slot : UInt32} {b : UniformBuffer}
    (hb : (slot, b) ∈ r.constantBuffers.entries) : b.slot = slot := by
  have ⟨_, _, _, hb⟩ := h.built _ hb
  exact congrArg UniformBuffer.slot hb

end Built

theorem exists_type_of_samplerDecl {key : SamplerKey} {unit : Nat} {decl : Decl}
    (h : r.samplerDecl d key unit = .ok decl) :
    ∃ type, decl = .sampler unit (d.has .explicitBinding) (samplerPrecision d) type key := by
  unfold samplerDecl at h
  split at h
  case h_2 => cases h
  case h_1 texture _ =>
    have ⟨type, _, h⟩ := bind_eq_ok_iff.mp h
    cases h
    exact ⟨type, rfl⟩

-- The declarations of a view: an image or a block of words, and its counter.
def UavDecls (d : Dialect) (r : Resources) (slot : UInt32) (u : Uav) (decls : List Decl) : Prop :=
  ∃ main, decls = main :: (if u.hasCounter then [r.storageDecl d (.counter slot) []] else []) ∧
    if u.isTyped then
      ∃ qualifiers type, main =
        .image slot (r.imageBinding slot) (d.has .explicitBinding) u.format qualifiers type
    else ∃ qualifiers, main = r.storageDecl d (.uav slot) qualifiers

theorem uavDecls_of_eq_ok {slot : UInt32} {u : Uav} (h : r.uavDecls d slot u = .ok decls) :
    r.UavDecls d slot u decls := by
  unfold uavDecls at h
  extract_lets coherent counter at h
  split at h
  case h_1 dimension returnType hkind =>
    have htyped : u.isTyped := by simp [Uav.isTyped, hkind]
    have ⟨_, _, h⟩ := bind_eq_ok_iff.mp h
    split at h
    case h_2 => cases h
    case h_1 name _ =>
      cases h
      exact ⟨_, rfl, by rw [if_pos htyped]; exact ⟨_, _, rfl⟩⟩
  case h_2 layout hkind =>
    have htyped : ¬u.isTyped := by simp [Uav.isTyped, hkind]
    have ⟨_, _, h⟩ := bind_eq_ok_iff.mp h
    cases h
    exact ⟨_, rfl, by rw [if_neg htyped]; exact ⟨_, rfl⟩⟩

theorem image_or_storage_of_uavDecls {slot : UInt32} {u : Uav} {decl : Decl}
    (h : r.uavDecls d slot u = .ok decls) (hd : decl ∈ decls) :
    (∃ binding visible format qualifiers type,
      decl = .image slot binding visible format qualifiers type) ∨
    ∃ storage qualifiers, decl = r.storageDecl d storage qualifiers := by
  have ⟨main, hdecls, hmain⟩ := uavDecls_of_eq_ok h
  cases List.mem_cons.mp (hdecls ▸ hd)
  case inl hd =>
    split at hmain
    case isTrue =>
      have ⟨_, _, hmain⟩ := hmain
      exact .inl ⟨_, _, _, _, _, hd.trans hmain⟩
    case isFalse =>
      have ⟨_, hmain⟩ := hmain
      exact .inr ⟨_, _, hd.trans hmain⟩
  case inr hd =>
    split at hd
    case isTrue => exact .inr ⟨_, _, List.mem_singleton.mp hd⟩
    case isFalse => cases hd

-- The samplers and views among the declarations, each made from its entry.
structure DeclParts (d : Dialect) (r : Resources) (samplers : List Decl) (uavs : List (List Decl)) :
    Prop where
  samplers : List.Forall₂ (fun (key, unit) decl => r.samplerDecl d key unit = .ok decl)
    r.pairs.keys.zipIdx samplers
  uavs : List.Forall₂ (fun (slot, u) decls => r.uavDecls d slot u = .ok decls) r.uavs.entries uavs

theorem exists_declParts (h : r.decls d = .ok decls) :
    ∃ samplers uavs, r.DeclParts d samplers uavs ∧
    decls = r.constantBuffers.values.flatMap (UniformBuffer.decls d) ++ samplers ++
      r.buffers.keys.map (fun slot => r.storageDecl d (.resource slot) ["readonly"]) ++
      uavs.flatten ++ r.shared.entries.map fun (slot, m) => Decl.shared slot (max m.words 1) := by
  unfold Resources.decls at h
  have ⟨samplers, hsamplers, h⟩ := bind_eq_ok_iff.mp h
  have ⟨buffers, hbuffers, h⟩ := bind_eq_ok_iff.mp h
  have ⟨uavs, huavs, h⟩ := bind_eq_ok_iff.mp h
  have hbuffers : buffers =
      r.buffers.keys.map (fun slot => r.storageDecl d (.resource slot) ["readonly"]) := by
    refine (List.forall₂_eq_eq_eq ▸ List.forall₂_map_left_iff.mpr ?_ :).symm
    refine (mapM_eq_ok_iff.mp hbuffers).imp fun slot decl h => ?_
    have ⟨_, _, h⟩ := bind_eq_ok_iff.mp h
    cases h
    rfl
  cases h
  exact ⟨samplers, uavs, ⟨mapM_eq_ok_iff.mp hsamplers, mapM_eq_ok_iff.mp huavs⟩, by rw [hbuffers]⟩

-- What a single declaration of a resource is made from.
inductive MakesDecl (d : Dialect) (r : Resources) : Decl → Prop
  | constants {b decl} (buffer : b ∈ r.constantBuffers.values) (made : decl ∈ b.decls d) :
      MakesDecl d r decl
  | sampler {key unit decl} (made : r.samplerDecl d key unit = .ok decl) : MakesDecl d r decl
  | buffer {slot} : MakesDecl d r (r.storageDecl d (.resource slot) ["readonly"])
  | view {slot u views decl} (entry : (slot, u) ∈ r.uavs.entries)
      (made : r.uavDecls d slot u = .ok views) (mem : decl ∈ views) : MakesDecl d r decl
  | shared {slot length} : MakesDecl d r (.shared slot length)

theorem makesDecl_of_mem (h : r.decls d = .ok decls) : ∀ decl ∈ decls, r.MakesDecl d decl := by
  obtain ⟨samplers, uavs, hparts, hdecls⟩ := exists_declParts h
  subst hdecls
  simp only [List.forall_mem_append]
  refine ⟨⟨⟨⟨fun decl hd => ?constants, fun decl hd => ?samplers⟩, ?buffers⟩,
    fun decl hd => ?uavs⟩, ?shared⟩
  case constants =>
    obtain ⟨b, hb, hd⟩ := List.mem_flatMap.mp hd
    exact .constants hb hd
  case samplers =>
    obtain ⟨_, _, hmade⟩ := exists_mem_of_forall₂ hparts.samplers hd
    exact .sampler hmade
  case buffers => exact List.forall_mem_map.mpr fun _ _ => .buffer
  case uavs =>
    obtain ⟨views, hviews, hd⟩ := List.mem_flatten.mp hd
    obtain ⟨_, hu, hmade⟩ := exists_mem_of_forall₂ hparts.uavs hviews
    exact .view hu hmade hd
  case shared => exact List.forall_mem_map.mpr fun _ _ => .shared

end Resources

namespace Context

variable {c : Context} {decls : List Decl}

theorem isLayout_of_geometryLayout (h : c.geometryLayout = .ok decls) :
    ∀ decl ∈ decls, decl.IsLayout := by
  have hlayout : ⦃⌜True⌝⦄ c.geometryLayout ⦃⇓? decls => ⌜∀ decl ∈ decls, decl.IsLayout⌝⦄ := by
    unfold geometryLayout
    mvcgen with simp [Decl.IsLayout]
  exact returns_iff.mp hlayout _ h

theorem isLayout_of_stageLayout (h : c.stageLayout = .ok decls) :
    ∀ decl ∈ decls, decl.IsLayout := by
  unfold stageLayout at h
  extract_lets info at h
  split at h
  case h_1 => exact isLayout_of_geometryLayout h
  case h_5 =>
    split at h
    case isTrue =>
      have ⟨_, _, h⟩ := bind_eq_ok_iff.mp h
      cases h
      exact List.forall_mem_singleton.mpr trivial
    case isFalse =>
      cases h
      exact List.forall_mem_nil _
  case h_6 =>
    cases h
    exact List.forall_mem_nil _
  all_goals
    cases h
    exact List.forall_mem_singleton.mpr trivial

theorem isLayout_depthLayout : ∀ decl ∈ c.depthLayout, decl.IsLayout := by
  simp only [depthLayout]
  split_ifs <;> simp [Decl.IsLayout]

theorem exists_parts (h : c.decls = .ok decls) : ∃ layouts resources,
    (∀ decl ∈ layouts, decl.IsLayout) ∧ c.resources.decls c.dialect = .ok resources ∧
      decls = layouts ++ resources ++ c.interface.vars.map .interface ++
        c.resources.immediatesDecl c.dialect ++ c.registerDecls := by
  unfold Context.decls at h
  have ⟨layout, hlayout, h⟩ := bind_eq_ok_iff.mp h
  have ⟨_, _, h⟩ := bind_eq_ok_iff.mp h
  have ⟨resources, hresources, h⟩ := bind_eq_ok_iff.mp h
  have ⟨_, _, h⟩ := bind_eq_ok_iff.mp h
  cases h
  exact ⟨layout ++ c.depthLayout, resources,
    List.forall_mem_append.mpr ⟨isLayout_of_stageLayout hlayout, isLayout_depthLayout⟩,
    hresources, rfl⟩

end Context

end ShaderLift
