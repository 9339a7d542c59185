import ShaderLift.Proofs.Lift.Declared

/-!
The resources of a program are kept by slot. No slot of a kind is listed twice, and textures without
a sampler are not compared.
-/

namespace ShaderLift.Resources

open Std.Do

set_option mvcgen.warning false

variable {d : Dialect} {p : Program} {r r' : Resources} {inst : Instruction}

structure Ordered (r : Resources) : Prop where
  pairs   : r.pairs.Sorted
  buffers : r.buffers.Sorted
  uavs    : r.uavs.Sorted
  shared  : r.shared.Sorted
  shadow  : ∀ key ∈ r.pairs.keys, key.sampler = none → key.shadow = false

namespace Ordered

theorem declare (h : r.Ordered) {decl : Declared} : (r.declare d p decl).Ordered := by
  cases decl
  case resourceRaw | resourceStructured => exact { h with buffers := h.buffers.insert }
  case uavTyped | uavRaw | uavStructured => exact { h with uavs := h.uavs.insert }
  case tgsmRaw | tgsmStructured => exact { h with shared := h.shared.insert }
  all_goals exact ⟨h.pairs, h.buffers, h.uavs, h.shared, h.shadow⟩

theorem pair (h : r.Ordered) {key : Glsl.SamplerKey}
    (hk : key.sampler = none → key.shadow = false) :
    ({ r with pairs := r.pairs.insert key () } : Resources).Ordered where
  pairs := h.pairs.insert
  buffers := h.buffers
  uavs := h.uavs
  shared := h.shared
  shadow key' hkey := by
    cases SortedMap.mem_keys_insert.mp hkey
    case inl hkey => exact hkey ▸ hk
    case inr hkey => exact h.shadow key' hkey

theorem sampleUse (h : r.Ordered) {i : Nat} {texture : Option UInt32}
    (hr : r.sampleUse p i inst = .ok (r', texture)) : r'.Ordered := by
  have huse : ⦃⌜True⌝⦄ r.sampleUse p i inst ⦃⇓? s => ⌜s.1.Ordered⌝⦄ := by
    unfold Resources.sampleUse
    mvcgen [slotOf_spec]
    exact h.pair fun hs => by cases hs
  exact returns_iff.mp huse _ hr

theorem uavUse (h : r.Ordered) (hr : r.uavUse p inst = .ok r') : r'.Ordered := by
  have huse : ⦃⌜True⌝⦄ r.uavUse p inst ⦃⇓? s => ⌜s.Ordered⌝⦄ := by
    unfold Resources.uavUse
    mvcgen [slotOf_spec]
    exact { h with uavs := h.uavs.modify }
  exact returns_iff.mp huse _ hr

theorem scan (h : r.Ordered) {insts : List (Instruction × Nat)} {fetched fetched' : List UInt32}
    (hr : Resources.scan p r fetched insts = .ok (r', fetched')) : r'.Ordered := by
  induction insts generalizing r fetched
  case nil => cases hr; exact h
  case cons hi =>
    obtain ⟨⟨r₁, texture⟩, h₁, hr⟩ := bind_eq_ok_iff.mp hr
    obtain ⟨r₂, h₂, hr⟩ := bind_eq_ok_iff.mp hr
    exact hi ((h.sampleUse h₁).uavUse h₂) hr

theorem addFetched (h : r.Ordered) {texture : UInt32} : (r.addFetched texture).Ordered := by
  unfold Resources.addFetched
  split
  case isTrue => exact h
  case isFalse => exact h.pair fun _ => rfl

end Ordered

theorem ordered_of_collect (h : collect d p = .ok r) : r.Ordered := by
  have hempty : ({} : Resources).Ordered :=
    ⟨SortedMap.sorted_empty, SortedMap.sorted_empty, SortedMap.sorted_empty, SortedMap.sorted_empty,
      List.forall_mem_nil _⟩
  have hdeclared :=
    List.foldlRecOn p.declarations (fun r decl => r.declare d p decl.declared) hempty
      fun _ hr _ _ => Ordered.declare hr
  obtain ⟨⟨scanned, fetched⟩, hscan, h⟩ := bind_eq_ok_iff.mp h
  cases h
  exact List.foldlRecOn fetched _ (hdeclared.scan hscan) fun _ hr _ _ => hr.addFetched

end ShaderLift.Resources
