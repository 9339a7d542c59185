import ShaderLift.Proofs.Lift.Interface

/-!
The names of resources. Those that reflection data gives are cleaned when a constant buffer is
built, and nothing that is learnt from the instructions later touches the constant buffers.
-/

namespace ShaderLift

open Glsl Std.Do

set_option mvcgen.warning false

namespace SortedMap

variable {κ α : Type} [Ranked κ] {m : SortedMap κ α} {k : κ} {a : α}

theorem mem_values_of_get? (h : m.get? k = some a) : a ∈ m.values := by
  have ⟨e, he, ha⟩ := Option.map_eq_some_iff.mp h
  exact ha ▸ List.mem_map_of_mem (List.mem_of_find?_eq_some he)

theorem forall_mem_values_insert {P : α → Prop} (hm : ∀ b ∈ m.values, P b) (ha : P a) :
    ∀ b ∈ (m.insert k a).values, P b := by
  obtain ⟨entries⟩ := m
  simp only [values, List.forall_mem_map, insert, alter] at hm ⊢
  fun_induction alter.go k (fun _ => a) entries
  case case1 => exact List.forall_mem_singleton.mpr ha
  case case2 => exact List.forall_mem_cons.mpr ⟨ha, hm⟩
  case case3 => exact List.forall_mem_cons.mpr ⟨ha, (List.forall_mem_cons.mp hm).right⟩
  case case4 hi =>
    obtain ⟨he, hes⟩ := List.forall_mem_cons.mp hm
    exact List.forall_mem_cons.mpr ⟨he, hi hes⟩

end SortedMap

theorem forall_mem_of_mapM {α β : Type} {f : α → Option β} {P : β → Prop} {l : List α} {l' : List β}
    (h : l.mapM f = some l') (hf : ∀ a b, f a = some b → P b) : ∀ b ∈ l', P b := by
  induction l generalizing l'
  case nil => simp_all
  case cons hi =>
    simp only [List.mapM_cons, Option.bind_eq_bind, Option.bind_eq_some_iff] at h
    have ⟨b, hb, bs, hbs, h⟩ := h
    exact Option.some.inj h ▸ List.forall_mem_cons.mpr ⟨hf _ b hb, hi hbs⟩

namespace Member

variable {d : Dialect} {m : Member} {ms : List Member}

theorem isWord_of_ofVariable {v : Variable} (h : ofVariable d v = some m) : IsWord m.name := by
  simp only [ofVariable] at h
  split at h
  case isTrue => cases h
  case isFalse =>
    have ⟨_, _, h⟩ := Option.bind_eq_some_iff.mp h
    split at h
    case isTrue => exact Option.some.inj h ▸ Identifier.isWord_ofString
    case isFalse => cases h

theorem isWord_of_ofBuffer {buffer : ConstantBuffer} (h : ofBuffer d buffer = some ms) :
    ∀ m ∈ ms, IsWord m.name := by
  have ⟨vs, hvs, h⟩ := Option.map_eq_some_iff.mp h
  intro m hm
  have hm : m ∈ vs := (List.mergeSort_perm vs _).mem_iff.mp (h ▸ hm)
  exact forall_mem_of_mapM hvs (fun _ _ => isWord_of_ofVariable) m hm

end Member

structure UniformBuffer.Worded (b : UniformBuffer) : Prop where
  block   : IsWord b.blockName
  members : ∀ ms, b.members = some ms → ∀ m ∈ ms, IsWord m.name

theorem UniformBuffer.worded_build {d : Dialect} {slot size : UInt32} {dynamic : Bool}
    {buffer : Option ConstantBuffer} : (build d slot size dynamic buffer).Worded where
  block := by
    cases buffer
    case none => simp +decide [build]
    case some => exact Identifier.isWord_ofString
  members ms h := by
    simp only [build] at h
    split at h
    case isTrue => cases h
    case isFalse =>
      have ⟨_, _, h⟩ := Option.bind_eq_some_iff.mp (Option.eq_some_of_filter_eq_some h)
      exact Member.isWord_of_ofBuffer h

namespace Resources

def Worded (r : Resources) : Prop :=
  ∀ b ∈ r.constantBuffers.values, b.Worded

variable {d : Dialect} {p : Program} {r r' : Resources} {inst : Instruction}

theorem Worded.declare (h : r.Worded) {decl : Declared} : (r.declare d p decl).Worded := by
  cases decl
  case constantBuffer =>
    exact SortedMap.forall_mem_values_insert h UniformBuffer.worded_build
  all_goals exact h

theorem worded_declarations {decls : List Declaration} :
    (decls.foldl (fun (r : Resources) decl => r.declare d p decl.declared) {}).Worded :=
  List.foldlRecOn decls _ (List.forall_mem_nil _) fun _ h _ _ => h.declare

theorem slotOf_spec {kind : RegisterKind} {i : Nat} :
    ⦃⌜True⌝⦄ p.slotOf inst kind i ⦃⇓? _ => ⌜True⌝⦄ :=
  returns_iff.mpr fun _ _ => trivial

-- How instructions use resources says nothing about constant buffers.
@[spec] theorem sampleUse_spec {i : Nat} :
    ⦃⌜True⌝⦄ r.sampleUse p i inst ⦃⇓? s => ⌜s.1.constantBuffers = r.constantBuffers⌝⦄ := by
  mvcgen [sampleUse, slotOf_spec]

@[spec] theorem uavUse_spec :
    ⦃⌜True⌝⦄ r.uavUse p inst ⦃⇓? s => ⌜s.constantBuffers = r.constantBuffers⌝⦄ := by
  mvcgen [uavUse, slotOf_spec]

theorem scan_spec {fetched : List UInt32} {insts : List (Instruction × Nat)} :
    ⦃⌜True⌝⦄ scan p r fetched insts ⦃⇓? s => ⌜s.1.constantBuffers = r.constantBuffers⌝⦄ := by
  induction insts generalizing r fetched
  case nil => mvcgen [scan]
  case cons hi => mvcgen [scan, hi] with simp_all

-- Textures that are read without a sampler add to the pairs, and to nothing else.
theorem exists_pairs_of_addFetched (r : Resources) (fetched : List UInt32) :
    ∃ pairs, fetched.foldl addFetched r = { r with pairs } := by
  refine List.foldlRecOn (motive := fun s : Resources => ∃ pairs, s = { r with pairs }) fetched _
    ⟨r.pairs, rfl⟩ fun s hs texture _ => ?_
  obtain ⟨pairs, rfl⟩ := hs
  unfold addFetched
  split <;> exact ⟨_, rfl⟩

theorem worded_of_collect (h : collect d p = .ok r) : r.Worded := by
  have hcollect : ⦃⌜True⌝⦄ collect d p ⦃⇓? r => ⌜r.Worded⌝⦄ := by
    mvcgen [collect, scan_spec]
    rename_i h
    obtain ⟨_, hfetched⟩ := exists_pairs_of_addFetched _ _
    rw [hfetched, Worded, h]
    exact worded_declarations
  exact returns_iff.mp hcollect _ h

end Resources

theorem Names.isPlain {p : Program} {f : Flow} {r : Resources} {i : Interface} (hr : r.Worded)
    (hi : i.Sound) {name : Name} (h : Names p f r i name) : name.IsPlain := by
  refine IsWord.plain ?_
  cases h
  case member declared named mem =>
    exact (hr _ (SortedMap.mem_values_of_get? declared)).members _ named _ mem
  case varying mem => exact hi.varyings _ mem
  case builtin word => exact isWord_append.mpr ⟨by decide, word⟩
  case sampler => exact SamplerKey.isWord_name
  case file => exact RegisterFile.isWord_name
  case subroutine => exact isWord_subroutineName
  all_goals simp +decide [Name.text]

end ShaderLift
