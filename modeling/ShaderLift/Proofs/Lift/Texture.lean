import ShaderLift.Proofs.Lift.Arithmetic
import ShaderLift.Lift.Texture

/-!
The lines of instructions that read textures.
-/

namespace ShaderLift

open Glsl Std.Do

set_option mvcgen.warning false

theorem Lookup.isWord_overload {lookup : Lookup} : IsWord lookup.overload := by
  cases lookup <;> decide

theorem ResourceDimension.isWord_legacyLookup {dimension : ResourceDimension} {shadow : Bool}
    {stem : String} (h : dimension.legacyLookup? shadow = some stem) : IsWord stem := by
  unfold legacyLookup? at h
  split at h
  case h_7 => cases h
  all_goals
    cases h
    decide

namespace Resources

variable {r : Resources} {key : SamplerKey}

theorem mem_keys_of_contains (h : r.pairs.contains key) : key ∈ r.pairs.keys := by
  have ⟨entry, hm, hr⟩ := List.any_eq_true.mp h
  exact List.mem_map.mpr ⟨entry, hm, Ranked.rank_inj (of_decide_eq_true hr)⟩

theorem mem_keys_of_pair? {texture sampler : UInt32} {shadow : Bool}
    (h : r.pair? texture sampler shadow = some key) : key ∈ r.pairs.keys := by
  simp only [pair?, Option.ite_none_right_eq_some, Option.some.injEq] at h
  exact mem_keys_of_contains (h.right ▸ h.left)

theorem mem_keys_of_fetchKey? {slot : UInt32} (h : r.fetchKey? slot = some key) :
    key ∈ r.pairs.keys := by
  simp only [fetchKey?, Option.or_eq_some_iff] at h
  cases h
  case inl h => exact List.mem_of_mem_filter (List.mem_of_find?_eq_some h)
  case inr h => exact List.mem_of_mem_filter (List.mem_of_head? h.right)

end Resources

namespace Context

variable {c : Context} {inst : Instruction} {dimension : ResourceDimension} {e : Expr}

@[spec] theorem texture_spec {id : OperandId} (hid : c.program.Reaches id) :
    ⦃⌜True⌝⦄ c.texture id ⦃⇓? _ => ⌜True⌝⦄ := by
  mvcgen [texture]

@[simp] theorem over_resourcePick {N : Name → Prop} {op : Operand} {components : List Nat} :
    (resourcePick op components e).Over N ↔ e.Over N :=
  Expr.over_pick

@[spec] theorem legacyFunction_spec {shadow : Bool} {lookup : Lookup} :
    ⦃⌜True⌝⦄ c.legacyFunction dimension shadow lookup ⦃⇓? f => ⌜IsWord f⌝⦄ := by
  have stems {stem} := @ResourceDimension.isWord_legacyLookup dimension shadow stem
  mvcgen [legacyFunction] with simp_all +decide

@[spec] theorem lookupFunction_spec {shadow hasOffset : Bool} {lookup : Lookup} :
    ⦃⌜True⌝⦄ c.lookupFunction dimension shadow lookup hasOffset ⦃⇓? f => ⌜IsWord f⌝⦄ := by
  mvcgen [lookupFunction]
  cases hasOffset <;> simp +decide [Lookup.isWord_overload]

theorem over_immediateOffset (h : c.immediateOffset inst dimension = some e) : e.Over c.names := by
  unfold immediateOffset at h
  split at h
  case h_1 =>
    have ⟨_, _, h⟩ := Option.map_eq_some_iff.mp h
    simp only [← h, offsetVector]
    split
    case h_1 => exact Expr.over_int
    case h_2 => exact ⟨isWord_vec, Expr.overs_iff.mpr (List.forall_mem_map.mpr fun _ _ => trivial)⟩
  case h_2 => cases h

@[spec] theorem compareCoord_spec {coord reference : Expr} (hc : coord.Over c.names)
    (hr : reference.Over c.names) :
    ⦃⌜True⌝⦄ c.compareCoord dimension coord reference
    ⦃⇓? r => ⌜r.1.Over c.names ∧ ∀ e ∈ r.2, e.Over c.names⌝⦄ := by
  mvcgen [compareCoord] with simp_all +decide

@[simp] theorem over_shadowResult {N : Name → Prop} : (c.shadowResult e).Over N ↔ e.Over N := by
  unfold shadowResult
  split <;> simp

-- A sample of an instruction of the program, over its names.
@[mk_iff] structure Samples (c : Context) (s : SampleCall) : Prop where
  inst    : s.inst ∈ c.program.instructions
  sampler : s.sampler.Over c.names
  coord   : s.coord.Over c.names
  offset  : ∀ e ∈ s.offset, e.Over c.names

section Sample

variable {s : SampleCall} (hs : c.Samples s)

include hs

@[spec] theorem sampleLevelZero_spec :
    ⦃⌜True⌝⦄ c.sampleLevelZero s ⦃⇓? v => ⌜v.call.Over c.names⌝⦄ := by
  have ⟨hi, hsampler, hcoord, hoffset⟩ := hs
  mvcgen [sampleLevelZero, sampleFunction] with simp_all +zetaDelta +decide

@[spec] theorem sampleValue_spec :
    ⦃⌜True⌝⦄ c.sampleValue s ⦃⇓? v => ⌜v.call.Over c.names⌝⦄ := by
  have ⟨hi, hsampler, hcoord, hoffset⟩ := hs
  mvcgen [sampleValue, sampleFunction] with
    simp_all +zetaDelta +decide [or_imp, apply_ite IsWord]

end Sample

@[spec] theorem fetchName_spec {slot : UInt32} :
    ⦃⌜True⌝⦄ c.fetchName slot ⦃⇓? e => ⌜e.Over c.names⌝⦄ := by
  mvcgen [fetchName]
  exact .sampler (Resources.mem_keys_of_fetchKey? ‹_›)

@[spec] theorem sizeVector_spec {name mip : Expr} {wantsLevels : Bool} (hn : name.Over c.names)
    (hm : mip.Over c.names) :
    ⦃⌜True⌝⦄ c.sizeVector name mip dimension wantsLevels ⦃⇓? e => ⌜e.Over c.names⌝⦄ := by
  mvcgen [sizeVector] with simp_all +zetaDelta +decide [or_imp]
  case vc1.isTrue => split <;> simp_all

section Instruction

variable (hi : inst ∈ c.program.instructions)

include hi

@[spec] theorem samplePair_spec {operands : SampleOperands} {position : Nat} :
    ⦃⌜True⌝⦄ c.samplePair inst operands position
    ⦃⇓? r => ⌜c.names (.sampler r.2.1)⌝⦄ := by
  mvcgen [samplePair]
  case vc5.success.success.success.success.success.success h =>
    exact .sampler (Resources.mem_keys_of_pair? h)

theorem sample_spec {operands : SampleOperands} {position : Nat} :
    ⦃⌜True⌝⦄ c.sample inst operands position ⦃⇓? lines => ⌜Emitted c.names lines⌝⦄ := by
  have offset {dimension e} := @over_immediateOffset c inst dimension e
  mvcgen [sample, Context.splat] with simp_all +zetaDelta +decide [samples_iff]
  case vc17.hs => exact fun _ => offset

theorem loadTexel_spec :
    ⦃⌜True⌝⦄ c.loadTexel inst ⦃⇓? lines => ⌜Emitted c.names lines⌝⦄ := by
  mvcgen [loadTexel, withDestination]
  case vc12 h _ _ _ _ =>
    have offset := over_immediateOffset h
    simp_all +zetaDelta +decide
  all_goals simp_all +zetaDelta +decide

theorem queryLod_spec :
    ⦃⌜True⌝⦄ c.queryLod inst ⦃⇓? lines => ⌜Emitted c.names lines⌝⦄ := by
  mvcgen [queryLod, withDestination] with simp_all +zetaDelta +decide

theorem sizeInfo_spec :
    ⦃⌜True⌝⦄ c.sizeInfo inst ⦃⇓? lines => ⌜Emitted c.names lines⌝⦄ := by
  mvcgen [sizeInfo, withDestination] with simp_all +zetaDelta +decide
  refine emitted_storeLine ‹_› (over_resourcePick.mpr ?_)
  split <;> simp_all +decide

end Instruction

end Context

end ShaderLift
