import ShaderLift.Proofs.Glsl.Declaration
import ShaderLift.Proofs.Lift.Sources

/-!
What the interface of a stage contributes to a shader: variables whose declarations are plain text
and whose names are words.
-/

namespace ShaderLift

variable {N : Name → Prop}

open Glsl Std.Do

set_option mvcgen.warning false

namespace Glsl

def Name.IsPlain (name : Name) : Prop :=
  Plain name.text

namespace Name

variable {name : String}

@[simp] theorem isPlain_file {f : RegisterFile} : (file f).IsPlain :=
  RegisterFile.isWord_name.plain

@[simp] theorem isPlain_varying : (varying name).IsPlain ↔ Plain name :=
  .rfl

@[simp] theorem isPlain_builtin : (builtin name).IsPlain ↔ Plain name := by
  simp +decide [IsPlain, text]

@[simp] theorem isPlain_loopIndex : loopIndex.IsPlain := by
  unfold IsPlain
  decide

end Name

end Glsl

namespace Terminal

def Over (N : Name → Prop) : Terminal → Prop
  | scalar value _ | vector value _ => value.Over N
  | lanes values => ∀ value ∈ values, value.Over N

variable {N : Name → Prop} {d : Dialect} {register : Expr} {mask : WriteMask} {t : Terminal}

@[simp] theorem over_scalar {value : Expr} {type : ValueType} :
    (scalar value type).Over N ↔ value.Over N :=
  .rfl

@[simp] theorem over_vector {value : Expr} {type : ValueType} :
    (vector value type).Over N ↔ value.Over N :=
  .rfl

@[simp] theorem over_lanes {values : List Expr} :
    (lanes values).Over N ↔ ∀ value ∈ values, value.Over N :=
  .rfl

theorem over_maskPick {e : Expr} : (maskPick mask e).Over N ↔ e.Over N := by
  unfold maskPick
  split <;> simp

theorem over_load (hr : register.Over N) (ht : t.Over N) :
    ∀ s ∈ t.load d register mask, s.Over N := by
  cases t
  case scalar => simpa [load, hr] using ht
  case vector => simpa [load, hr, over_maskPick] using ht
  case lanes => exact forall_mem_zipWith fun _ _ value hv => ⟨hr, ht value hv⟩

theorem over_store (hr : register.Over N) (ht : t.Over N) :
    ∀ s ∈ t.store d register mask, s.Over N := by
  cases t
  case scalar => simpa [store, hr] using ht
  case vector => simpa [store, hr, over_maskPick] using ht
  case lanes => exact forall_mem_zipWith fun _ _ value hv => ⟨ht value hv, hr⟩

end Terminal

@[mk_iff] structure Interface.Sound (i : Interface) : Prop where
  vars     : ∀ v ∈ i.vars, Plain v.text
  varyings : ∀ v ∈ i.varyings, IsWord v.name

namespace Interface

theorem sound_empty : ({} : Interface).Sound := by
  simp [sound_iff]

theorem Sound.append {i j : Interface} (hi : i.Sound) (hj : j.Sound) : (i ++ j).Sound where
  vars := List.forall_mem_append.mpr ⟨hi.vars, hj.vars⟩
  varyings := List.forall_mem_append.mpr ⟨hi.varyings, hj.varyings⟩

end Interface

@[simp] theorem over_fileRegister {f : RegisterFile} {r : UInt32} :
    (fileRegister f r).Over N ↔ N (.file f) := by
  simp [fileRegister]

@[simp] theorem over_vertexRegister {f : RegisterFile} {stride r : UInt32} :
    (vertexRegister f stride r).Over N ↔ N (.file f) ∧ N .loopIndex := by
  simp [vertexRegister]

@[simp high] theorem Terminal.over_elements {array : Expr} {first count : Nat} :
    (lanes (elements array first count)).Over N ↔ (0 < count → array.Over N) := by
  simp only [over_lanes, elements, List.forall_mem_map, List.mem_range]
  exact ⟨fun h hc => (h 0 hc).left, fun h _ hi => ⟨h (Nat.zero_lt_of_lt hi), trivial⟩⟩

namespace SignatureEntry

variable {e : SignatureEntry} {letters : String}

@[simp] theorem isWord_variableName : IsWord (e.variableName letters) ↔ IsWord letters := by
  simp +decide [variableName, Identifier.isWord_ofSemantic]

@[simp] theorem plain_variableName : Plain (e.variableName letters) ↔ Plain letters := by
  simp +decide [variableName, Identifier.isWord_ofSemantic.plain]

end SignatureEntry

namespace Border

variable {b : Border} {e : SignatureEntry} {clip : Nat}

@[spec] theorem require_spec {f : Feature} : ⦃⌜True⌝⦄ b.require f ⦃⇓? _ => ⌜True⌝⦄ :=
  returns_iff.mpr fun _ _ => trivial

@[simp] theorem plain_vec4 {t : ValueType} : Plain (b.vec4 t) :=
  ValueType.isWord_vecName.plain

@[simp] theorem plain_inKeyword : Plain b.inKeyword := by
  unfold inKeyword
  split
  case isTrue => decide
  case isFalse => split <;> decide

@[simp] theorem plain_outKeyword : Plain b.outKeyword := by
  unfold outKeyword
  split <;> decide

@[simp] theorem mem_flat {t : ValueType} {q : String} : q ∈ flat t ↔ t ≠ .float ∧ q = "flat" := by
  unfold flat
  split <;> simp_all

@[spec] theorem interpolation_spec {type : ValueType} :
    ⦃⌜True⌝⦄ b.interpolation e type ⦃⇓? qs => ⌜∀ q ∈ qs, Plain q⌝⦄ := by
  mvcgen [interpolation] with simp_all +decide

@[spec] theorem vertexInput_spec : ⦃⌜True⌝⦄ b.vertexInput e ⦃⇓? i => ⌜i.Sound⌝⦄ := by
  mvcgen [vertexInput]
    with simp_all +zetaDelta +decide [Interface.sound_iff, or_imp]

@[spec] theorem pixelInput_spec : ⦃⌜True⌝⦄ b.pixelInput clip e ⦃⇓? i => ⌜i.Sound⌝⦄ := by
  mvcgen [pixelInput]
    with simp_all +zetaDelta +decide [Interface.sound_iff, or_imp, apply_ite]

@[spec] theorem arrayInput_spec : ⦃⌜True⌝⦄ b.arrayInput clip e ⦃⇓? i => ⌜i.Sound⌝⦄ := by
  mvcgen [arrayInput]
    with simp_all +zetaDelta +decide [Interface.sound_iff, or_imp, apply_ite Plain]

@[spec] theorem hullOutput_spec : ⦃⌜True⌝⦄ b.hullOutput e ⦃⇓? i => ⌜i.Sound⌝⦄ := by
  mvcgen [hullOutput] with simp_all +zetaDelta +decide [Interface.sound_iff]

@[spec] theorem vertexOutput_spec : ⦃⌜True⌝⦄ b.vertexOutput clip e ⦃⇓? i => ⌜i.Sound⌝⦄ := by
  mvcgen [vertexOutput]
    with simp_all +zetaDelta +decide [Interface.sound_iff, or_imp, apply_ite Plain]

theorem sound_pixelOutput : (b.pixelOutput e).Sound := by
  simp only [pixelOutput]
  split <;> simp +decide [Interface.sound_iff, or_imp, forall_and]

@[spec] theorem input_spec : ⦃⌜True⌝⦄ b.input clip e ⦃⇓? i => ⌜i.Sound⌝⦄ := by
  mvcgen [input] with simp [Interface.sound_empty]

@[spec] theorem output_spec : ⦃⌜True⌝⦄ b.output clip e ⦃⇓? i => ⌜i.Sound⌝⦄ := by
  mvcgen [output] with simp [Interface.sound_empty, sound_pixelOutput]

theorem sound_patch : (b.patch e).Sound := by
  simp only [patch]
  split_ifs <;> simp +decide [Interface.sound_iff]

theorem entries_spec {one : Nat → SignatureEntry → Except LiftError Interface}
    (hone : ∀ clip e, ⦃⌜True⌝⦄ one clip e ⦃⇓? i => ⌜i.Sound⌝⦄) {es : Signature} :
    ⦃⌜True⌝⦄ entries one clip es ⦃⇓? i => ⌜i.Sound⌝⦄ := by
  induction es generalizing clip
  case nil => mvcgen [entries] with exact Interface.sound_empty
  case cons hi =>
    mvcgen [entries, hone, hi]
    exact Interface.Sound.append ‹_› ‹_›

end Border

namespace Interface

variable {d : Dialect} {o : Options} {p : Program} {phases : Option Phases} {sizes : FileSizes}

theorem sound_patches {b : Border} {es : Signature} :
    (es.foldl (fun i e => i ++ b.patch e) ({} : Interface)).Sound :=
  List.foldlRecOn es _ sound_empty fun _ hi _ _ => hi.append Border.sound_patch

theorem sound_of_build {i : Interface} (h : build d o p phases = .ok (i, sizes)) : i.Sound := by
  have signature {s : SignatureClass} : ⦃⌜True⌝⦄ p.signature phases s ⦃⇓? _ => ⌜True⌝⦄ :=
    returns_iff.mpr fun _ _ => trivial
  have fileSizes {i u q : Signature} : ⦃⌜True⌝⦄ p.fileSizes o i u q ⦃⇓? _ => ⌜True⌝⦄ :=
    returns_iff.mpr fun _ _ => trivial
  have hbuild : ⦃⌜True⌝⦄ build d o p phases ⦃⇓? built => ⌜built.1.Sound⌝⦄ := by
    mvcgen [build, signature, fileSizes, Border.entries_spec]
    exact (Sound.append ‹_› ‹_›).append sound_patches
  exact returns_iff.mp hbuild _ h

end Interface

end ShaderLift
