import ShaderLift.Proofs.Lift.Border
import ShaderLift.Proofs.Text.Stems

/-!
The variables that stages hand on. Which entries of a signature make one, and under which name, can
be told from the stage and the entry.
-/

namespace ShaderLift

open Glsl Std.Do

set_option mvcgen.warning false

namespace Border

variable {b : Border} {e : SignatureEntry} {clip : Nat} {i : Interface} {es : Signature}
variable {kind : SignatureClass} {name : String}

-- The letters of inputs, and the system values that have variables of the language.
def inputLetters (b : Border) : Option (String × List SystemValue) :=
  match b.stage with
  | .vertex => some ("a", [.vertexId, .instanceId])
  | .pixel =>
    some (if b.options.hasGeometry then "g" else "v",
      [.position, .isFrontFace, .sampleIndex, .primitiveId, .renderTargetArrayIndex,
        .viewportArrayIndex, .clipDistance, .cullDistance])
  | .geometry => some ("v", [.position, .clipDistance, .cullDistance])
  | .hull => some ("v", [.position, .cullDistance])
  | .domain => some ("tc", [.position, .cullDistance])
  | .compute => none

-- The same of outputs that other stages read.
def outputLetters (b : Border) : Option (String × List SystemValue) :=
  match b.stage with
  | .hull => some ("tc", [.position, .clipDistance, .cullDistance])
  | .geometry =>
    if b.dropsVaryings then none
    else some ("g", [.position, .clipDistance, .cullDistance, .renderTargetArrayIndex,
      .viewportArrayIndex, .primitiveId])
  | .vertex | .domain =>
    if b.dropsVaryings then none
    else some ("v", [.position, .clipDistance, .cullDistance, .renderTargetArrayIndex,
      .viewportArrayIndex])
  | .pixel | .compute => none

def varyingName? (letters : Option (String × List SystemValue)) (e : SignatureEntry) :
    Option String :=
  letters.bind fun (letters, builtins) =>
    if e.isSkipped ∨ e.systemValue ∈ builtins then none else some (e.variableName letters)

def inputName? (b : Border) (e : SignatureEntry) : Option String :=
  varyingName? b.inputLetters e

def outputName? (b : Border) (e : SignatureEntry) : Option String :=
  if b.stage = .pixel then
    if e.isSkipped ∨ !b.dialect.has .fragDataOutputs then none
    else some ("out_Target" ++ decimal e.semanticIndex)
  else varyingName? b.outputLetters e

def patchName? (e : SignatureEntry) : Option String :=
  if e.systemValue.isEdgeTessFactor || e.systemValue.isInsideTessFactor || e.isSkipped then none
  else some (e.variableName "pc")

-- The names of the variables that an interface declares.
def Names (i : Interface) (names : List String) : Prop :=
  i.vars.map (·.name) = names

section Entry

variable (he : ¬e.isSkipped)

include he

theorem names_vertexInput (hs : b.stage = .vertex) :
    ⦃⌜True⌝⦄ b.vertexInput e ⦃⇓? i => ⌜Names i (b.inputName? e).toList⌝⦄ := by
  unfold vertexInput
  mvcgen with simp_all +zetaDelta [Names, inputName?, inputLetters, varyingName?]

theorem names_pixelInput (hs : b.stage = .pixel) :
    ⦃⌜True⌝⦄ b.pixelInput clip e ⦃⇓? i => ⌜Names i (b.inputName? e).toList⌝⦄ := by
  unfold pixelInput
  mvcgen with simp_all +zetaDelta [Names, inputName?, inputLetters, varyingName?]

theorem names_arrayInput (hs : b.stage = .geometry ∨ b.stage = .hull ∨ b.stage = .domain) :
    ⦃⌜True⌝⦄ b.arrayInput clip e ⦃⇓? i => ⌜Names i (b.inputName? e).toList⌝⦄ := by
  unfold arrayInput
  rcases hs with hs | hs | hs
  all_goals mvcgen with simp_all +zetaDelta [Names, inputName?, inputLetters, varyingName?]

theorem names_hullOutput (hs : b.stage = .hull) :
    ⦃⌜True⌝⦄ b.hullOutput e ⦃⇓? i => ⌜Names i (b.outputName? e).toList⌝⦄ := by
  unfold hullOutput
  mvcgen with simp_all +zetaDelta [Names, outputName?, outputLetters, varyingName?]

theorem names_vertexOutput (hs : b.stage = .vertex ∨ b.stage = .domain ∨ b.stage = .geometry) :
    ⦃⌜True⌝⦄ b.vertexOutput clip e ⦃⇓? i => ⌜Names i (b.outputName? e).toList⌝⦄ := by
  unfold vertexOutput
  rcases hs with hs | hs | hs
  all_goals mvcgen with simp_all +zetaDelta [Names, outputName?, outputLetters, varyingName?]

theorem names_pixelOutput (hs : b.stage = .pixel) :
    Names (b.pixelOutput e) (b.outputName? e).toList := by
  simp only [pixelOutput]
  split <;> simp_all [Names, outputName?]

theorem names_input : ⦃⌜True⌝⦄ b.input clip e ⦃⇓? i => ⌜Names i (b.inputName? e).toList⌝⦄ := by
  unfold input
  cases hs : b.stage
  case vertex => exact names_vertexInput he hs
  case pixel => exact names_pixelInput he hs
  case compute => exact fun _ => by simp [Names, inputName?, inputLetters, varyingName?, hs]
  all_goals exact names_arrayInput he (by simp [hs])

theorem names_output : ⦃⌜True⌝⦄ b.output clip e ⦃⇓? i => ⌜Names i (b.outputName? e).toList⌝⦄ := by
  unfold output
  cases hs : b.stage
  case pixel => exact fun _ => names_pixelOutput he hs
  case hull => exact names_hullOutput he hs
  case compute => exact fun _ => by simp [Names, outputName?, outputLetters, varyingName?, hs]
  all_goals exact names_vertexOutput he (by simp [hs])

end Entry

theorem names_patch : Names (b.patch e) (patchName? e).toList := by
  simp only [patch]
  split_ifs <;> simp_all [Names, patchName?]

theorem names_append {j : Interface} {names names' : List String} (hi : Names i names)
    (hj : Names j names') : Names (i ++ j) (names ++ names') := by
  unfold Names at hi hj ⊢
  rw [← hi, ← hj]
  exact List.map_append

-- What entries contribute is found one by one, and entries without a register make no variable.
theorem names_entries {one : Nat → SignatureEntry → Except LiftError Interface}
    {name? : SignatureEntry → Option String} (hskip : ∀ e, e.isSkipped → name? e = none)
    (hone : ∀ clip e, ¬e.isSkipped → ⦃⌜True⌝⦄ one clip e ⦃⇓? i => ⌜Names i (name? e).toList⌝⦄)
    (h : entries one clip es = .ok i) : Names i (es.filterMap name?) := by
  induction es generalizing clip i
  case nil => cases h; rfl
  case cons e es hi =>
    unfold entries at h
    split at h
    case isTrue he =>
      rw [List.filterMap_cons_none (hskip e he)]
      exact hi h
    case isFalse he =>
      obtain ⟨part, hpart, h⟩ := bind_eq_ok_iff.mp h
      obtain ⟨rest, hrest, h⟩ := bind_eq_ok_iff.mp h
      cases h
      rw [List.filterMap_cons]
      have hpart : Names part (name? e).toList := returns_iff.mp (hone clip e he) part hpart
      have hnames := names_append hpart (hi hrest)
      cases he : name? e <;> rw [he] at hnames <;> exact hnames

theorem names_patches :
    Names (es.foldl (fun i e => i ++ b.patch e) i)
      (i.vars.map (·.name) ++ es.filterMap patchName?) := by
  induction es generalizing i
  case nil => exact (List.append_nil _).symm
  case cons e es hi =>
    have hhead : (i ++ b.patch e).vars.map (·.name) =
        i.vars.map (·.name) ++ (patchName? e).toList :=
      names_append rfl names_patch
    have hi := hi (i := i ++ b.patch e)
    rw [hhead, List.append_assoc] at hi
    rw [List.foldl_cons, List.filterMap_cons]
    cases he : patchName? e <;> rw [he] at hi <;> exact hi

theorem inputName?_skipped (he : e.isSkipped) : b.inputName? e = none := by
  simp [inputName?, varyingName?, he]

theorem outputName?_skipped (he : e.isSkipped) : b.outputName? e = none := by
  simp [outputName?, varyingName?, he]

theorem names_inputs (h : entries b.input clip es = .ok i) : Names i (es.filterMap b.inputName?) :=
  names_entries (fun _ => inputName?_skipped) (fun _ _ => names_input) h

theorem names_outputs (h : entries b.output clip es = .ok i) :
    Names i (es.filterMap b.outputName?) :=
  names_entries (fun _ => outputName?_skipped) (fun _ _ => names_output) h

-- The name of the variable that an entry of a signature makes, if it makes one.
def name? (b : Border) : SignatureClass → SignatureEntry → Option String
  | .input => b.inputName?
  | .output => b.outputName?
  | .patch => patchName?

-- The names of all variables at the borders of a stage.
def names (b : Border) (sig : SignatureClass → Signature) : List String :=
  (sig .input).filterMap (b.name? .input) ++ (sig .output).filterMap (b.name? .output) ++
    (sig .patch).filterMap (b.name? .patch)

-- What the names of a class start with, in a stage that a geometry shader comes before or not.
def wordOf (stage : Stage) (hasGeometry : Bool) : SignatureClass → String
  | .input =>
    match stage with
    | .vertex | .compute => "a_"
    | .pixel => if hasGeometry then "g_" else "v_"
    | .geometry | .hull => "v_"
    | .domain => "tc_"
  | .output =>
    match stage with
    | .pixel => "out_Target"
    | .hull => "tc_"
    | .geometry => "g_"
    | .vertex | .domain | .compute => "v_"
  | .patch => "pc_"

def word (b : Border) (kind : SignatureClass) : String :=
  wordOf b.stage b.options.hasGeometry kind

def words : List String :=
  ["a_", "v_", "g_", "tc_", "pc_", "out_Target"]

def Starts (word name : String) : Prop :=
  word.toList <+: (stem name).toList

theorem starts_variableName {letters word : String} (h : stem letters ++ "_" = word) :
    Starts word (e.variableName letters) := by
  have hunderscore : stem "_" = "_" := by decide
  have hstem : (stem (e.variableName letters)).toList = (stem letters ++ "_").toList ++
      (stem (Identifier.ofSemantic e.semantic e.semanticIndex)).toList := by
    rw [SignatureEntry.variableName, stem_append, stem_append, hunderscore, String.toList_append]
  rw [Starts, hstem, h]
  exact List.prefix_append ..

theorem starts_of_varyingName? {letters : Option (String × List SystemValue)} {word : String}
    (hl : ∀ l ∈ letters, stem l.1 ++ "_" = word) (h : varyingName? letters e = some name) :
    Starts word name := by
  obtain ⟨l, hletters, h⟩ := Option.bind_eq_some_iff.mp h
  dsimp only at h
  split at h
  case isTrue => cases h
  case isFalse => exact Option.some.inj h ▸ starts_variableName (hl l hletters)

theorem starts_of_name? (h : b.name? kind e = some name) : Starts (b.word kind) name := by
  unfold word
  cases kind
  case input =>
    refine starts_of_varyingName? (fun l hl => ?_) h
    unfold inputLetters at hl
    generalize b.options.hasGeometry = hasGeometry at hl ⊢
    cases hs : b.stage <;> simp only [hs] at hl <;> cases hl <;> cases hasGeometry <;> decide
  case output =>
    simp only [name?, outputName?] at h
    split at h
    case isTrue hs =>
      split at h
      case isTrue => cases h
      case isFalse =>
        have htarget : stem "out_Target" = "out_Target" := by decide
        cases h
        simp [Starts, wordOf, hs, htarget]
    case isFalse =>
      refine starts_of_varyingName? (fun l hl => ?_) h
      unfold outputLetters at hl
      generalize b.options.hasGeometry = hasGeometry
      cases hs : b.stage <;> simp only [hs] at hl
      case hull => cases hl; cases hasGeometry <;> decide
      case pixel | compute => cases hl
      all_goals
        split at hl <;> cases hl
        cases hasGeometry <;> decide
  case patch =>
    simp only [name?, patchName?] at h
    split at h
    case isTrue => cases h
    case isFalse =>
      have hword : stem "pc" ++ "_" = "pc_" := by decide
      exact Option.some.inj h ▸ starts_variableName hword

theorem word_mem_words : b.word kind ∈ words := by
  unfold word
  cases kind <;> cases b.stage <;> cases b.options.hasGeometry <;> decide

-- Of two words for different classes neither starts with the other.
theorem not_prefix_word {kind' : SignatureClass} (h : kind ≠ kind') :
    ¬(b.word kind).toList <+: (b.word kind').toList := by
  unfold word
  revert h
  cases kind <;> cases kind' <;> cases b.stage <;> cases b.options.hasGeometry <;> decide

theorem ne_of_starts {kind' : SignatureClass} (h : kind ≠ kind') {s t : String}
    (hs : Starts (b.word kind) s) (ht : Starts (b.word kind') t) : s ≠ t := by
  intro heq
  subst heq
  cases List.prefix_or_prefix_of_prefix hs ht
  case inl hw => exact not_prefix_word h hw
  case inr hw => exact not_prefix_word h.symm hw

theorem starts_of_mem (h : name ∈ es.filterMap (b.name? kind)) : Starts (b.word kind) name :=
  have ⟨_, _, h⟩ := List.mem_filterMap.mp h
  starts_of_name? h

theorem exists_word_of_mem_names {sig : SignatureClass → Signature} (h : name ∈ b.names sig) :
    ∃ word ∈ words, Starts word name := by
  simp only [names, List.mem_append] at h
  rcases h with (h | h) | h <;> exact ⟨_, word_mem_words, starts_of_mem h⟩

-- Variables of different classes have different names.
theorem nodup_names_iff {sig : SignatureClass → Signature} :
    (b.names sig).Nodup ↔ ∀ kind, ((sig kind).filterMap (b.name? kind)).Nodup := by
  rw [names, List.nodup_append, List.nodup_append]
  constructor
  case mp =>
    rintro ⟨⟨hinput, houtput, _⟩, hpatch, _⟩ (_ | _ | _) <;> assumption
  case mpr =>
    intro h
    refine ⟨⟨h .input, h .output, fun s hs t ht => ?_⟩, h .patch, fun s hs t ht => ?_⟩
    case refine_1 => exact ne_of_starts (by decide) (starts_of_mem hs) (starts_of_mem ht)
    case refine_2 =>
      cases List.mem_append.mp hs
      case inl hs => exact ne_of_starts (by decide) (starts_of_mem hs) (starts_of_mem ht)
      case inr hs => exact ne_of_starts (by decide) (starts_of_mem hs) (starts_of_mem ht)

end Border

theorem Interface.names_of_build {d : Dialect} {o : Options} {p : Program} {phases : Option Phases}
    {i : Interface} {sizes : FileSizes} (h : build d o p phases = .ok (i, sizes)) :
    ∃ sig : SignatureClass → Signature, (∀ kind, p.signature phases kind = .ok (sig kind)) ∧
      i.vars.map (·.name) =
        ({ dialect := d, options := o, stage := p.stage, sizes } : Border).names sig := by
  unfold build at h
  obtain ⟨inputs, hinputs, h⟩ := bind_eq_ok_iff.mp h
  obtain ⟨outputs, houtputs, h⟩ := bind_eq_ok_iff.mp h
  obtain ⟨patch, hpatch, h⟩ := bind_eq_ok_iff.mp h
  obtain ⟨_, _, h⟩ := bind_eq_ok_iff.mp h
  obtain ⟨i, hi, h⟩ := bind_eq_ok_iff.mp h
  obtain ⟨j, hj, h⟩ := bind_eq_ok_iff.mp h
  obtain ⟨_, _, h⟩ := bind_eq_ok_iff.mp h
  cases h
  refine ⟨fun | .input => inputs | .output => outputs | .patch => patch, ?_, ?_⟩
  case refine_1 => rintro (_ | _ | _) <;> assumption
  case refine_2 =>
    have hnames := Border.names_append (Border.names_inputs hi) (Border.names_outputs hj)
    exact Border.names_append hnames Border.names_patches

end ShaderLift
