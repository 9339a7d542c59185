import ShaderLift.Proofs.Glsl.Calls
import ShaderLift.Proofs.Lift.Interface
import ShaderLift.Proofs.Lift.Lifted

/-!
The lines at the borders of a stage copy between registers and the variables of the interface. They
name nothing else, and do nothing else. An underscore tells these variables from all registers.
-/

namespace ShaderLift

variable {e : SignatureEntry}

open Glsl Std.Do

set_option mvcgen.warning false

namespace Glsl.Name

variable {name : String}

def IsBorder : Name → Prop
  | file _ | loopIndex => True
  | varying name | builtin name => Plain name
  | _ => False

@[simp] theorem isBorder_file {f : RegisterFile} : (file f).IsBorder :=
  trivial

@[simp] theorem isBorder_varying : (varying name).IsBorder ↔ Plain name :=
  .rfl

@[simp] theorem isBorder_builtin : (builtin name).IsBorder ↔ Plain name :=
  .rfl

@[simp] theorem isBorder_loopIndex : loopIndex.IsBorder :=
  trivial

theorem IsBorder.isPlain {name : Name} (h : name.IsBorder) : name.IsPlain := by
  cases name
  case file => exact isPlain_file
  case varying => exact h
  case builtin => exact isPlain_builtin.mpr h
  case loopIndex => exact isPlain_loopIndex
  all_goals cases h

end Glsl.Name

@[simp] theorem SignatureEntry.underscore_mem_variableName {letters : String} :
    '_' ∈ (e.variableName letters).toList := by
  simp [variableName]

def Copies (lines : List Line) : Prop :=
  ∀ line ∈ lines, line.Over Name.IsBorder

theorem Copies.nil : Copies [] :=
  List.forall_mem_nil _

theorem Copies.append {lines lines' : List Line} (h : Copies lines) (h' : Copies lines') :
    Copies (lines ++ lines') :=
  List.forall_mem_append.mpr ⟨h, h'⟩

namespace Terminal

variable {d : Dialect} {register e : Expr} {mask : WriteMask} {t : Terminal}

def Calls (V : Vocabulary) : Terminal → Prop
  | scalar value _ | vector value _ => value.Calls V
  | lanes values => ∀ value ∈ values, value.Calls V

variable {V : Vocabulary}

@[simp] theorem calls_maskPick : (maskPick mask e).Calls V ↔ e.Calls V := by
  unfold maskPick
  split <;> simp

theorem calls_load (hr : register.Calls .least) (ht : t.Calls .least) :
    ∀ s ∈ t.load d register mask, s.Calls .least := by
  cases t
  case scalar | vector => simpa [load, hr, Calls] using ht
  case lanes =>
    exact forall_mem_zipWith fun _ _ value hv => ⟨Expr.targets_least.mpr hr, ht value hv⟩

theorem calls_store (hr : register.Calls .least) (ht : t.Calls .least) :
    ∀ s ∈ t.store d register mask, s.Calls .least := by
  cases t
  case scalar | vector => simpa [store, hr, Calls] using ht
  case lanes =>
    exact forall_mem_zipWith fun _ _ value hv => ⟨Expr.targets_least.mpr (ht value hv), hr⟩

-- What a register may be copied from or to.
@[mk_iff] structure AtBorder (t : Terminal) : Prop where
  within : t.Over Name.IsBorder
  calls  : t.Calls .least

variable {type : ValueType} {values : List Expr}

@[simp] theorem atBorder_scalar :
    (scalar e type).AtBorder ↔ e.Over Name.IsBorder ∧ e.Calls .least :=
  atBorder_iff _

@[simp] theorem atBorder_vector :
    (vector e type).AtBorder ↔ e.Over Name.IsBorder ∧ e.Calls .least :=
  atBorder_iff _

@[simp] theorem atBorder_lanes :
    (lanes values).AtBorder ↔
      (∀ value ∈ values, value.Over Name.IsBorder) ∧ ∀ value ∈ values, value.Calls .least :=
  atBorder_iff _

@[simp high] theorem atBorder_elements {first count : Nat} :
    (lanes (elements e first count)).AtBorder ↔
      0 < count → e.Over Name.IsBorder ∧ e.Calls .least := by
  have hq : (lanes (elements e first count)).Calls .least ↔ (0 < count → e.Calls .least) := by
    simp only [Calls, elements, List.forall_mem_map, List.mem_range]
    exact ⟨fun h hc => (Expr.calls_index.mp (h 0 hc)).left,
      fun h _ hi => Expr.calls_index.mpr ⟨h (Nat.zero_lt_of_lt hi), Expr.calls_int⟩⟩
  rw [atBorder_iff, over_elements, hq, imp_and]

end Terminal

-- Lines that do nothing but copy.
inductive Moved : List Line → Prop
  | nil : Moved []
  | append {lines lines'} (h : Moved lines) (h' : Moved lines') : Moved (lines ++ lines')
  | load {t : Terminal} {d f r mask} (h : t.AtBorder) :
      Moved (Border.lines (t.load d (fileRegister f r) mask))
  | store {t : Terminal} {d f r mask} (h : t.AtBorder) :
      Moved (Border.lines (t.store d (fileRegister f r) mask))
  | times {t : Terminal} {d f r mask n stride} (h : t.AtBorder) :
      Moved (block (.times n) [.stmts (t.load d (vertexRegister f stride r) mask)])

namespace Moved

variable {lines : List Line}

theorem copies (h : Moved lines) : Copies lines := by
  induction h
  case nil => exact .nil
  case append hi hi' => exact hi.append hi'
  case load h =>
    refine List.forall_mem_map.mpr fun s hs => Line.over_stmt.mpr ?_
    exact Terminal.over_load (over_fileRegister.mpr trivial) h.within s hs
  case store h =>
    refine List.forall_mem_map.mpr fun s hs => Line.over_stmt.mpr ?_
    exact Terminal.over_store (over_fileRegister.mpr trivial) h.within s hs
  case times h =>
    have hr {f stride r} : (vertexRegister f stride r).Over Name.IsBorder := by simp
    exact over_block trivial (List.forall_mem_singleton.mpr (Terminal.over_load hr h.within))

theorem balanced (h : Moved lines) : Balanced (braceWord lines) := by
  have hborder (name : Name) (h : name.IsBorder) : Plain name.text := h.isPlain
  have hstmt {s : Stmt} (hs : s.Over Name.IsBorder) : Balanced (braceWord [.stmt s]) :=
    Line.balanced_stmts hborder (List.forall_mem_singleton.mpr hs)
  induction h
  case nil => exact .nil
  case append hi hi' => exact braceWord_append ▸ hi.append hi'
  case load h =>
    refine balanced_braceWord (List.forall_mem_map.mpr fun s hs => hstmt ?_)
    exact Terminal.over_load (over_fileRegister.mpr trivial) h.within s hs
  case store h =>
    refine balanced_braceWord (List.forall_mem_map.mpr fun s hs => hstmt ?_)
    exact Terminal.over_store (over_fileRegister.mpr trivial) h.within s hs
  case times h =>
    refine balanced_block hborder trivial (Line.balanced_stmts hborder ?_)
    exact Terminal.over_load (by simp) h.within

theorem calls (h : Moved lines) : ∀ line ∈ lines, line.Calls .least := by
  induction h
  case nil => exact List.forall_mem_nil _
  case append hi hi' => exact List.forall_mem_append.mpr ⟨hi, hi'⟩
  case load h =>
    refine List.forall_mem_map.mpr fun s hs => Line.calls_stmt.mpr ?_
    exact Terminal.calls_load (by simp [fileRegister]) h.calls s hs
  case store h =>
    refine List.forall_mem_map.mpr fun s hs => Line.calls_stmt.mpr ?_
    exact Terminal.calls_store (by simp [fileRegister]) h.calls s hs
  case times h =>
    have hr {f stride r} : (vertexRegister f stride r).Calls .least := by simp [vertexRegister]
    simp only [block, List.cons_append, List.forall_mem_cons]
    refine ⟨trivial, Terminal.calls_load hr h.calls, ?_⟩
    exact List.forall_mem_singleton.mpr trivial

end Moved

attribute [simp] Moved.nil Moved.load Moved.store Moved.times

@[simp] theorem Border.moved_loadInput {b : Border} {t : Terminal} (h : t.AtBorder) :
    Moved (b.loadInput e t) :=
  .load h

@[simp] theorem Border.moved_storeOutput {b : Border} {t : Terminal} (h : t.AtBorder) :
    Moved (b.storeOutput e t) :=
  .store h

structure Interface.Bordered (i : Interface) : Prop where
  vars       : ∀ v ∈ i.vars, '_' ∈ v.name.toList
  load       : Copies i.load
  store      : Copies i.store
  pointLoad  : Copies i.pointLoad
  patchStore : Copies i.patchStore

@[mk_iff] structure Interface.Moves (i : Interface) : Prop where
  vars       : ∀ v ∈ i.vars, '_' ∈ v.name.toList
  load       : Moved i.load
  store      : Moved i.store
  pointLoad  : Moved i.pointLoad
  patchStore : Moved i.patchStore

namespace Interface

theorem Moves.bordered {i : Interface} (h : i.Moves) : i.Bordered :=
  ⟨h.vars, h.load.copies, h.store.copies, h.pointLoad.copies, h.patchStore.copies⟩

theorem moves_empty : ({} : Interface).Moves := by
  simp [moves_iff]

theorem Moves.append {i j : Interface} (hi : i.Moves) (hj : j.Moves) : (i ++ j).Moves where
  vars := List.forall_mem_append.mpr ⟨hi.vars, hj.vars⟩
  load := hi.load.append hj.load
  store := hi.store.append hj.store
  pointLoad := hi.pointLoad.append hj.pointLoad
  patchStore := hi.patchStore.append hj.patchStore

end Interface

namespace Border

variable {b : Border} {e : SignatureEntry} {clip : Nat} {V : Vocabulary}

@[simp] theorem over_fragCoord_isBorder : fragCoord.Over Name.IsBorder := by
  simp +decide [fragCoord]

@[simp] theorem calls_fragCoord : fragCoord.Calls V := by
  simp +decide [fragCoord]

@[simp] theorem over_currentVertex_isBorder {array : String} :
    (currentVertex array).Over Name.IsBorder ↔ Plain array := by
  simp [currentVertex]

@[simp] theorem calls_currentVertex {array : String} : (currentVertex array).Calls V := by
  simp [currentVertex]

@[simp] theorem over_tessLevel_isBorder {sv : SystemValue} {index : UInt32} :
    (tessLevel sv index).Over Name.IsBorder := by
  unfold tessLevel
  split <;> simp +decide [apply_ite]

@[simp] theorem calls_tessLevel {sv : SystemValue} {index : UInt32} :
    (tessLevel sv index).Calls V := by
  unfold tessLevel
  split <;> simp

theorem moves_vertexInput : ⦃⌜True⌝⦄ b.vertexInput e ⦃⇓? i => ⌜i.Moves⌝⦄ := by
  unfold vertexInput
  mvcgen with simp_all +zetaDelta +decide [Interface.moves_iff]

theorem moves_pixelInput : ⦃⌜True⌝⦄ b.pixelInput clip e ⦃⇓? i => ⌜i.Moves⌝⦄ := by
  unfold pixelInput
  mvcgen with simp_all +zetaDelta +decide [Interface.moves_iff, apply_ite]

theorem moves_arrayInput : ⦃⌜True⌝⦄ b.arrayInput clip e ⦃⇓? i => ⌜i.Moves⌝⦄ := by
  unfold arrayInput
  mvcgen with simp_all +zetaDelta +decide [Interface.moves_iff, apply_ite Plain]

theorem moves_hullOutput : ⦃⌜True⌝⦄ b.hullOutput e ⦃⇓? i => ⌜i.Moves⌝⦄ := by
  unfold hullOutput
  mvcgen with simp_all +zetaDelta +decide [Interface.moves_iff]

theorem moves_vertexOutput : ⦃⌜True⌝⦄ b.vertexOutput clip e ⦃⇓? i => ⌜i.Moves⌝⦄ := by
  unfold vertexOutput
  mvcgen with simp_all +zetaDelta +decide [Interface.moves_iff, apply_ite Plain]

theorem moves_pixelOutput : (b.pixelOutput e).Moves := by
  simp only [pixelOutput]
  split <;> simp +decide [Interface.moves_iff]

theorem moves_patch : (b.patch e).Moves := by
  simp only [patch]
  split_ifs <;> simp +decide [Interface.moves_iff]

theorem moves_input : ⦃⌜True⌝⦄ b.input clip e ⦃⇓? i => ⌜i.Moves⌝⦄ := by
  unfold input
  split
  case h_1 => exact moves_vertexInput
  case h_2 => exact moves_pixelInput
  case h_6 => exact fun _ => Interface.moves_empty
  all_goals exact moves_arrayInput

theorem moves_output : ⦃⌜True⌝⦄ b.output clip e ⦃⇓? i => ⌜i.Moves⌝⦄ := by
  unfold output
  split
  case h_1 => exact fun _ => moves_pixelOutput
  case h_2 => exact moves_hullOutput
  case h_6 => exact fun _ => Interface.moves_empty
  all_goals exact moves_vertexOutput

theorem moves_entries {one : Nat → SignatureEntry → Except LiftError Interface}
    (hone : ∀ clip e, ⦃⌜True⌝⦄ one clip e ⦃⇓? i => ⌜i.Moves⌝⦄) {es : Signature} :
    ⦃⌜True⌝⦄ entries one clip es ⦃⇓? i => ⌜i.Moves⌝⦄ := by
  induction es generalizing clip
  case nil => mvcgen [entries] with exact Interface.moves_empty
  case cons hi =>
    mvcgen [entries, hone, hi]
    exact Interface.Moves.append ‹_› ‹_›

end Border

namespace Interface

variable {d : Dialect} {o : Options} {p : Program} {phases : Option Phases} {sizes : FileSizes}

theorem moves_of_build {i : Interface} (h : build d o p phases = .ok (i, sizes)) :
    i.Moves := by
  unfold build at h
  have ⟨_, _, h⟩ := bind_eq_ok_iff.mp h
  have ⟨_, _, h⟩ := bind_eq_ok_iff.mp h
  have ⟨patch, _, h⟩ := bind_eq_ok_iff.mp h
  have ⟨_, _, h⟩ := bind_eq_ok_iff.mp h
  have ⟨inputs, hinputs, h⟩ := bind_eq_ok_iff.mp h
  have ⟨outputs, houtputs, h⟩ := bind_eq_ok_iff.mp h
  have ⟨_, _, h⟩ := bind_eq_ok_iff.mp h
  cases h
  have hinputs : inputs.Moves :=
    returns_iff.mp (Border.moves_entries fun _ _ => Border.moves_input) inputs hinputs
  have houtputs : outputs.Moves :=
    returns_iff.mp (Border.moves_entries fun _ _ => Border.moves_output) outputs houtputs
  refine (hinputs.append houtputs).append ?_
  exact List.foldlRecOn patch _ moves_empty fun _ hi _ _ => hi.append Border.moves_patch

theorem bordered_of_build {i : Interface} (h : build d o p phases = .ok (i, sizes)) :
    i.Bordered :=
  (moves_of_build h).bordered

end Interface

end ShaderLift
