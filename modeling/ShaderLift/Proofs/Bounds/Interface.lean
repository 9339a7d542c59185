import ShaderLift.Proofs.Bounds.Collect

/-!
The interface of a stage stays in range. Its lines subscript register files by the registers of
signature entries.
-/

namespace ShaderLift

open Glsl

def SignatureEntry.IsTessFactor (e : SignatureEntry) : Prop :=
  e.systemValue.isEdgeTessFactor || e.systemValue.isInsideTessFactor

-- The registers of signature entries that lines copy from or to by their numbers.
inductive Conveys (stage : Stage) (inputs outputs patch : Signature) : RegisterFile → UInt32 → Prop
  | input {e} (mem : e ∈ inputs) (named : e.register ≠ noRegister)
      (single : stage = .vertex ∨ stage = .pixel) :
      Conveys stage inputs outputs patch .inputs e.register
  | output {e} (mem : e ∈ outputs) (named : e.register ≠ noRegister) (writes : stage ≠ .compute) :
      Conveys stage inputs outputs patch .outputs e.register
  | patchOutput {e} (mem : e ∈ patch) (named : e.register ≠ noRegister ∨ e.IsTessFactor)
      (hull : stage = .hull) : Conveys stage inputs outputs patch .patchOutputs e.register
  | patchInput {e} (mem : e ∈ patch) (named : e.register ≠ noRegister ∨ e.IsTessFactor)
      (later : stage ≠ .hull) : Conveys stage inputs outputs patch .patchInputs e.register

variable {A : RegisterFile → UInt32 → Prop}

namespace Terminal

def Subscripts (A : RegisterFile → UInt32 → Prop) : Terminal → Prop
  | scalar value _ | vector value _ => value.Subscripts A
  | lanes values => ∀ value ∈ values, value.Subscripts A

variable {d : Dialect} {register : Expr} {mask : WriteMask} {t : Terminal} {type : ValueType}

theorem subscripts_scalar {value : Expr} : (scalar value type).Subscripts A ↔ value.Subscripts A :=
  .rfl

theorem subscripts_vector {value : Expr} : (vector value type).Subscripts A ↔ value.Subscripts A :=
  .rfl

theorem subscripts_maskPick {e : Expr} : (maskPick mask e).Subscripts A ↔ e.Subscripts A := by
  unfold maskPick
  split <;> simp

theorem subscripts_load (hr : register.Subscripts A) (ht : t.Subscripts A) :
    ∀ s ∈ t.load d register mask, s.Subscripts A := by
  cases t
  case scalar => simpa [load, hr, subscripts_scalar] using ht
  case vector => simpa [load, hr, subscripts_vector, subscripts_maskPick] using ht
  case lanes => exact forall_mem_zipWith fun _ _ value hv => ⟨hr, ht value hv⟩

theorem subscripts_store (hr : register.Subscripts A) (ht : t.Subscripts A) :
    ∀ s ∈ t.store d register mask, s.Subscripts A := by
  cases t
  case scalar => simpa [store, hr, subscripts_scalar] using ht
  case vector => simpa [store, hr, subscripts_vector, subscripts_maskPick] using ht
  case lanes => exact forall_mem_zipWith fun _ _ value hv => ⟨ht value hv, hr⟩

theorem subscripts_builtin {name : String} : (scalar (.builtin name) type).Subscripts A :=
  subscripts_scalar.mpr Expr.subscripts_builtin

-- Elements of anything but a register file.
theorem subscripts_elements {array : Expr} {first count : Nat} (ha : array.Subscripts A)
    (hfile : ∀ file, array ≠ .var (.file file)) :
    (lanes (elements array first count)).Subscripts A :=
  List.forall_mem_map.mpr fun _ _ =>
    ⟨fun file _ h _ => absurd h (hfile file), ha, Expr.subscripts_int⟩

end Terminal

theorem subscripts_fileRegister {file : RegisterFile} {r : UInt32} (h : A file r) :
    (fileRegister file r).Subscripts A := by
  refine ⟨fun file' k hfile hk => ?_, trivial, Expr.subscripts_number⟩
  rw [← Name.file.inj (Expr.var.inj hfile), ← Expr.number_inj hk]
  exact h

theorem subscripts_vertexRegister {file : RegisterFile} {stride r : UInt32} :
    (vertexRegister file stride r).Subscripts A :=
  ⟨nofun, trivial, by simp⟩

structure Interface.Subscripts (A : RegisterFile → UInt32 → Prop) (i : Interface) : Prop where
  load       : EachLine A i.load
  store      : EachLine A i.store
  pointLoad  : EachLine A i.pointLoad
  patchStore : EachLine A i.patchStore

namespace Interface

theorem subscripts_empty : ({} : Interface).Subscripts A :=
  ⟨.nil, .nil, .nil, .nil⟩

theorem Subscripts.mono {B : RegisterFile → UInt32 → Prop} {i : Interface} (h : i.Subscripts A)
    (hB : ∀ file k, A file k → B file k) : i.Subscripts B :=
  ⟨.mono hB h.load, .mono hB h.store, .mono hB h.pointLoad, .mono hB h.patchStore⟩

theorem Subscripts.append {i j : Interface} (hi : i.Subscripts A) (hj : j.Subscripts A) :
    (i ++ j).Subscripts A where
  load := EachLine.append_iff.mpr ⟨hi.load, hj.load⟩
  store := EachLine.append_iff.mpr ⟨hi.store, hj.store⟩
  pointLoad := EachLine.append_iff.mpr ⟨hi.pointLoad, hj.pointLoad⟩
  patchStore := EachLine.append_iff.mpr ⟨hi.patchStore, hj.patchStore⟩

end Interface

theorem SignatureEntry.ne_noRegister_of_isSkipped {e : SignatureEntry} (h : e.isSkipped = false) :
    e.register ≠ noRegister := by
  intro hr
  simp [isSkipped, hr] at h

namespace Border

variable {b : Border} {e : SignatureEntry} {clip : Nat} {t : Terminal} {o : Options}

theorem eachLine_lines {ss : List Stmt} (h : ∀ s ∈ ss, s.Subscripts A) : EachLine A (lines ss) :=
  List.forall_mem_map.mpr fun s hs => Line.subscripts_stmt.mpr (h s hs)

theorem eachLine_loadInput (he : A .inputs e.register) (ht : t.Subscripts A) :
    EachLine A (b.loadInput e t) :=
  eachLine_lines (Terminal.subscripts_load (subscripts_fileRegister he) ht)

theorem eachLine_storeOutput (he : A .outputs e.register) (ht : t.Subscripts A) :
    EachLine A (b.storeOutput e t) :=
  eachLine_lines (Terminal.subscripts_store (subscripts_fileRegister he) ht)

theorem eachLine_times {n stride r : UInt32} {file : RegisterFile} {mask : WriteMask}
    (ht : t.Subscripts A) :
    EachLine A (block (.times n) [.stmts (t.load b.dialect (vertexRegister file stride r) mask)]) :=
  EachLine.block trivial
    (EachLine.singleton.mpr (Terminal.subscripts_load subscripts_vertexRegister ht))

theorem subscripts_fragCoord : fragCoord.Subscripts A := by
  simp [fragCoord]

theorem subscripts_currentVertex {array : String} : (currentVertex array).Subscripts A := by
  simp [currentVertex]

theorem subscripts_tessLevel {sv : SystemValue} {index : UInt32} :
    (tessLevel sv index).Subscripts A := by
  unfold tessLevel
  split <;> simp

theorem inRange_require {f : Feature} : o.InRange (b.require f) :=
  Dialect.inRange_require

-- What a feature is needed for.
theorem stays_requiring {α : Type} {f : Feature} {P : α → Prop} {a : α} (h : P a) :
    o.Stays P (do b.require f; return a) :=
  .bind inRange_require fun _ _ => .pure h

theorem inRange_interpolation {t : ValueType} : o.InRange (b.interpolation e t) := by
  refine .ite (fun _ => .pure trivial) fun _ => ?_
  cases e.interpolation
  case none => exact .pure trivial
  case some mode =>
    cases mode
    case undefined | linear | linearCentroid => exact .pure trivial
    all_goals exact stays_requiring trivial

theorem stays_vertexInput (he : A .inputs e.register) :
    o.Stays (Interface.Subscripts A) (b.vertexInput e) := by
  have load {t : Terminal} (ht : t.Subscripts A) := eachLine_loadInput (b := b) he ht
  unfold vertexInput
  dsimp only
  cases e.systemValue
  case vertexId | instanceId =>
    exact stays_requiring ⟨load Terminal.subscripts_builtin, .nil, .nil, .nil⟩
  all_goals exact .pure ⟨load trivial, .nil, .nil, .nil⟩

theorem stays_pixelInput (he : A .inputs e.register) :
    o.Stays (Interface.Subscripts A) (b.pixelInput clip e) := by
  have load {t : Terminal} (ht : t.Subscripts A) :
      ({ load := b.loadInput e t } : Interface).Subscripts A :=
    ⟨eachLine_loadInput he ht, .nil, .nil, .nil⟩
  unfold pixelInput
  dsimp only
  cases e.systemValue
  case position => exact .pure (load subscripts_fragCoord)
  case isFrontFace => exact .pure (load (by simp [Terminal.subscripts_scalar]))
  case sampleIndex | primitiveId | renderTargetArrayIndex | viewportArrayIndex =>
    exact stays_requiring (load Terminal.subscripts_builtin)
  case clipDistance =>
    exact stays_requiring (load (Terminal.subscripts_elements Expr.subscripts_builtin
      fun _ => Expr.builtin_ne_file))
  case cullDistance => exact stays_requiring Interface.subscripts_empty
  all_goals
    exact .bind inRange_interpolation fun _ _ =>
      .pure ⟨eachLine_loadInput he trivial, .nil, .nil, .nil⟩

-- One line for each vertex, by the number of the vertex.
theorem stays_arrayInput : o.Stays (Interface.Subscripts A) (b.arrayInput clip e) := by
  have load {t : Terminal} {n stride r : UInt32} {file : RegisterFile} (ht : t.Subscripts A) :
      ({ load := block (.times n)
          [.stmts (t.load b.dialect (vertexRegister file stride r) e.mask)] } :
        Interface).Subscripts A :=
    ⟨eachLine_times ht, .nil, .nil, .nil⟩
  have varying {name : String} {type : ValueType} :
      (Terminal.vector (.index (.var (.varying name)) (.var .loopIndex)) type).Subscripts A := by
    simp [Terminal.subscripts_vector]
  unfold arrayInput
  dsimp only
  cases e.systemValue
  case position => exact .pure (load subscripts_currentVertex)
  case clipDistance =>
    refine .ite (fun _ => stays_requiring (load ?_)) fun _ =>
      .pure ⟨eachLine_times varying, .nil, .nil, .nil⟩
    exact Terminal.subscripts_elements subscripts_currentVertex nofun
  case cullDistance => exact stays_requiring Interface.subscripts_empty
  all_goals exact .pure ⟨eachLine_times varying, .nil, .nil, .nil⟩

theorem stays_input (he : b.stage = .vertex ∨ b.stage = .pixel → A .inputs e.register) :
    o.Stays (Interface.Subscripts A) (b.input clip e) := by
  unfold input
  cases hs : b.stage
  case vertex => exact stays_vertexInput (he (.inl hs))
  case pixel => exact stays_pixelInput (he (.inr hs))
  case geometry | hull | domain => exact stays_arrayInput
  case compute => exact .pure Interface.subscripts_empty

theorem subscripts_pixelOutput (he : A .outputs e.register) :
    (b.pixelOutput e).Subscripts A := by
  simp only [pixelOutput]
  split
  case isTrue => exact ⟨.nil, eachLine_storeOutput he trivial, .nil, .nil⟩
  case isFalse =>
    exact ⟨.nil, eachLine_storeOutput he (by simp [Terminal.subscripts_vector]), .nil, .nil⟩

theorem stays_hullOutput (he : A .outputs e.register) :
    o.Stays (Interface.Subscripts A) (b.hullOutput e) := by
  have position {vertex : Expr} (hv : vertex.Subscripts A) :
      (Terminal.vector (.field (.index (.builtin "out") vertex) "gl_Position") .float).Subscripts A
      := by
    simp [Terminal.subscripts_vector, hv]
  have element {vertex : Expr} {name : String} {type : ValueType} (hv : vertex.Subscripts A) :
      (Terminal.vector (.index (.var (.varying name)) vertex) type).Subscripts A := by
    simp [Terminal.subscripts_vector, hv]
  unfold hullOutput
  dsimp only
  cases e.systemValue
  case position =>
    exact .pure ⟨.nil, eachLine_storeOutput he (position Expr.subscripts_builtin),
      eachLine_times (position trivial), .nil⟩
  case clipDistance | cullDistance => exact stays_requiring Interface.subscripts_empty
  all_goals
    exact .pure ⟨.nil, eachLine_storeOutput he (element Expr.subscripts_builtin),
      eachLine_times (element trivial), .nil⟩

theorem stays_vertexOutput (he : A .outputs e.register) :
    o.Stays (Interface.Subscripts A) (b.vertexOutput clip e) := by
  have store {t : Terminal} {vars : List InterfaceVariable} (ht : t.Subscripts A) :
      ({ vars, store := b.storeOutput e t } : Interface).Subscripts A :=
    ⟨.nil, eachLine_storeOutput he ht, .nil, .nil⟩
  unfold vertexOutput
  dsimp only
  cases e.systemValue
  case position => exact .pure (store (Terminal.subscripts_vector.mpr Expr.subscripts_builtin))
  case clipDistance =>
    exact stays_requiring (store (Terminal.subscripts_elements Expr.subscripts_builtin
      fun _ => Expr.builtin_ne_file))
  case cullDistance => exact stays_requiring Interface.subscripts_empty
  case renderTargetArrayIndex | viewportArrayIndex =>
    exact .ite (fun _ => .pure (store Terminal.subscripts_builtin)) fun _ =>
      stays_requiring Interface.subscripts_empty
  case' primitiveId =>
    refine .ite (fun _ => .pure (store Terminal.subscripts_builtin)) fun _ => ?_
  all_goals
    refine .ite (fun _ => .pure Interface.subscripts_empty) fun _ => ?_
    exact .ite (fun _ => .bind inRange_require fun _ _ => .pure (store trivial)) fun _ =>
      .pure (store trivial)

theorem stays_output (he : b.stage ≠ .compute → A .outputs e.register) :
    o.Stays (Interface.Subscripts A) (b.output clip e) := by
  unfold output
  cases hs : b.stage
  case pixel => exact .pure (subscripts_pixelOutput (he (by simp [hs])))
  case hull => exact stays_hullOutput (he (by simp [hs]))
  case vertex | domain | geometry => exact stays_vertexOutput (he (by simp [hs]))
  case compute => exact .pure Interface.subscripts_empty

-- Factors are copied even where they have no register.
theorem subscripts_patch
    (ho : e.register ≠ noRegister ∨ e.IsTessFactor → b.stage = .hull → A .patchOutputs e.register)
    (hi : e.register ≠ noRegister ∨ e.IsTessFactor → b.stage ≠ .hull → A .patchInputs e.register) :
    (b.patch e).Subscripts A := by
  have store {t : Terminal} (he : e.register ≠ noRegister ∨ e.IsTessFactor) (hs : b.stage = .hull)
      (ht : t.Subscripts A) :
      EachLine A (lines (t.store b.dialect (fileRegister .patchOutputs e.register) e.mask)) :=
    eachLine_lines (Terminal.subscripts_store (subscripts_fileRegister (ho he hs)) ht)
  have load {t : Terminal} (he : e.register ≠ noRegister ∨ e.IsTessFactor) (hs : b.stage ≠ .hull)
      (ht : t.Subscripts A) :
      EachLine A (lines (t.load b.dialect (fileRegister .patchInputs e.register) e.mask)) :=
    eachLine_lines (Terminal.subscripts_load (subscripts_fileRegister (hi he hs)) ht)
  have levels {count : Nat} {level : Nat → UInt32} :
      (Terminal.lanes ((List.range count).map fun i =>
        tessLevel e.systemValue (level i))).Subscripts A :=
    List.forall_mem_map.mpr fun _ _ => subscripts_tessLevel
  simp only [patch]
  split_ifs with hfactor hs hskipped hs
  case pos => exact ⟨.nil, .nil, .nil, store (.inr hfactor) hs levels⟩
  case neg => exact ⟨load (.inr hfactor) hs levels, .nil, .nil, .nil⟩
  case pos => exact Interface.subscripts_empty
  case pos =>
    have he := e.ne_noRegister_of_isSkipped (Bool.eq_false_iff.mpr hskipped)
    exact ⟨.nil, .nil, .nil, store (.inl he) hs trivial⟩
  case neg =>
    have he := e.ne_noRegister_of_isSkipped (Bool.eq_false_iff.mpr hskipped)
    exact ⟨load (.inl he) hs trivial, .nil, .nil, .nil⟩

theorem stays_entries {one : Nat → SignatureEntry → Except LiftError Interface} {es : Signature}
    (h : ∀ clip, ∀ e ∈ es, e.isSkipped = false → o.Stays (Interface.Subscripts A) (one clip e)) :
    o.Stays (Interface.Subscripts A) (entries one clip es) := by
  induction es generalizing clip
  case nil => exact .pure Interface.subscripts_empty
  case cons e es hi =>
    have hi {clip : Nat} : o.Stays (Interface.Subscripts A) (entries one clip es) :=
      hi fun clip e he => h clip e (List.mem_cons_of_mem _ he)
    refine .ite (fun _ => hi) fun hs => ?_
    refine .bind (h clip e List.mem_cons_self (by simpa using hs)) fun _ hpart => ?_
    exact .bind hi fun _ hrest => .pure (hpart.append hrest)

end Border

theorem Interface.stays_build {d : Dialect} {o : Options} {p : Program} {phases : Option Phases}
    (h : p.Closed) : o.Stays (fun (i, sizes) => ∃ inputs outputs patch,
      p.signature phases .input = .ok inputs ∧ p.signature phases .output = .ok outputs ∧
      p.signature phases .patch = .ok patch ∧ p.fileSizes o inputs outputs patch = .ok sizes ∧
      i.Subscripts (Conveys p.stage inputs outputs patch)) (build d o p phases) := by
  refine .bind_of_ok (Program.inRange_signature h) fun inputs hinputs _ => ?_
  refine .bind_of_ok (Program.inRange_signature h) fun outputs houtputs _ => ?_
  refine .bind_of_ok (Program.inRange_signature h) fun patch hpatch _ => ?_
  refine .bind_of_ok (Program.inRange_fileSizes h) fun sizes hsizes _ => ?_
  refine .bind (Border.stays_entries (A := Conveys p.stage inputs outputs patch) fun _ e he hs =>
    Border.stays_input fun hstage => .input he (e.ne_noRegister_of_isSkipped hs) hstage)
    fun i hi => ?_
  refine .bind (Border.stays_entries (A := Conveys p.stage inputs outputs patch) fun _ e he hs =>
    Border.stays_output fun hstage => .output he (e.ne_noRegister_of_isSkipped hs) hstage)
    fun written hwritten => ?_
  refine .bind Options.inRange_requireWords fun _ _ => ?_
  refine .pure ⟨inputs, outputs, patch, hinputs, houtputs, hpatch, hsizes,
    (hi.append hwritten).append ?_⟩
  refine List.foldlRecOn (motive := Interface.Subscripts _) patch _ subscripts_empty ?_
  exact fun _ hi e he => hi.append (Border.subscripts_patch (.patchOutput he) (.patchInput he))

end ShaderLift
