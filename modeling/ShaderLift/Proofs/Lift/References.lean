import ShaderLift.Proofs.Glsl.Unbroken
import ShaderLift.Proofs.Lift.Mirror

/-!
The names in whole functions. What is written for instructions names operands and resources, and all
lines around it name registers and the interface. None of these names leaves its line.
-/

namespace ShaderLift

open Glsl

section Lines

variable {N : Name → Prop} {role : Flow.Role} {line : Line} {lines : List Line}

theorem Glsl.Line.Flat.over (h : line.Flat N) : line.Over N := by
  cases line
  case stmts => exact h
  all_goals cases h

theorem Emitted.over (h : Emitted N lines) : ∀ line ∈ lines, line.Over N := by
  cases h
  case flat h => exact fun line hl => (h line hl).over
  case block h => exact over_block trivial fun line hl => (h line hl).over

theorem Stepped.over (h : Stepped N role lines) : ∀ line ∈ lines, line.Over N := by
  cases h
  case opener h => exact List.forall_mem_singleton.mpr h
  case otherwise => exact List.forall_mem_singleton.mpr trivial
  case startCase hl hb =>
    refine List.forall_mem_append.mpr ⟨fun line h => ?_, List.forall_mem_singleton.mpr hl⟩
    exact hb line h ▸ trivial
  case closer hb =>
    refine List.forall_mem_append.mpr ⟨fun line h => ?_, List.forall_mem_singleton.mpr trivial⟩
    cases hb line h
    case inl h => exact h ▸ trivial
    case inr h => exact h ▸ Line.over_stmt.mpr trivial
  case other he => exact he.over

end Lines

namespace Context

variable {c : Context} {lines : List Line} {s s' : Progress}

-- What the lines of a shader may name.
def References (c : Context) (name : Name) : Prop :=
  c.names name ∨ name.IsBorder

theorem over_of_body {first stop : Nat} (h : (c.body first stop).run s = .ok (lines, s')) :
    ∀ line ∈ lines, line.Over c.names := by
  have ⟨piece, hl, hw⟩ := exists_pieces_of_range h
  subst hl
  intro line hline
  have ⟨i, hi, hline⟩ := List.mem_flatMap.mp hline
  have ⟨hle, hlt⟩ := List.mem_range'_1.mp hi
  have ⟨inst, isLast, s, s', hinst, hr⟩ := (hw i hle hlt).writes
  have hmem : inst ∈ c.program.instructions := List.mem_of_getElem? hinst
  exact (Emit.of_run_eq_ok (step_spec (c := c.focus i inst) hmem) hr).over line hline

theorem LiftsTo.over {sub : Subroutine} {f : Function} (h : c.LiftsTo sub f) : f.Over c.names := by
  have ⟨_, _, hbody⟩ := h.body
  refine ⟨h.signature ▸ ?_, over_of_body (c := { c with scope := .subroutine }) hbody⟩
  simp +decide [isWord_subroutineName.plain]

-- What a shader without phases is made of.
theorem exists_of_singleFunctions {fs : Functions} (h : c.singleFunctions.run s = .ok (fs, s')) :
    ∃ body subs t t', fs = .single
        (if c.stage = .compute then none else some ⟨"void store_outputs()", c.interface.store⟩)
        (c.flow.subroutines.map (·.label)) ⟨"void main()", c.prologue ++ body ++ c.epilogue⟩ subs ∧
      (c.body 0 c.flow.mainEnd).run t = .ok (body, t') ∧
      List.Forall₂ c.LiftsTo c.flow.subroutines subs := by
  have ⟨subs, t, hsubs, h⟩ := Emit.run_bind_eq_ok.mp h
  have ⟨body, t', hbody, h⟩ := Emit.run_bind_eq_ok.mp h
  have ⟨hfs, _⟩ := Emit.run_pure_eq_ok.mp h
  exact ⟨body, subs, t, t', hfs.symm, hbody, liftsTo_of_subroutines hsubs⟩

theorem over_of_phaseFunctions {kind : String} {k : Nat} {phases : List Phase} {fs : List Function}
    (h : (c.phaseFunctions kind k phases).run s = .ok (fs, s')) (hk : IsWord kind) :
    ∀ f ∈ fs, f.Over c.names := by
  refine forall_mem_of_forall₂ (phaseTo_of_phaseFunctions h) fun phase f hf => ?_
  have ⟨_, _, hbody⟩ := hf.body
  refine ⟨hf.signature ▸ ?_, over_of_body hbody⟩
  simp +decide [(isWord_phaseName hk).plain]

theorem over_of_names (h : ∀ line ∈ lines, line.Over c.names) :
    ∀ line ∈ lines, line.Over c.References :=
  fun line hl => (h line hl).mono fun _ => .inl

theorem over_of_copies (h : Copies lines) : ∀ line ∈ lines, line.Over c.References :=
  fun line hl => (h line hl).mono fun _ => .inr

theorem over_immediatesInit :
    ∀ line ∈ c.resources.immediatesInit c.dialect, line.Over c.names := by
  unfold Resources.immediatesInit
  split
  case isTrue => exact List.forall_mem_nil _
  case isFalse =>
    refine List.forall_mem_map.mpr fun (row, i) hrow => ?_
    have hdeclared : c.resources.immediates ≠ none := by
      intro hnone
      simp [hnone] at hrow
    simp [hdeclared]

theorem over_epilogue {N : Name → Prop} : ∀ line ∈ c.epilogue, line.Over N := by
  unfold epilogue
  split
  case isTrue => exact List.forall_mem_singleton.mpr (Line.over_stmt.mpr trivial)
  case isFalse => exact List.forall_mem_nil _

theorem copies_call {function : String} {args : List Expr} (hf : IsWord function)
    (ha : ∀ e ∈ args, e.Over Name.IsBorder) : Copies [call function args] :=
  List.forall_mem_singleton.mpr (Line.over_stmt.mpr ⟨hf, Expr.overs_iff.mpr ha⟩)

theorem copies_passThrough : Copies c.passThrough := by
  refine List.forall_mem_map.mpr fun _ _ => Line.over_stmt.mpr ?_
  simp +decide

theorem copies_runPhase {kind : String} {phase : Phase} {k : Nat} (h : IsWord kind) :
    Copies (runPhase kind phase k) := by
  have hname := isWord_phaseName (k := k) h
  unfold runPhase
  split
  case isTrue => exact copies_call hname (by simp)
  case isFalse => exact over_block trivial (copies_call hname (by simp))

section Functions

variable (hi : c.interface.Bordered)

include hi

theorem over_prologue : ∀ line ∈ c.prologue, line.Over c.References :=
  List.forall_mem_append.mpr ⟨over_of_copies hi.load, over_of_names over_immediatesInit⟩

theorem over_hullMain : c.hullMain.Over c.References := by
  have hsync : Copies [call "hs_control_point_phase" [], call "barrier" []] :=
    (copies_call (by decide) (by simp)).append (copies_call (by decide) (by simp))
  have hphases : Copies [call "hs_fork_phases" [], call "hs_join_phases" []] :=
    (copies_call (by decide) (by simp)).append (copies_call (by decide) (by simp))
  have hhead : (Expr.binary .eq (.builtin "InvocationID") (.int 0)).Over Name.IsBorder := by
    simp +decide
  have hblock : Copies (block (.when (.binary .eq (.builtin "InvocationID") (.int 0)))
      (c.interface.pointLoad ++ [call "hs_fork_phases" [], call "hs_join_phases" []])) :=
    over_block hhead (hi.pointLoad.append hphases)
  refine Function.over_mk (by decide) (List.forall_mem_append.mpr ⟨?_, over_of_copies hblock⟩)
  exact List.forall_mem_append.mpr ⟨over_prologue hi, over_of_copies hsync⟩

theorem over_singleFunctions {fs : Functions} (h : c.singleFunctions.run s = .ok (fs, s')) :
    ∀ f ∈ fs.toList, f.Over c.References := by
  obtain ⟨body, subs, t, t', rfl, hbody, hsubs⟩ := exists_of_singleFunctions h
  refine List.forall_mem_append.mpr ⟨?store, List.forall_mem_cons.mpr ⟨?main, ?subs⟩⟩
  case store =>
    split
    case isTrue => exact List.forall_mem_nil _
    case isFalse =>
      exact List.forall_mem_singleton.mpr (Function.over_mk (by decide) (over_of_copies hi.store))
  case main =>
    refine Function.over_mk (by decide) (List.forall_mem_append.mpr ⟨?_, over_epilogue⟩)
    exact List.forall_mem_append.mpr ⟨over_prologue hi, over_of_names (over_of_body hbody)⟩
  case subs => exact forall_mem_of_forall₂ hsubs fun _ _ hf => hf.over.mono fun _ => .inl

omit hi in
theorem over_patchFunctions {kind : String} {phases : List Phase} {after : List Line}
    {fs : List Function} (h : (c.patchFunctions kind phases after).run s = .ok (fs, s'))
    (hk : IsWord kind) (ha : Copies after) : ∀ f ∈ fs, f.Over c.References := by
  have ⟨gs, t, hgs, h⟩ := Emit.run_bind_eq_ok.mp h
  have ⟨hfs, _⟩ := Emit.run_pure_eq_ok.mp h
  subst hfs
  refine List.forall_mem_append.mpr ⟨?phases, List.forall_mem_singleton.mpr ?driver⟩
  case phases => exact fun f hf => (over_of_phaseFunctions hgs hk f hf).mono fun _ => .inl
  case driver =>
    refine ⟨by simp +decide [hk.plain], over_of_copies (Copies.append (fun line hline => ?_) ha)⟩
    have ⟨phase, _, hline⟩ := List.mem_flatMap.mp hline
    exact copies_runPhase hk line hline

theorem over_controlPointFunctions {phase? : Option Phase} {fs : List Function}
    (h : (c.controlPointFunctions phase?).run s = .ok (fs, s')) :
    ∀ f ∈ fs, f.Over c.References := by
  cases phase?
  case none =>
    have ⟨hfs, _⟩ := Emit.run_pure_eq_ok.mp h
    refine hfs ▸ List.forall_mem_singleton.mpr (Function.over_mk (by decide) ?_)
    exact over_of_copies (copies_passThrough.append hi.store)
  case some phase =>
    have ⟨body, t, hbody, h⟩ := Emit.run_bind_eq_ok.mp h
    have ⟨hfs, _⟩ := Emit.run_pure_eq_ok.mp h
    subst hfs
    have hbody : ∀ line ∈ body, line.Over c.names :=
      over_of_body (c := { c with scope := .controlPoint }) hbody
    have hcall : Copies [call "hs_cp_main" []] := copies_call (by decide) (by simp)
    refine List.forall_mem_cons.mpr ⟨Function.over_mk (by decide) (over_of_names hbody), ?_⟩
    refine List.forall_mem_singleton.mpr (Function.over_mk (by decide) ?_)
    exact over_of_copies (hcall.append hi.store)

theorem over_phasedFunctions {phases : Phases} {fs : Functions}
    (h : (c.phasedFunctions phases).run s = .ok (fs, s')) :
    ∀ f ∈ fs.toList, f.Over c.References := by
  have ⟨points, t, hpoints, h⟩ := Emit.run_bind_eq_ok.mp h
  have ⟨forks, t', hforks, h⟩ := Emit.run_bind_eq_ok.mp h
  have ⟨joins, t'', hjoins, h⟩ := Emit.run_bind_eq_ok.mp h
  have ⟨hfs, _⟩ := Emit.run_pure_eq_ok.mp h
  subst hfs
  have hpoints := over_controlPointFunctions hi hpoints
  have hforks := over_patchFunctions hforks (by decide) .nil
  have hjoins := over_patchFunctions hjoins (by decide) hi.patchStore
  refine List.forall_mem_append.mpr ⟨?_, List.forall_mem_singleton.mpr (over_hullMain hi)⟩
  exact List.forall_mem_append.mpr ⟨List.forall_mem_append.mpr ⟨hpoints, hforks⟩, hjoins⟩

end Functions

end Context

variable {p : Program} {o : Options} {s : Shader} {c : Context} {phases : Option Phases}

theorem Program.Lifted.over (l : p.Lifted o s c phases) :
    ∀ f ∈ s.source.functions.toList, f.Over c.References := by
  have hi := Interface.bordered_of_build l.interface
  have ⟨_, hrun, _⟩ := l.written
  cases phases
  case none => exact Context.over_singleFunctions hi hrun
  case some => exact Context.over_phasedFunctions hi hrun

-- No line of a lifted shader holds a line break.
theorem Program.Lifted.unbroken (l : p.Lifted o s c phases) :
    (∀ t ∈ s.source.decls.flatMap Decl.lines, Unbroken t) ∧
      ∀ f ∈ s.source.functions.toList, ∀ t ∈ f.text, Unbroken t := by
  have hi := Interface.sound_of_build l.interface
  have hr := Resources.worded_of_collect l.resources
  constructor
  case left =>
    intro t ht
    obtain ⟨decl, hd, ht⟩ := List.mem_flatMap.mp ht
    exact (Context.isPlain_of_decls hr hi l.decls decl hd).unbroken t ht
  case right =>
    refine fun f hf => (l.over f hf).unbroken fun name hn => ?_
    cases hn
    case inl hn => exact hn.isPlain hr hi
    case inr hn => exact hn.isPlain

end ShaderLift
