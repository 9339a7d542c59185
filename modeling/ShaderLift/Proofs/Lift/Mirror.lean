import ShaderLift.Proofs.Hull.Phases
import ShaderLift.Proofs.Lift.Border
import ShaderLift.Proofs.Lift.Functions

/-!
The braces of a lifted shader mirror the links of its program: each function is made of whole
blocks, and the braces of a block stand on the lines of the instructions that its links join. So the
whole text is balanced.
-/

namespace ShaderLift

open Glsl

namespace Context

-- The lines of the instructions of a span, whose braces show the blocks.
structure Mirrors (c : Context) (r : Flow.Span) (piece : Nat → List Line) : Prop where
  whole   : r.Whole c.program.instructions
  writes  : ∀ i ∈ r, c.Writes i (piece i)
  shown   : Flow.Shown c.program.instructions (braceWord ∘ piece) r
  opens   : ∀ o ∈ r, ∀ kind, Flow.roleAt c.program.instructions o = some (.opener kind) →
    ∃ e ∈ r, Flow.Framed c.flow c.program.instructions (braceWord ∘ piece) kind o e
  divides : ∀ k ∈ r, ∀ kind, Flow.roleAt c.program.instructions k = some (.divider kind) →
    ∃ o ∈ r, ∃ e ∈ r, k ∈ Flow.dividers c.program.instructions o e ∧
      Flow.Framed c.flow c.program.instructions (braceWord ∘ piece) kind o e
  closes  : ∀ e ∈ r, ∀ kind, Flow.roleAt c.program.instructions e = some (.closer kind) →
    ∃ o ∈ r, Flow.Framed c.flow c.program.instructions (braceWord ∘ piece) kind o e

def Mirrored (c : Context) (r : Flow.Span) (body : List Line) : Prop :=
  ∃ piece, body = r.positions.flatMap piece ∧ c.Mirrors r piece

-- What holds of the context that a program is lifted in.
structure Ready (c : Context) : Prop where
  flow      : Flow.ofInstructions c.program.instructions c.program.operands = .ok c.flow
  interface : c.interface.Sound
  moves     : c.interface.Moves
  resources : c.resources.Worded

variable {c : Context} {r : Flow.Span} {lines : List Line} {s s' : Progress} {fs : List Function}
variable {kind : String}

theorem Ready.plain {name : Name} (hc : c.Ready) (h : c.names name) : Plain name.text :=
  h.isPlain hc.resources hc.interface

theorem Ready.scope {scope : Scope} (hc : c.Ready) : { c with scope }.Ready :=
  ⟨hc.flow, hc.interface, hc.moves, hc.resources⟩

theorem Mirrors.of_writes {piece : Nat → List Line} (hc : c.Ready)
    (w : r.Whole c.program.instructions) (h : ∀ i ∈ r, c.Writes i (piece i)) :
    c.Mirrors r piece := by
  have hs : Flow.Shown c.program.instructions (braceWord ∘ piece) r :=
    fun i hi => (h i hi).shows fun _ => hc.plain
  have hf := hc.flow
  refine { whole := w, writes := h, shown := hs, opens := fun o ho kind hr => ?opens,
           divides := fun k hk kind hr => ?divides, closes := fun e he kind hr => ?closes }
  case opens =>
    have ⟨e, l⟩ := Flow.linked_of_opener hf hr
    have ⟨_, he, f⟩ := l.framed_of_mem w hf hs ho (le_refl _) (Nat.le_of_lt l.block.open_at.lt)
    exact ⟨e, he, f⟩
  case divides =>
    have ⟨o, e, l, hd⟩ := Flow.linked_of_divider hf hr
    have ⟨hoe, hke⟩ := l.le_of_mem (List.mem_cons_of_mem _ (List.mem_append_left _ hd))
    have ⟨ho, he, f⟩ := l.framed_of_mem w hf hs hk hoe hke
    exact ⟨o, ho, e, he, hd, f⟩
  case closes =>
    have ⟨o, l⟩ := Flow.linked_of_closer hf hr
    have ⟨ho, _, f⟩ := l.framed_of_mem w hf hs he (Nat.le_of_lt l.block.open_at.lt) (le_refl _)
    exact ⟨o, ho, f⟩

theorem Mirrored.of_body (hc : c.Ready) (w : r.Whole c.program.instructions)
    (h : (c.body r.first r.stop).run s = .ok (lines, s')) :
    c.Mirrored r lines := by
  have ⟨piece, hl, hw⟩ := exists_pieces_of_range h
  refine ⟨piece, hl, .of_writes hc w fun i hi => (hw i hi.left ?_).writes⟩
  have := hi.right
  omega

theorem Mirrored.balanced (hc : c.Ready) (h : c.Mirrored r lines) : Balanced (braceWord lines) := by
  have ⟨piece, hl, m⟩ := h
  have hword : braceWord lines = r.word (braceWord ∘ piece) := by
    rw [hl, braceWord, List.flatMap_assoc]
    rfl
  exact hword ▸ m.whole.balanced hc.flow m.shown

-- What is left to do where main ends.
def epilogue (c : Context) : List Line :=
  if c.flushesAtReturn then [Line.stmt .flush] else []

-- A function that has nothing in it but the instructions of a span.
structure Lifts (c : Context) (signature : String) (r : Flow.Span) (f : Function) : Prop where
  signature : f.signature = signature
  mirrored  : c.Mirrored r f.body

def liftsSubroutine (c : Context) (sub : Subroutine) : Function → Prop :=
  { c with scope := .subroutine }.Lifts ("void " ++ subroutineName sub.label ++ "()") sub.body

def liftsPhase (c : Context) (kind : String) (phase : Phase × Nat) : Function → Prop :=
  c.Lifts ("void " ++ phaseName kind phase.2 ++ "(int phase_instance)") phase.1.span

-- The functions of a shader, with the instructions that they are made of.
inductive Covers (c : Context) : Option Phases → Functions → Prop
  | single {store labels main body subs} (main_body : main.body = c.prologue ++ body ++ c.epilogue)
      (mirrored : c.Mirrored ⟨0, c.flow.mainEnd⟩ body)
      (subroutines : List.Forall₂ c.liftsSubroutine c.flow.subroutines subs) :
      Covers c none (.single store labels main subs)
  | phased {phases points fs forkDriver js joinDriver main}
      (controlPoint : ∀ phase, phases.controlPoint = some phase →
        ∃ f ∈ points, { c with scope := .controlPoint }.Lifts "void hs_cp_main()" phase.span f)
      (forks : List.Forall₂ ({ c with scope := .fork }.liftsPhase "fork") phases.forks.zipIdx fs)
      (joins : List.Forall₂ ({ c with scope := .join }.liftsPhase "join") phases.joins.zipIdx js) :
      Covers c (some phases) (.phased points (fs ++ [forkDriver]) (js ++ [joinDriver]) main)

theorem forall_mem_of_forall₂ {α β : Type} {R : α → β → Prop} {P : β → Prop} {l : List α}
    {l' : List β} (h : List.Forall₂ R l l') (hR : ∀ a b, R a b → P b) : ∀ b ∈ l', P b := by
  induction h
  case nil => exact List.forall_mem_nil _
  case cons hab _ hi => exact List.forall_mem_cons.mpr ⟨hR _ _ hab, hi⟩

-- The function that a subroutine is lifted to.
structure LiftsTo (c : Context) (sub : Subroutine) (f : Function) : Prop where
  signature : f.signature = "void " ++ subroutineName sub.label ++ "()"
  body      : ∃ s s', ({ c with scope := .subroutine }.body (sub.start + 1) sub.stop).run s =
    .ok (f.body, s')

theorem liftsTo_of_subroutines {subs : List Subroutine} {fs : List Function}
    (h : (c.subroutines subs).run s = .ok (fs, s')) : List.Forall₂ c.LiftsTo subs fs := by
  induction subs generalizing s fs
  case nil =>
    have ⟨hfs, _⟩ := Emit.run_pure_eq_ok.mp h
    exact hfs ▸ .nil
  case cons hi =>
    have ⟨body, t, hbody, h⟩ := Emit.run_bind_eq_ok.mp h
    have ⟨rest, t', hrest, h⟩ := Emit.run_bind_eq_ok.mp h
    have ⟨hfs, ht⟩ := Emit.run_pure_eq_ok.mp h
    subst hfs ht
    exact .cons ⟨rfl, s, t, hbody⟩ (hi hrest)

-- The function that a phase is lifted to, by its number among those of its kind.
structure PhaseTo (c : Context) (kind : String) (phase : Phase × Nat) (f : Function) : Prop where
  signature : f.signature = "void " ++ phaseName kind phase.2 ++ "(int phase_instance)"
  body      : ∃ s s', (c.body phase.1.start phase.1.stop).run s = .ok (f.body, s')

theorem phaseTo_of_phaseFunctions {kind : String} {k : Nat} {phases : List Phase}
    {fs : List Function} (h : (c.phaseFunctions kind k phases).run s = .ok (fs, s')) :
    List.Forall₂ (c.PhaseTo kind) (phases.zipIdx k) fs := by
  induction phases generalizing k s fs
  case nil =>
    have ⟨hfs, _⟩ := Emit.run_pure_eq_ok.mp h
    exact hfs ▸ .nil
  case cons hi =>
    have ⟨body, t, hbody, h⟩ := Emit.run_bind_eq_ok.mp h
    have ⟨rest, t', hrest, h⟩ := Emit.run_bind_eq_ok.mp h
    have ⟨hfs, ht⟩ := Emit.run_pure_eq_ok.mp h
    subst hfs ht
    exact .cons ⟨rfl, s, t, hbody⟩ (hi hrest)

theorem mirrored_subroutines (hc : c.Ready) {subs : List Subroutine}
    (hw : ∀ sub ∈ subs, sub.body.Whole c.program.instructions)
    (h : (c.subroutines subs).run s = .ok (fs, s')) :
    List.Forall₂ c.liftsSubroutine subs fs := by
  refine ((List.forall₂_and_left _ _).mpr ⟨hw, liftsTo_of_subroutines h⟩).imp ?_
  intro sub f ⟨hsub, hf⟩
  have ⟨_, _, hbody⟩ := hf.body
  exact ⟨hf.signature, .of_body hc.scope hsub hbody⟩

theorem mirrored_phases (hc : c.Ready) {k : Nat} {phases : List Phase}
    (hw : ∀ phase ∈ phases, phase.span.Whole c.program.instructions)
    (h : (c.phaseFunctions kind k phases).run s = .ok (fs, s')) :
    List.Forall₂ (c.liftsPhase kind) (phases.zipIdx k) fs := by
  have hw : ∀ x ∈ phases.zipIdx k, x.1.span.Whole c.program.instructions :=
    fun x hx => hw x.1 (List.fst_mem_of_mem_zipIdx hx)
  refine ((List.forall₂_and_left _ _).mpr ⟨hw, phaseTo_of_phaseFunctions h⟩).imp ?_
  intro phase f ⟨hphase, hf⟩
  have ⟨_, _, hbody⟩ := hf.body
  exact ⟨hf.signature, .of_body hc hphase hbody⟩

theorem Lifts.sound {signature : String} {f : Function} (hc : c.Ready) (h : c.Lifts signature r f)
    (hs : Plain signature) : f.Sound :=
  ⟨h.signature ▸ hs, h.mirrored.balanced hc⟩

theorem balanced_stmt {stmt : Stmt} (h : stmt.Over Name.IsPlain) :
    Balanced (braceWord [.stmt stmt]) :=
  Line.balanced_stmts (N := Name.IsPlain) (fun _ => id) (List.forall_mem_singleton.mpr h)

theorem balanced_call {function : String} {args : List Expr} (hf : IsWord function)
    (ha : ∀ e ∈ args, e.Over Name.IsPlain) : Balanced (braceWord [call function args]) :=
  balanced_stmt ⟨hf, Expr.overs_iff.mpr ha⟩

theorem Ready.balanced_prologue (hc : c.Ready) : Balanced (braceWord c.prologue) :=
  braceWord_append ▸ hc.moves.load.balanced.append Resources.balanced_immediatesInit

theorem balanced_epilogue : Balanced (braceWord c.epilogue) := by
  unfold epilogue
  split
  case isTrue => exact balanced_stmt trivial
  case isFalse => exact .nil

theorem balanced_passThrough : Balanced (braceWord c.passThrough) := by
  refine balanced_braceWord (List.forall_mem_map.mpr fun _ _ => balanced_stmt ?_)
  simp +decide

theorem isWord_phaseName {k : Nat} (h : IsWord kind) : IsWord (phaseName kind k) := by
  simp +decide [phaseName, h]

theorem balanced_runPhase {phase : Phase} {k : Nat} (h : IsWord kind) :
    Balanced (braceWord (runPhase kind phase k)) := by
  have hname := isWord_phaseName (k := k) h
  unfold runPhase
  split
  case isTrue => exact balanced_call hname (by simp)
  case isFalse =>
    exact balanced_block (N := Name.IsPlain) (fun _ => id) trivial (balanced_call hname (by simp))

theorem balanced_calls {fs : List String} (h : ∀ f ∈ fs, IsWord f) :
    Balanced (braceWord (fs.map (call · []))) := by
  refine balanced_braceWord (List.forall_mem_map.mpr fun f hf => ?_)
  exact balanced_call (h f hf) (List.forall_mem_nil _)

theorem Ready.sound_hullMain (hc : c.Ready) : c.hullMain.Sound := by
  have hpatch : Balanced (braceWord (c.interface.pointLoad ++
      ["hs_fork_phases", "hs_join_phases"].map (call · []))) :=
    braceWord_append ▸ hc.moves.pointLoad.balanced.append (balanced_calls (by decide))
  have hhead : (Expr.binary .eq (.builtin "InvocationID") (.int 0)).Over Name.IsPlain := by
    simp +decide
  have hsync : Balanced (braceWord (["hs_control_point_phase", "barrier"].map (call · []))) :=
    balanced_calls (by decide)
  refine Function.sound_mk (by decide) ?_
  rw [braceWord_append, braceWord_append]
  exact (hc.balanced_prologue.append hsync).append (balanced_block (fun _ => id) hhead hpatch)

theorem covers_singleFunctions (hc : c.Ready) {fs : Functions}
    (h : c.singleFunctions.run s = .ok (fs, s')) : c.Covers none fs ∧ ∀ f ∈ fs.toList, f.Sound := by
  have hwhole {r : Flow.Span} (hr : r ∈ c.flow.bodies) : r.Whole c.program.instructions :=
    Flow.whole_of_mem_bodies hc.flow hr
  have ⟨subs, t, hsubs, h⟩ := Emit.run_bind_eq_ok.mp h
  have ⟨body, t', hbody, h⟩ := Emit.run_bind_eq_ok.mp h
  have ⟨hfs, _⟩ := Emit.run_pure_eq_ok.mp h
  subst hfs
  have hmain : c.Mirrored ⟨0, c.flow.mainEnd⟩ body := .of_body hc (hwhole List.mem_cons_self) hbody
  have hsubs := mirrored_subroutines hc
    (fun _ hs => hwhole (List.mem_cons_of_mem _ (List.mem_map_of_mem hs))) hsubs
  refine ⟨.single rfl hmain hsubs, List.forall_mem_append.mpr ⟨?store, ?rest⟩⟩
  case' rest => refine List.forall_mem_cons.mpr ⟨?main, ?subs⟩
  case store =>
    have hname : Plain "void store_outputs()" := by decide
    split <;> simp [Function.sound_mk hname hc.moves.store.balanced]
  case main =>
    refine Function.sound_mk (by decide) ?_
    rw [braceWord_append, braceWord_append]
    exact (hc.balanced_prologue.append (hmain.balanced hc)).append balanced_epilogue
  case subs =>
    refine forall_mem_of_forall₂ hsubs fun sub f hf => Lifts.sound hc.scope hf ?_
    simp +decide [isWord_subroutineName.plain]

theorem mirrored_patchFunctions (hc : c.Ready) {phases : List Phase} {after : List Line}
    (h : (c.patchFunctions kind phases after).run s = .ok (fs, s')) (hk : IsWord kind)
    (hw : ∀ phase ∈ phases, phase.span.Whole c.program.instructions)
    (ha : Balanced (braceWord after)) :
    ∃ gs driver, fs = gs ++ [driver] ∧ List.Forall₂ (c.liftsPhase kind) phases.zipIdx gs ∧
      ∀ f ∈ fs, f.Sound := by
  have ⟨gs, t, hgs, h⟩ := Emit.run_bind_eq_ok.mp h
  have ⟨hfs, _⟩ := Emit.run_pure_eq_ok.mp h
  have hgs := mirrored_phases hc hw hgs
  refine ⟨gs, _, hfs.symm, hgs, hfs ▸ List.forall_mem_append.mpr ⟨?phases, ?driver⟩⟩
  case phases =>
    refine forall_mem_of_forall₂ hgs fun phase f hf => Lifts.sound hc hf ?_
    simp +decide [(isWord_phaseName hk).plain]
  case driver =>
    have hruns : Balanced (braceWord (phases.zipIdx.flatMap fun x => runPhase kind x.1 x.2)) := by
      rw [braceWord, List.flatMap_assoc]
      exact balanced_flatMap fun _ _ => balanced_runPhase hk
    refine List.forall_mem_singleton.mpr (Function.sound_mk ?_ ?_)
    case refine_1 => simp +decide [hk.plain]
    case refine_2 => exact braceWord_append ▸ hruns.append ha

theorem mirrored_controlPointFunctions (hc : c.Ready) {phase? : Option Phase}
    (hw : ∀ phase, phase? = some phase → phase.span.Whole c.program.instructions)
    (h : (c.controlPointFunctions phase?).run s = .ok (fs, s')) :
    (∀ phase, phase? = some phase →
      ∃ f ∈ fs, { c with scope := .controlPoint }.Lifts "void hs_cp_main()" phase.span f) ∧
      ∀ f ∈ fs, f.Sound := by
  have hdriver {body : List Line} (hb : Balanced (braceWord body)) :
      Function.Sound ⟨"void hs_control_point_phase()", body ++ c.interface.store⟩ :=
    Function.sound_mk (by decide) (braceWord_append ▸ hb.append hc.moves.store.balanced)
  cases phase?
  case none =>
    have ⟨hfs, _⟩ := Emit.run_pure_eq_ok.mp h
    exact ⟨nofun, hfs ▸ List.forall_mem_singleton.mpr (hdriver balanced_passThrough)⟩
  case some phase =>
    have ⟨body, t, hbody, h⟩ := Emit.run_bind_eq_ok.mp h
    have ⟨hfs, _⟩ := Emit.run_pure_eq_ok.mp h
    have hf : { c with scope := .controlPoint }.Lifts "void hs_cp_main()" phase.span
        ⟨"void hs_cp_main()", body⟩ :=
      ⟨rfl, .of_body hc.scope (hw phase rfl) hbody⟩
    subst hfs
    refine ⟨fun _ hp => ⟨_, List.mem_cons_self, Option.some.inj hp ▸ hf⟩, ?_⟩
    refine List.forall_mem_cons.mpr ⟨hf.sound hc.scope (by decide), ?_⟩
    have hcall := balanced_call (show IsWord "hs_cp_main" by decide) (List.forall_mem_nil _)
    exact List.forall_mem_singleton.mpr (hdriver hcall)

theorem covers_phasedFunctions (hc : c.Ready) {phases : Phases} {fs : Functions}
    (hw : ∀ phase ∈ phases.toList, phase.span.Whole c.program.instructions)
    (h : (c.phasedFunctions phases).run s = .ok (fs, s')) :
    c.Covers (some phases) fs ∧ ∀ f ∈ fs.toList, f.Sound := by
  obtain ⟨points, t, hpoints, h⟩ := Emit.run_bind_eq_ok.mp h
  obtain ⟨forks, t', hforks, h⟩ := Emit.run_bind_eq_ok.mp h
  obtain ⟨joins, t'', hjoins, h⟩ := Emit.run_bind_eq_ok.mp h
  obtain ⟨hfs, _⟩ := Emit.run_pure_eq_ok.mp h
  subst hfs
  simp only [Phases.toList, List.forall_mem_append] at hw
  obtain ⟨⟨hwpoint, hwforks⟩, hwjoins⟩ := hw
  obtain ⟨hpoint, hpoints⟩ := mirrored_controlPointFunctions hc
    (fun phase hp => hwpoint phase (Option.mem_toList.mpr hp)) hpoints
  obtain ⟨fs, fork, rfl, hfork, hforks⟩ :=
    mirrored_patchFunctions hc.scope hforks (by decide) hwforks .nil
  obtain ⟨js, join, rfl, hjoin, hjoins⟩ :=
    mirrored_patchFunctions hc.scope hjoins (by decide) hwjoins hc.moves.patchStore.balanced
  refine ⟨.phased hpoint hfork hjoin, List.forall_mem_append.mpr ⟨?_, ?_⟩⟩
  case refine_1 =>
    exact List.forall_mem_append.mpr ⟨List.forall_mem_append.mpr ⟨hpoints, hforks⟩, hjoins⟩
  case refine_2 => exact List.forall_mem_singleton.mpr hc.sound_hullMain

end Context

variable {p : Program} {o : Options} {s : Shader} {c : Context} {phases : Option Phases}

theorem Program.Lifted.ready (l : p.Lifted o s c phases)
    (hf : ∀ flow, p.flow = some flow → Flow.ofInstructions p.instructions p.operands = .ok flow) :
    c.Ready := by
  refine ⟨?_, Interface.sound_of_build l.interface, Interface.moves_of_build l.interface,
    Resources.worded_of_collect l.resources⟩
  have hflow := l.flow
  rw [l.program]
  unfold requireFlow at hflow
  split at hflow
  case h_1 h => exact Except.ok.inj hflow ▸ hf _ h
  case h_2 =>
    cases h : Flow.ofInstructions p.instructions p.operands
    case error => simp [h, Except.mapError] at hflow
    case ok => simpa [h, Except.mapError] using hflow

theorem Program.lift_mirrors_links
    (hf : ∀ flow, p.flow = some flow → Flow.ofInstructions p.instructions p.operands = .ok flow)
    (h : p.lift o = .ok s) :
    Balanced s.text.toList ∧ ∃ c phases, p.Lifted o s c phases ∧
      Flow.ofInstructions p.instructions p.operands = .ok c.flow ∧
      c.Covers phases s.source.functions := by
  have ⟨c, phases, l⟩ := exists_lifted h
  have hc := l.ready hf
  have ⟨progress, hrun, hpreamble⟩ := l.written
  have ⟨hcovers, hsound⟩ : c.Covers phases s.source.functions ∧
      ∀ f ∈ s.source.functions.toList, f.Sound := by
    cases phases
    case none => exact Context.covers_singleFunctions hc hrun
    case some ps =>
      refine Context.covers_phasedFunctions hc ?_ hrun
      exact l.program ▸ Phases.whole_of_split (l.program ▸ hc.flow) (l.split ps rfl)
  refine ⟨Source.balanced_text ?_ ?_ hsound, c, phases, l, l.program ▸ hc.flow, hcovers⟩
  case refine_1 => exact hpreamble ▸ Context.plain_preamble
  case refine_2 => exact Context.isPlain_of_decls hc.resources hc.interface l.decls

-- A main function with an `if` and an `else`, and a subroutine with a `loop`.
def branchAndCall : Program where
  instructions :=
    [(.beginIf, [0]), (.orElse, []), (.endIf, []), (.call, [1]), (.ret, []), (.label, [1]),
      (.beginLoop, []), (.breakOut, []), (.endLoop, [])].map fun (op, operands) =>
        { opcode := op, controls := .conditional .nonZero, operands, position := 0 }
  operands :=
    #[{ register := .temp, selection := .select 0, indices := [.imm 0] },
      { register := .label, components := .zero, indices := [.imm 7] }]
  flow := some {
    links := [some 1, some 2, some 0, none, none, none, some 8, none, some 6]
    subroutines := [⟨7, 5, 9⟩]
    mainEnd := 4
    mainReturns := true }

theorem Program.lift_mirrors_links_branchAndCall :
    (∀ flow, branchAndCall.flow = some flow →
      Flow.ofInstructions branchAndCall.instructions branchAndCall.operands = .ok flow) ∧
    ∃ s, branchAndCall.lift {} = .ok s ∧ Balanced s.text.toList ∧
      ∃ c phases, branchAndCall.Lifted {} s c phases ∧ some c.flow = branchAndCall.flow ∧
        c.Covers phases s.source.functions := by
  have hf : ∀ flow, branchAndCall.flow = some flow →
      Flow.ofInstructions branchAndCall.instructions branchAndCall.operands = .ok flow :=
    fun _ h => Option.some.inj h ▸ rfl
  obtain ⟨s, h⟩ : ∃ s, branchAndCall.lift {} = .ok s := by decide +kernel
  have ⟨hb, c, phases, l, hflow, hc⟩ := Program.lift_mirrors_links hf h
  exact ⟨hf, s, h, hb, c, phases, l, congrArg some (Except.ok.inj (hflow.symm.trans rfl)), hc⟩

end ShaderLift
