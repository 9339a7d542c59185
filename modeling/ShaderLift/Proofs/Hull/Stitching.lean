import ShaderLift.Proofs.Glsl.Rendering
import ShaderLift.Proofs.Hull.Partition
import ShaderLift.Proofs.Lift.References

/-!
How the text of a hull shader is stitched together. The blocks of its phases stand in it as they
are, with main behind them. A block has a function for each phase, with what the instructions of the
phase are lifted to in it, and a driver that runs the functions.
-/

namespace ShaderLift

open Glsl

namespace Phases

variable {p : Program} {phases : Phases}

-- Which instructions the phases have, and how often they run.
structure Ranges (p : Program) (phases : Phases) : Prop where
  controlPoint : ((∀ i, kindAt p.instructions i = none) ∧
      phases.controlPoint = some ⟨.controlPoint, 0, p.instructions.length, [], 1⟩) ∨
    phases.controlPoint.toList.map (·.start) =
        (markersOf p.instructions .controlPoint).map (· + 1) ∧
      ∀ phase ∈ phases.controlPoint, phase.Fills p.instructions
  forks        : phases.forks.map (·.start) = (markersOf p.instructions .fork).map (· + 1)
  joins        : phases.joins.map (·.start) = (markersOf p.instructions .join).map (· + 1)
  fills        : ∀ phase ∈ phases.forks ++ phases.joins, phase.Fills p.instructions
  instances    : ∀ phase ∈ phases.toList, phase.instances = instanceCount p phase.declarations

theorem instances_ofMarkers {ms : List (Nat × PhaseKind)} :
    ∀ phase ∈ ofMarkers p ms, phase.instances = instanceCount p phase.declarations := by
  fun_induction ofMarkers p ms
  case case1 => exact List.forall_mem_nil _
  case case2 => exact List.forall_mem_singleton.mpr rfl
  case case3 hi => exact List.forall_mem_cons.mpr ⟨rfl, hi⟩

theorem ranges_of_split (h : split p = .ok phases) : phases.Ranges p := by
  cases hm : markers p.instructions
  case nil =>
    have hnone : ∀ i, kindAt p.instructions i = none :=
      fun i => (hm ▸ lists_markers : Lists p.instructions 0 []).none_behind (Nat.zero_le i)
    have hempty {kind : PhaseKind} : markersOf p.instructions kind = [] := by
      simp [← map_filter_markers, hm]
    rw [split, hm] at h
    cases h
    exact {
      controlPoint := .inl ⟨hnone, rfl⟩
      forks := by simp [hempty]
      joins := by simp [hempty]
      fills := List.forall_mem_nil _
      instances := List.forall_mem_singleton.mpr rfl }
  case cons m ms =>
    obtain ⟨_, hle, rfl⟩ := (split_eq_ok_iff hm).mp h
    have hperm := toList_ofFirst_perm hle
    have hfills : ∀ phase ∈ (ofFirst p m ms).toList, phase.Fills p.instructions := fun phase hp =>
      fills_ofMarkers (hm ▸ lists_markers) phase (hperm.mem_iff.mp hp)
    simp only [toList, List.forall_mem_append] at hfills
    exact {
      controlPoint := by
        refine .inr ⟨?_, fun phase hp => hfills.left.left phase (Option.mem_toList.mpr hp)⟩
        rw [toList_controlPoint_ofFirst hle, map_start_filter hm]
      forks := map_start_filter hm
      joins := map_start_filter hm
      fills := List.forall_mem_append.mpr ⟨hfills.left.right, hfills.right⟩
      instances := fun phase hp => instances_ofMarkers phase (hperm.mem_iff.mp hp) }

end Phases

theorem Moved.leveled {lines : List Line} (h : Moved lines) : Leveled lines := by
  induction h
  case nil => exact .nil
  case append hi hi' => exact hi.append hi'
  case load => exact .map
  case store => exact .map
  case times => exact .block .stmts

namespace Context

variable {c : Context} {s s' : Progress} {lines : List Line} {kind : String} {phases : List Phase}
variable {fs : List Function}

-- What the instructions from `i` to below `stop` are lifted to, one after the other.
inductive Emission (c : Context) (stop : Nat) :
    (i depth : Nat) → Progress → List Line → Progress → Prop
  | done {i depth s} (all : stop ≤ i) : Emission c stop i depth s [] s
  | step {i depth s t s' inst lines rest} (lt : i < stop)
      (inst_eq : c.program.instructions[i]? = some inst)
      (run : ((c.focus i inst).step inst (depth = 0 ∧ i + 1 = stop)).run s = .ok (lines, t))
      (behind : Emission c stop (i + 1) (depthAfter depth inst.opcode) t rest s') :
      Emission c stop i depth s (lines ++ rest) s'

theorem emission_of_range {n i depth : Nat} (h : (c.range n i depth).run s = .ok (lines, s')) :
    c.Emission (i + n) i depth s lines s' := by
  induction n generalizing i depth s lines
  case zero =>
    obtain ⟨rfl, rfl⟩ := Emit.run_pure_eq_ok.mp h
    exact .done le_rfl
  case succ n hi =>
    simp only [range] at h
    split at h
    case h_2 => cases h
    case h_1 inst hinst =>
      obtain ⟨first, t, hfirst, h⟩ := Emit.run_bind_eq_ok.mp h
      obtain ⟨rest, t', hrest, h⟩ := Emit.run_bind_eq_ok.mp h
      obtain ⟨rfl, rfl⟩ := Emit.run_pure_eq_ok.mp h
      have hlast : (depth = 0 ∧ n = 0) = (depth = 0 ∧ i + 1 = i + (n + 1)) := by simp
      refine .step (t := t) (by omega) hinst ?_ ?_
      case refine_1 =>
        simp only [← hlast]
        exact hfirst
      case refine_2 =>
        rw [← Nat.succ_add_eq_add_succ]
        exact hi hrest

theorem emission_of_body {start stop : Nat} (h : (c.body start stop).run s = .ok (lines, s')) :
    c.Emission stop start 0 s lines s' := by
  have hrange := emission_of_range h
  cases Nat.le_total start stop
  case inl hle => rwa [Nat.add_sub_cancel' hle] at hrange
  case inr hle =>
    rw [Nat.sub_eq_zero_of_le hle] at hrange
    cases hrange
    case done => exact .done hle
    case step hlt _ _ _ => omega

-- The texts of the functions of phases, numbered from `k` on.
inductive Defines (c : Context) (kind : String) :
    (k : Nat) → List Phase → Progress → List (List String) → Progress → Prop
  | nil {k s} : Defines c kind k [] s [] s
  | cons {k phase phases s t s' lines texts}
      (emission : c.Emission phase.stop phase.start 0 s lines t)
      (behind : Defines c kind (k + 1) phases t texts s') :
      Defines c kind k (phase :: phases) s (functionLines
        ("void hs_" ++ kind ++ "_phase" ++ toString k ++ "(int phase_instance)") lines :: texts) s'

-- How the driver runs phase `k`.
def runLines (kind : String) (phase : Phase) (k : Nat) : List String :=
  if phase.instances ≤ 1 then
    ["    hs_" ++ kind ++ "_phase" ++ toString k ++ "(0);"]
  else
    ["    for (int i = 0; i < " ++ decimal phase.instances ++ "; i++) \x7b",
      "        hs_" ++ kind ++ "_phase" ++ toString k ++ "(i);",
      "    \x7d"]

-- The driver of the phases of a kind.
def driverLines (kind : String) (phases : List Phase) (after : List Line) : List String :=
  ("void hs_" ++ kind ++ "_phases() \x7b") ::
    (phases.zipIdx.flatMap fun x => runLines kind x.1 x.2) ++ renderLines 1 after ++ ["\x7d"]

-- The block of the phases of a kind.
def PatchBlock (c : Context) (kind : String) (phases : List Phase) (after : List Line)
    (s : Progress) (block : List String) (s' : Progress) : Prop :=
  ∃ texts, c.Defines kind 0 phases s texts s' ∧
    block = texts.flatMap (· ++ [""]) ++ driverLines kind phases after

-- The block of the control points. If they have no phase, they are passed through.
inductive PointBlock (c : Context) : Option Phase → Progress → List String → Progress → Prop
  | passed {s : Progress} : PointBlock c none s ("void hs_control_point_phase() \x7b" ::
      renderLines 1 c.passThrough ++ renderLines 1 c.interface.store ++ ["\x7d"]) s
  | phase {phase : Phase} {s lines s'}
      (emission : { c with scope := .controlPoint }.Emission phase.stop phase.start 0 s lines s') :
      PointBlock c (some phase) s (functionLines "void hs_cp_main()" lines ++
        ["", "void hs_control_point_phase() \x7b", "    hs_cp_main();"] ++
          renderLines 1 c.interface.store ++ ["\x7d"]) s'

-- The main function of a hull shader.
def mainLines (c : Context) : List String :=
  "void main() \x7b" :: renderLines 1 c.prologue ++
    ["    hs_control_point_phase();", "    barrier();", "    if (gl_InvocationID == 0) \x7b"] ++
    renderLines 2 c.interface.pointLoad ++
    ["        hs_fork_phases();", "        hs_join_phases();", "    \x7d", "\x7d"]

theorem defines_of_phaseFunctions {k : Nat}
    (h : (c.phaseFunctions kind k phases).run s = .ok (fs, s')) :
    c.Defines kind k phases s (fs.map Function.text) s' := by
  induction phases generalizing k s fs
  case nil =>
    obtain ⟨rfl, rfl⟩ := Emit.run_pure_eq_ok.mp h
    exact .nil
  case cons phase phases hi =>
    obtain ⟨body, t, hbody, h⟩ := Emit.run_bind_eq_ok.mp h
    obtain ⟨rest, t', hrest, h⟩ := Emit.run_bind_eq_ok.mp h
    obtain ⟨rfl, rfl⟩ := Emit.run_pure_eq_ok.mp h
    have hsignature : "void " ++ phaseName kind k ++ "(int phase_instance)" =
        "void hs_" ++ kind ++ "_phase" ++ toString k ++ "(int phase_instance)" := by
      simp only [phaseName, ← String.append_assoc, String.reduceAppend]
    rw [List.map_cons, Function.text_eq, hsignature]
    exact .cons (emission_of_body hbody) (hi hrest)

theorem leveled_call {function : String} {args : List Expr} : Leveled [call function args] :=
  .stmts

theorem leveled_runPhase {phase : Phase} {k : Nat} : Leveled (runPhase kind phase k) := by
  unfold runPhase
  split
  case isTrue => exact leveled_call
  case isFalse => exact .block leveled_call

theorem renderLines_runPhase {phase : Phase} {k : Nat} :
    renderLines 1 (runPhase kind phase k) = runLines kind phase k := by
  have hcall {n : Nat} {e : Expr} : renderLines n [call (phaseName kind k) [e]] =
      [indent n ("hs_" ++ kind ++ "_phase" ++ toString k ++ "(" ++ e.text ++ ")" ++ ";")] := rfl
  have hindent {text : String} : indent 1 text = "    " ++ text := rfl
  unfold runPhase runLines
  split
  case isTrue =>
    have hzero : (Expr.int 0).text = "0" := by decide
    rw [hcall, hindent, hzero]
    simp only [String.append_assoc, String.reduceAppend]
    simp only [← String.append_assoc, String.reduceAppend]
  case isFalse =>
    have hindent' {text : String} : indent 2 text = "        " ++ text := rfl
    have hhead : (Head.times phase.instances).text =
        "for (int i = 0; i < " ++ decimal phase.instances ++ "; i++) \x7b" := rfl
    have hindex : (Expr.var .loopIndex).text = "i" := rfl
    rw [renderLines_block_leveled leveled_call, hcall, hindent, hindent, hindent', hhead, hindex]
    simp only [String.append_assoc, String.reduceAppend, List.cons_append, List.nil_append]
    simp only [← String.append_assoc, String.reduceAppend]

theorem text_driver {after : List Line} (ha : Leveled after) :
    Function.text ⟨"void hs_" ++ kind ++ "_phases()",
      (phases.zipIdx.flatMap fun x => runPhase kind x.1 x.2) ++ after⟩ =
      driverLines kind phases after := by
  have hruns : ∀ x ∈ phases.zipIdx, Leveled (runPhase kind x.1 x.2) := fun _ _ => leveled_runPhase
  have hsignature : "void hs_" ++ kind ++ "_phases()" ++ " \x7b" =
      "void hs_" ++ kind ++ "_phases() \x7b" := by
    simp only [String.append_assoc, String.reduceAppend]
  rw [Function.text_eq, functionLines_leveled ((Leveled.flatMap hruns).append ha), hsignature,
    renderLines_leveled (.flatMap hruns), renderLines_flatMap hruns]
  simp only [renderLines_runPhase, driverLines, List.cons_append]

theorem patchBlock_of_patchFunctions {after : List Line} (ha : Leveled after)
    (h : (c.patchFunctions kind phases after).run s = .ok (fs, s')) :
    c.PatchBlock kind phases after s (joinSections (fs.map Function.text)) s' := by
  obtain ⟨gs, t, hgs, h⟩ := Emit.run_bind_eq_ok.mp h
  obtain ⟨rfl, rfl⟩ := Emit.run_pure_eq_ok.mp h
  refine ⟨gs.map Function.text, defines_of_phaseFunctions hgs, ?_⟩
  rw [List.map_append, List.map_singleton, joinSections_concat]
  exact congrArg _ (text_driver ha)

theorem leveled_passThrough : Leveled c.passThrough :=
  .map

theorem pointBlock_of_controlPointFunctions {phase : Option Phase} (hi : c.interface.Moves)
    (h : (c.controlPointFunctions phase).run s = .ok (fs, s')) :
    c.PointBlock phase s (joinSections (fs.map Function.text)) s' := by
  have hstore := hi.store.leveled
  have hdriver {lines : List Line} (hl : Leveled lines) :
      Function.text ⟨"void hs_control_point_phase()", lines ++ c.interface.store⟩ =
        "void hs_control_point_phase() \x7b" ::
          (renderLines 1 lines ++ renderLines 1 c.interface.store) ++ ["\x7d"] := by
    rw [Function.text_eq, functionLines_leveled (hl.append hstore), renderLines_leveled hl]
    rfl
  cases phase
  case none =>
    obtain ⟨rfl, rfl⟩ := Emit.run_pure_eq_ok.mp h
    change c.PointBlock none s (Function.text ⟨_, c.passThrough ++ c.interface.store⟩) s
    rw [hdriver leveled_passThrough]
    exact .passed
  case some phase =>
    obtain ⟨body, t, hbody, h⟩ := Emit.run_bind_eq_ok.mp h
    obtain ⟨rfl, rfl⟩ := Emit.run_pure_eq_ok.mp h
    have hcall : renderLines 1 [call "hs_cp_main" []] = ["    hs_cp_main();"] := by decide
    change c.PointBlock (some phase) s (Function.text ⟨"void hs_cp_main()", body⟩ ++
      "" :: Function.text ⟨_, [call "hs_cp_main" []] ++ c.interface.store⟩) t
    rw [hdriver leveled_call, hcall, Function.text_eq]
    simpa using PointBlock.phase (emission_of_body hbody)

theorem text_hullMain (hi : c.interface.Moves) : c.hullMain.text = c.mainLines := by
  have himmediates : Leveled (c.resources.immediatesInit c.dialect) := by
    unfold Resources.immediatesInit
    split
    case isTrue => exact .nil
    case isFalse => exact .map
  have hprologue : Leveled c.prologue := hi.load.leveled.append himmediates
  have hcalls {f g : String} : Leveled [call f [], call g []] := leveled_call.append leveled_call
  have hphases :=
    hi.pointLoad.leveled.append (hcalls (f := "hs_fork_phases") (g := "hs_join_phases"))
  rw [Function.text_eq, hullMain,
    functionLines_leveled ((hprologue.append hcalls).append hphases.block),
    renderLines_leveled (hprologue.append hcalls), renderLines_leveled hprologue,
    renderLines_block_leveled hphases, renderLines_leveled hi.pointLoad.leveled]
  have hhead : indent 1 (Head.when (.binary .eq (.builtin "InvocationID") (.int 0))).text =
      "    if (gl_InvocationID == 0) \x7b" := by decide
  have hsync : renderLines 1 [call "hs_control_point_phase" [], call "barrier" []] =
      ["    hs_control_point_phase();", "    barrier();"] := by decide
  have hpatch : renderLines 2 [call "hs_fork_phases" [], call "hs_join_phases" []] =
      ["        hs_fork_phases();", "        hs_join_phases();"] := by decide
  have hend : indent 1 "\x7d" = "    \x7d" := by decide
  rw [hhead, hsync, hpatch, hend]
  simp [mainLines]

end Context

-- A hull shader that is made of the blocks of its phases.
structure Program.Stitched (p : Program) (o : Options) (s : Shader) (c : Context) (phases : Phases)
    (points forks joins : List String) : Prop where
  lifted  : p.Lifted o s c (some phases)
  ranges  : phases.Ranges p
  blocks  : s.phaseTexts? = some ⟨unlines points, unlines forks, unlines joins⟩
  text    : s.text = unlines (s.source.preamble ++ "" :: s.source.decls.flatMap Decl.lines) ++
    "\n" ++ unlines points ++ "\n" ++ unlines forks ++ "\n" ++ unlines joins ++
    "\n" ++ unlines c.mainLines
  written : ∃ t t' t'', c.PointBlock phases.controlPoint {} points t ∧
    { c with scope := .fork }.PatchBlock "fork" phases.forks [] t forks t' ∧
    { c with scope := .join }.PatchBlock "join" phases.joins c.interface.patchStore t' joins t''

theorem Program.lift_stitches_phases {p : Program} {o : Options} {s : Shader}
    (hstage : p.stage = .hull) (h : p.lift o = .ok s) :
    ∃ c phases points forks joins, p.Stitched o s c phases points forks joins := by
  obtain ⟨c, phases?, l⟩ := exists_lifted h
  obtain ⟨phases, rfl⟩ := Option.isSome_iff_exists.mp (l.hull.mpr hstage)
  have hi := Interface.moves_of_build l.interface
  obtain ⟨_, hrun, _⟩ := l.written
  obtain ⟨points, t, hpoints, hrun⟩ := Emit.run_bind_eq_ok.mp hrun
  obtain ⟨forks, t', hforks, hrun⟩ := Emit.run_bind_eq_ok.mp hrun
  obtain ⟨joins, t'', hjoins, hrun⟩ := Emit.run_bind_eq_ok.mp hrun
  obtain ⟨hfunctions, _⟩ := Emit.run_pure_eq_ok.mp hrun
  obtain ⟨hdecls, hlines⟩ := l.unbroken
  have hparts := hlines
  rw [← hfunctions, Functions.toList] at hparts
  simp only [List.forall_mem_append] at hparts
  obtain ⟨⟨⟨hpointLines, hforkLines⟩, hjoinLines⟩, _⟩ := hparts
  have hpoints := Context.pointBlock_of_controlPointFunctions hi hpoints
  have hforks := Context.patchBlock_of_patchFunctions .nil hforks
  have hjoins := Context.patchBlock_of_patchFunctions hi.patchStore.leveled hjoins
  refine ⟨c, phases, joinSections (points.map Function.text),
    joinSections (forks.map Function.text), joinSections (joins.map Function.text), ?_⟩
  exact {
    lifted := l
    ranges := Phases.ranges_of_split (l.split phases rfl)
    blocks := by
      rw [Shader.phaseTexts?, ← hfunctions, ← phasesText_eq hpointLines,
        ← phasesText_eq hforkLines, ← phasesText_eq hjoinLines]
    text := by
      rw [← Context.text_hullMain hi, ← phasesText_eq hpointLines, ← phasesText_eq hforkLines,
        ← phasesText_eq hjoinLines]
      exact Source.text_phased hfunctions.symm hdecls hlines
    written := ⟨t, t', t'', hpoints, hforks, hjoins⟩ }

-- A fork phase with three instances, one that runs once, and a join phase.
def forkedTwice : Program where
  stage := .hull
  declarations := [⟨.hsForkPhaseInstanceCount 3, 1, 1⟩]
  instructions :=
    [(.hsForkPhase, .phaseMarker), (.sync, .sync ⟨true, false, false, false⟩),
      (.hsForkPhase, .phaseMarker), (.ret, .flow), (.hsJoinPhase, .phaseMarker),
      (.ret, .flow)].map fun (op, controls) => { opcode := op, controls, position := 0 }

def forkedTwiceBlock : List String :=
  ["void hs_fork_phase0(int phase_instance) \x7b",
    "    barrier();",
    "\x7d",
    "",
    "void hs_fork_phase1(int phase_instance) \x7b",
    "\x7d",
    "",
    "void hs_fork_phases() \x7b",
    "    for (int i = 0; i < 3; i++) \x7b",
    "        hs_fork_phase0(i);",
    "    \x7d",
    "    hs_fork_phase1(0);",
    "\x7d"]

theorem Program.lift_stitches_phases_forkedTwice :
    forkedTwice.stage = .hull ∧ ∃ s, forkedTwice.lift { version := .gl40 } = .ok s ∧
      s.phaseTexts?.map Triple.y = some (unlines forkedTwiceBlock) ∧
      ∃ c phases points forks joins,
        forkedTwice.Stitched { version := .gl40 } s c phases points forks joins := by
  have hstage : forkedTwice.stage = .hull := rfl
  obtain ⟨s, h, hforks⟩ : ∃ s, forkedTwice.lift { version := .gl40 } = .ok s ∧
      s.phaseTexts?.map Triple.y = some (unlines forkedTwiceBlock) := by
    decide +kernel
  exact ⟨hstage, s, h, hforks, Program.lift_stitches_phases hstage h⟩

end ShaderLift
