import ShaderLift.Proofs.Lift.Routine
import ShaderLift.Proofs.Retarget.Texture

/-!
Function bodies and declarations under more capabilities.
-/

namespace ShaderLift

open Glsl

namespace Context

variable {c : Context} {t : Target} {inst : Instruction}

variable (h : t.Serves c)

include h

theorem allows_instruction :
    Emit.Allows (c.instruction inst) ((c.retarget t).instruction inst) := by
  rw [instruction_eq_perform, instruction_eq_perform]
  cases inst.opcode.routine
  case sample => exact allows_sample h
  case loadTexel => exact .lift (allows_loadTexel h)
  case queryLod => exact .lift (allows_queryLod h)
  case sizeInfo => exact .lift (allows_sizeInfo h)
  case bufferInfo => exact .lift (allows_bufferInfo h)
  case loadBuffer => exact .lift (allows_loadBuffer h)
  case storeBuffer => exact .lift (allows_storeBuffer h)
  case loadImage => exact .lift (allows_loadImage h)
  case storeImage => exact .lift (allows_storeImage h)
  case counter => exact .lift (allows_counter h)
  case atomic => exact .lift (allows_atomic h)
  case mov => exact .lift (allows_mov h)
  case movc => exact .lift (allows_movc h)
  case swapc => exact allows_swapc h
  case dot => exact .lift (allows_dot h)
  case evaluate => exact .lift (allows_evaluate h)
  case doubleResult => exact .lift (allows_doubleResult h)
  case twoResults => exact allows_twoResults h
  case compare => exact .lift (allows_compare h)
  case perLane => exact .lift (allows_perLane h)
  case fromDouble => exact .lift (allows_fromDouble h)
  case elementwise => exact allows_elementwise h
  case unsupported => exact .throw

theorem allows_condition : Allows (c.condition inst) ((c.retarget t).condition inst) :=
  .same fun _ => .bind (allows_source h) fun _ _ _ => .pure trivial

theorem allows_emitVertex (he : inst.opcode.Emits) :
    Allows (c.emitVertex inst) ((c.retarget t).emitVertex inst) := by
  refine .ite .error ?_
  generalize inst.opcode = op at he
  cases he <;> refine .same fun stream => ?_
  all_goals exact .ite (.bind (allows_require h) fun _ _ _ => .pure trivial) (.pure trivial)

theorem allows_synchronize : Allows (c.synchronize inst) ((c.retarget t).synchronize inst) := by
  unfold synchronize
  cases inst.controls
  case sync flags =>
    refine .ite (.bind (allows_require h) fun _ _ _ => .same fun global => ?_)
      (.ite (.bind (allows_require h) fun _ _ _ => .same fun global => ?_) (.same fun global => ?_))
    all_goals
      refine .ite (.bind (allows_require h) fun _ _ _ => .same fun shared => ?_)
        (.same fun shared => ?_)
      all_goals exact .ite (.ite .error (.pure trivial)) (.pure trivial)
  all_goals exact .error

theorem allows_lines {isLast : Bool} :
    Emit.Allows (c.lines inst isLast) ((c.retarget t).lines inst isLast) := by
  have jumpIf {j : Jump} : Allows (do return [Line.stmt (.jumpIf (← c.condition inst) j)])
      (do return [Line.stmt (.jumpIf (← (c.retarget t).condition inst) j)]) :=
    .bind (allows_condition h) fun _ _ _ => .pure trivial
  by_cases hd : inst.opcode.Directs
  case neg =>
    rw [lines_of_not_directs hd, lines_of_not_directs hd]
    exact allows_instruction h
  unfold lines
  generalize hop : inst.opcode = op at hd
  cases hd
  case nop | customData | hsControlPointPhase | hsForkPhase | hsJoinPhase | hsDecls | orElse | endIf
      | endLoop | beginLoop | breakOut | continueLoop | ret =>
    exact .pure trivial
  case beginIf => exact .bind (.lift (allows_condition h)) fun _ _ _ => .pure trivial
  case beginSwitch =>
    refine .bind (.lift (allows_require h)) fun _ _ _ => .same fun _ => ?_
    exact .bind (.lift (allows_source h)) fun _ _ _ => .bind .step fun _ _ _ => .pure trivial
  case caseLabel => exact .same fun _ => fun _ _ _ _ => ⟨_, rfl, trivial⟩
  case defaultLabel | endSwitch => exact fun _ _ _ _ => ⟨_, rfl, trivial⟩
  case breakIf | continueIf | retIf => exact .lift jumpIf
  case discard => exact .ite .throw (.lift jumpIf)
  case call => exact .same fun _ => .pure trivial
  case callIf => exact .same fun _ => .lift jumpIf
  case label | abort | debugBreak => exact .throw
  case emission he =>
    have hlines := allows_emitVertex h (hop ▸ he)
    cases he <;> exact .lift hlines
  case sync => exact .lift (allows_synchronize h)

theorem allows_step {isLast : Bool} :
    Emit.Allows (c.step inst isLast) ((c.retarget t).step inst isLast) :=
  .same fun _ => allows_lines h

theorem allows_range {count i depth : Nat} :
    Emit.Allows (c.range count i depth) ((c.retarget t).range count i depth) := by
  induction count generalizing i depth
  case zero => exact .pure trivial
  case succ count hi =>
    rw [range, range, program_retarget]
    cases c.program.instructions[i]?
    case none => exact .throw
    case some inst =>
      exact .bind (allows_step (h.atIndex i _)) fun _ _ _ => .bind hi fun _ _ _ => .pure trivial

theorem allows_body {start stop : Nat} :
    Emit.Allows (c.body start stop) ((c.retarget t).body start stop) :=
  allows_range h

theorem allows_subroutines {ss : List Subroutine} :
    Emit.Allows (c.subroutines ss) ((c.retarget t).subroutines ss) := by
  induction ss
  case nil => exact .pure trivial
  case cons s ss hi =>
    refine .bind (allows_body (h.inScope .subroutine)) fun _ _ _ => ?_
    exact .bind hi fun _ _ _ => .pure trivial

theorem allows_singleFunctions :
    Emit.Allows c.singleFunctions (c.retarget t).singleFunctions :=
  .bind (allows_subroutines h) fun _ _ _ => .bind (allows_body h) fun _ _ _ => .pure trivial

theorem allows_controlPointFunctions {phase : Option Phase} :
    Emit.Allows (c.controlPointFunctions phase) ((c.retarget t).controlPointFunctions phase) := by
  cases phase
  case none => exact .pure trivial
  case some phase => exact .bind (allows_body (h.inScope .controlPoint)) fun _ _ _ => .pure trivial

theorem allows_phaseFunctions {kind : String} {k : Nat} {phases : List Phase} :
    Emit.Allows (c.phaseFunctions kind k phases) ((c.retarget t).phaseFunctions kind k phases) := by
  induction phases generalizing k
  case nil => exact .pure trivial
  case cons phase phases hi =>
    exact .bind (allows_body h) fun _ _ _ => .bind hi fun _ _ _ => .pure trivial

theorem allows_patchFunctions {kind : String} {phases : List Phase} {after after' : List Line} :
    Emit.Allows (c.patchFunctions kind phases after)
      ((c.retarget t).patchFunctions kind phases after') :=
  .bind (allows_phaseFunctions h) fun _ _ _ => .pure trivial

theorem allows_phasedFunctions {phases : Phases} :
    Emit.Allows (c.phasedFunctions phases) ((c.retarget t).phasedFunctions phases) :=
  .bind (allows_controlPointFunctions h) fun _ _ _ =>
    .bind (allows_patchFunctions (h.inScope .fork)) fun _ _ _ =>
      .bind (allows_patchFunctions (h.inScope .join)) fun _ _ _ => .pure trivial

theorem allows_geometryLayout : Allows c.geometryLayout (c.retarget t).geometryLayout := by
  rw [geometryLayout, geometryLayout, program_retarget]
  cases c.program.stageInfo.gsInputPrimitive
  case none => exact .error
  case some primitive =>
    dsimp only
    cases primitive.layoutName?
    case' none => refine .bind h.dialect.allows_require fun _ _ _ => ?_
    all_goals
      refine .same fun input => ?_
      cases c.program.stageInfo.gsInstanceCount.filter (· > 1)
      case none => exact .pure trivial
      case some => exact .bind h.dialect.allows_require fun _ _ _ => .pure trivial

theorem allows_stageLayout : Allows c.stageLayout (c.retarget t).stageLayout := by
  rw [stageLayout, stageLayout, stage_retarget]
  cases c.stage
  case geometry => exact allows_geometryLayout h
  case pixel =>
    exact .ite (.bind h.dialect.allows_require fun _ _ _ => .pure trivial) (.pure trivial)
  all_goals exact .pure trivial

theorem allows_decls : Allows c.decls (c.retarget t).decls :=
  .bind (allows_stageLayout h) fun _ _ _ =>
    .bind (Options.allows_requireWords h.unchecked) fun _ _ _ =>
      .bind (h.resources.allows_decls h.dialect) fun _ _ _ => .same fun _ => .pure trivial

end Context

end ShaderLift
