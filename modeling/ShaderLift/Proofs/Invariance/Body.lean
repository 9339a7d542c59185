import ShaderLift.Lift.Shader
import ShaderLift.Proofs.Invariance.Texture
import ShaderLift.Proofs.Lift.Routine

/-!
The lines of an instruction do not depend on declarations and places, but for two of them: a `ret`
is left out at the end of its function, and the end of a switch looks at the instruction before it.
So where the same instructions follow each other they make the same lines.
-/

namespace ShaderLift

open Glsl

def Opcode.labelsCase : Opcode → Bool
  | caseLabel | defaultLabel => true
  | _ => false

-- Whether the instruction in front of a position starts a part of a switch.
def caseBefore (insts : List Instruction) : Nat → Bool
  | 0 => false
  | i + 1 => insts[i]?.any (·.opcode.labelsCase)

-- The same instruction stands at both places, and if it ends a switch then both switches have
-- something in their last part, or both have not.
structure Alike (insts insts' : List Instruction) (i j : Nat) : Prop where
  same : insts'[j]? = insts[i]?
  ends : ∀ inst, insts[i]? = some inst → inst.opcode = .endSwitch →
    caseBefore insts i = caseBefore insts' j

namespace Context

variable {strict : Prop} {c : Context} {m : Move} {inst : Instruction} {count i j depth : Nat}

-- Other instructions than `ret` may stand anywhere.
theorem lines_of_ne_ret {isLast isLast' : Bool} (hop : inst.opcode ≠ .ret) :
    c.lines inst isLast = c.lines inst isLast' := by
  by_cases hd : inst.opcode.Directs
  case neg => rw [lines_of_not_directs hd, lines_of_not_directs hd]
  unfold lines
  generalize inst.opcode = op at hd hop
  cases hd
  case ret => exact absurd rfl hop
  case emission he => cases he <;> rfl
  all_goals rfl

theorem endSwitch_eq : c.endSwitch = (do
    let cases := (← get).openCases
    modify fun s => { s with openCases := cases.drop 1 }
    let filler :=
      if caseBefore c.program.instructions c.index then [Line.stmt (.jump .breakOut)] else []
    return filler ++ (if cases.headD false then [.endCase] else []) ++ [.leave]) := by
  refine bind_congr fun s => bind_congr fun _ => congrArg (fun filler => pure (filler ++ _ ++ _)) ?_
  cases c.index
  case zero => rfl
  case succ i =>
    change _ = if c.program.instructions[i]?.any (·.opcode.labelsCase) then _ else _
    simp only [if_neg (Nat.succ_ne_zero i), Nat.add_sub_cancel]
    rcases c.program.instructions[i]? with _ | ⟨op, _, _, _⟩
    case none => rfl
    case some => cases op <;> rfl

theorem agrees_endSwitch
    (h : caseBefore c.program.instructions c.index = caseBefore m.instructions m.index) :
    Emit.Agrees strict c.endSwitch (c.move m).endSwitch := by
  rw [endSwitch_eq, endSwitch_eq, h]
  exact .refl _

section Keeping

variable (h : m.Keeps strict c)

include h

theorem agrees_instruction :
    Emit.Agrees strict (c.instruction inst) ((c.move m).instruction inst) := by
  rw [instruction_eq_perform, instruction_eq_perform]
  cases inst.opcode.routine
  case sample => exact agrees_sample h
  case loadTexel => exact .lift (agrees_loadTexel h)
  case queryLod => exact .lift (agrees_queryLod h)
  case sizeInfo => exact .lift (agrees_sizeInfo h)
  case bufferInfo => exact .lift (agrees_bufferInfo h)
  case loadBuffer => exact .lift (agrees_loadBuffer h)
  case storeBuffer => exact .lift (agrees_storeBuffer h)
  case loadImage => exact .lift (agrees_loadImage h)
  case storeImage => exact .lift (agrees_storeImage h)
  case counter => exact .lift (agrees_counter h)
  case atomic => exact .lift (agrees_atomic h)
  case mov => exact .lift (agrees_mov h)
  case movc => exact .lift (agrees_movc h)
  case swapc => exact agrees_swapc h
  case dot => exact .lift (agrees_dot h)
  case evaluate => exact .lift (agrees_evaluate h)
  case doubleResult => exact .lift (agrees_doubleResult h)
  case twoResults => exact agrees_twoResults h
  case compare => exact .lift (agrees_compare h)
  case perLane => exact .lift (agrees_perLane h)
  case fromDouble => exact .lift (agrees_fromDouble h)
  case elementwise => exact agrees_elementwise h
  case unsupported => exact .throw h.unsupported

theorem agrees_condition : Agrees strict (c.condition inst) ((c.move m).condition inst) :=
  .same fun _ => .bind (agrees_source h) fun _ => .refl _

theorem agrees_caseLabel : Agrees strict (c.caseLabel inst) ((c.move m).caseLabel inst) := by
  refine .same fun _ => .same fun op => ?_
  cases op.immediate
  case none => exact .error h.unsupported
  case some immediate =>
    cases immediate
    case words => exact .refl _
    case longs => exact .error h.unsupported

theorem agrees_callee : Agrees strict (c.callee inst i) ((c.move m).callee inst i) := by
  refine .ite (.error h.unsupported) (.same fun _ => .same fun _ => ?_)
  refine .bind (agrees_orUnresolved h) fun label => ?_
  have hlabel : (c.flow.subroutine? label).isNone = ((c.move m).flow.subroutine? label).isNone :=
    h.label label
  rw [hlabel]
  exact .ite (.error h.unresolved) (.refl _)

theorem agrees_emitVertex (he : inst.opcode.Emits) :
    Agrees strict (c.emitVertex inst) ((c.move m).emitVertex inst) := by
  refine .ite (.error h.unsupported) ?_
  generalize inst.opcode = op at he
  cases he <;> refine .same fun stream => ?_
  all_goals exact .ite (.bind (agrees_require h) fun _ => .refl _) (.refl _)

theorem agrees_synchronize : Agrees strict (c.synchronize inst) ((c.move m).synchronize inst) := by
  unfold synchronize
  cases inst.controls
  case sync flags =>
    refine .ite (.bind (agrees_require h) fun _ => .same fun global => ?_)
      (.ite (.bind (agrees_require h) fun _ => .same fun global => ?_) (.same fun global => ?_))
    all_goals
      refine .ite (.bind (agrees_require h) fun _ => .same fun shared => ?_)
        (.same fun shared => ?_)
      all_goals exact .ite (.ite (.error h.unsupported) (.refl _)) (.refl _)
  all_goals exact .error h.unsupported

theorem agrees_lines {isLast : Bool}
    (hend : inst.opcode = .endSwitch →
      caseBefore c.program.instructions c.index = caseBefore m.instructions m.index) :
    Emit.Agrees strict (c.lines inst isLast) ((c.move m).lines inst isLast) := by
  have jumpIf {j : Jump} : Agrees strict (do return [Line.stmt (.jumpIf (← c.condition inst) j)])
      (do return [Line.stmt (.jumpIf (← (c.move m).condition inst) j)]) :=
    .bind (agrees_condition h) fun _ => .refl _
  by_cases hd : inst.opcode.Directs
  case neg =>
    rw [lines_of_not_directs hd, lines_of_not_directs hd]
    exact agrees_instruction h
  unfold lines
  generalize hop : inst.opcode = op at hd
  cases hd
  case nop | customData | hsControlPointPhase | hsForkPhase | hsJoinPhase | hsDecls | orElse | endIf
      | endLoop | beginLoop | breakOut | continueLoop | ret | defaultLabel =>
    exact .refl _
  case beginIf => exact .bind (.lift (agrees_condition h)) fun _ => .refl _
  case beginSwitch =>
    refine .bind (.lift (agrees_require h)) fun _ => .same fun _ => ?_
    exact .bind (.lift (agrees_source h)) fun _ => .refl _
  case caseLabel => exact .bind (.lift (agrees_caseLabel h)) fun _ => .refl _
  case endSwitch => exact agrees_endSwitch (hend hop)
  case breakIf | continueIf | retIf => exact .lift jumpIf
  case discard => exact .ite (.throw h.unsupported) (.lift jumpIf)
  case call => exact .bind (.lift (agrees_callee h)) fun _ => .refl _
  case callIf => exact .bind (.lift (agrees_callee h)) fun _ => .lift jumpIf
  case label | abort | debugBreak => exact .throw h.unsupported
  case emission he =>
    have hlines := agrees_emitVertex h (hop ▸ he)
    cases he <;> exact .lift hlines
  case sync => exact .lift (agrees_synchronize h)

theorem agrees_step {isLast isLast' : Bool} (hret : inst.opcode = .ret → isLast = isLast')
    (hend : inst.opcode = .endSwitch →
      caseBefore c.program.instructions c.index = caseBefore m.instructions m.index) :
    Emit.Agrees strict (c.step inst isLast) ((c.move m).step inst isLast') := by
  have hlast : c.lines inst isLast = c.lines inst isLast' := by
    by_cases hop : inst.opcode = .ret
    case pos => rw [hret hop]
    case neg => exact lines_of_ne_ret hop
  unfold step
  rw [hlast]
  exact .same fun _ => agrees_lines h hend

end Keeping

section Ranges

variable (hlabel : ∀ label, (c.flow.subroutine? label).isNone = (m.flow.subroutine? label).isNone)

include hlabel

theorem agrees_range_succ {count' : Nat} (hplace : strict → i = j)
    (hi : c.program.instructions[i]? = some inst)
    (h : Alike c.program.instructions m.instructions i j)
    (hret : inst.opcode = .ret → (depth = 0 ∧ count = 0 ↔ depth = 0 ∧ count' = 0))
    (hrest : Emit.Agrees strict (c.range count (i + 1) (depthAfter depth inst.opcode))
      ((c.move m).range count' (j + 1) (depthAfter depth inst.opcode))) :
    Emit.Agrees strict (c.range (count + 1) i depth) ((c.move m).range (count' + 1) j depth) := by
  let c' : Context := { c with index := i, saturate := inst.controls.saturate }
  let m' : Move := { m with index := j }
  have hopcode : c'.opcode = (c'.move m').opcode :=
    congrArg (fun inst => (inst.map Instruction.opcode).getD .nop) h.same.symm
  have hkeeps : m'.Keeps strict c' := ⟨hplace, fun _ => hopcode, hlabel⟩
  have hstep : Emit.Agrees strict (c'.step inst (depth = 0 ∧ count = 0))
      ((c'.move m').step inst (depth = 0 ∧ count' = 0)) :=
    agrees_step hkeeps (fun hop => decide_eq_decide.mpr (hret hop)) (h.ends inst hi)
  have hj : (c.move m).program.instructions[j]? = some inst := h.same.trans hi
  simp only [range, hi, hj]
  exact .bind hstep fun _ => .bind hrest fun _ => .refl _

theorem agrees_range (hplace : strict → i = j)
    (h : ∀ n < count, Alike c.program.instructions m.instructions (i + n) (j + n)) :
    Emit.Agrees strict (c.range count i depth) ((c.move m).range count j depth) := by
  induction count generalizing i j depth
  case zero => exact .refl _
  case succ count hi =>
    have hfirst := h 0 (Nat.succ_pos _)
    cases hinst : c.program.instructions[i]?
    case none =>
      have hj : (c.move m).program.instructions[j]? = none := hfirst.same.trans hinst
      simp only [range, hinst, hj]
      exact .refl _
    case some inst =>
      refine agrees_range_succ hlabel hplace hinst hfirst (fun _ => .rfl) ?_
      refine hi (fun hs => congrArg _ (hplace hs)) fun n hn => ?_
      have := h (n + 1) (Nat.succ_lt_succ hn)
      rwa [← Nat.add_assoc, ← Nat.add_assoc, Nat.add_right_comm, Nat.add_right_comm j] at this

end Ranges

end Context

-- The shader of a program without phases, from all that has been collected about it.
def Context.shader (c : Context) : Except LiftError Shader := do
  let (functions, progress) ← c.singleFunctions.run {}
  let decls ← c.decls
  return {
    stage := c.stage
    version := c.dialect.version
    source := ⟨c.preamble progress.extensions, decls, functions⟩
    bindings :=
      { HostBindings.ofDecls decls with
        attributes := c.interface.attributes
        fragOutputs := c.interface.fragOutputs } }

theorem Program.lift_eq {p : Program} {o : Options} (h : p.stage ≠ .hull) : p.lift o = (do
    p.stage.requireIn o.dialect
    let flow ← p.requireFlow
    let (interface, sizes) ← Interface.build o.dialect o p none
    o.requireWords (Resources.numbers o.dialect p)
    let resources ← Resources.collect o.dialect p
    let temps ← p.temps o o.dialect resources
    Context.shader
      { program := p, dialect := o.dialect, options := o, flow, interface, sizes, resources,
        temps }) := by
  unfold lift
  simp only [if_neg h]
  rfl

end ShaderLift
