import ShaderLift.Proofs.Effects.Steps
import ShaderLift.Proofs.Lift.References

/-!
Where a shader writes its outputs. Main writes them in front of each of its returns and at its end,
and in a geometry shader they are written in front of each vertex. Nothing else writes them.
-/

namespace ShaderLift

open Glsl

namespace Glsl.Event

-- Each `x` stands directly in front of a `y`, and each `y` directly behind an `x`.
inductive Paired (x y : Event) : List Event → Prop
  | nil : Paired x y []
  | skip {e es} (hx : e ≠ x) (hy : e ≠ y) (h : Paired x y es) : Paired x y (e :: es)
  | pair {es} (h : Paired x y es) : Paired x y (x :: y :: es)

namespace Paired

variable {x y : Event} {es es' : List Event}

theorem append (h : Paired x y es) (h' : Paired x y es') : Paired x y (es ++ es') := by
  induction h
  case nil => exact h'
  case skip hx hy _ hi => exact .skip hx hy hi
  case pair hi => exact .pair hi

theorem flatten {pieces : List (List Event)} (h : ∀ es ∈ pieces, Paired x y es) :
    Paired x y pieces.flatten := by
  induction pieces
  case nil => exact .nil
  case cons hi =>
    have ⟨hfirst, hrest⟩ := List.forall_mem_cons.mp h
    exact hfirst.append (hi hrest)

theorem of_forall {others : List Event} (h : ∀ e ∈ es, e ∈ others) (hx : x ∉ others)
    (hy : y ∉ others) : Paired x y es := by
  induction es
  case nil => exact .nil
  case cons e _ hi =>
    have ⟨he, hrest⟩ := List.forall_mem_cons.mp h
    exact .skip (ne_of_mem_of_not_mem he hx) (ne_of_mem_of_not_mem he hy) (hi hrest)

theorem of_others (h : ∀ e ∈ es, e = .other) (hx : x ≠ .other) (hy : y ≠ .other) :
    Paired x y es :=
  .of_forall (fun e he => List.mem_singleton.mpr (h e he)) (by simpa using hx) (by simpa using hy)

end Paired

end Glsl.Event

open Event
open Event.Paired (of_others)

namespace Glsl.Functions

-- Main ends by writing the outputs, and elsewhere writes them exactly where it returns. Subroutines
-- do not write them.
def FlushAtReturns : Functions → Prop
  | single _ _ main subroutines =>
    (∃ lines, main = ⟨"void main()", lines ++ [.stmt .flush]⟩ ∧
      Paired .flush .ret (events lines)) ∧
    ∀ f ∈ subroutines, .flush ∉ events f.body
  | phased .. => False

-- The outputs are written exactly where a vertex is emitted.
def FlushAtEmissions : Functions → Prop
  | single _ _ main subroutines =>
    ∀ f ∈ main :: subroutines, Paired .flush .emission (events f.body)
  | phased .. => False

end Glsl.Functions

namespace Context

variable {c : Context} {lines : List Line} {es : List Event} {s s' : Progress} {start stop : Nat}

-- Whichever function an instruction stands in, its place there does not matter.
theorem Performs.of_focus {i : Nat} {inst : Instruction} (h : (c.focus i inst).Performs es) :
    c.Performs es := by
  cases h
  case quiet h => exact .quiet h
  case ret h => exact .ret h
  case emission hs h => exact .emission hs h

theorem exists_performed_of_body (h : (c.body start stop).run s = .ok (lines, s')) :
    ∃ pieces : List (List Event), events lines = pieces.flatten ∧ ∀ es ∈ pieces, c.Performs es := by
  obtain ⟨piece, hl, hw⟩ := exists_pieces_of_range h
  refine ⟨(List.range' start (stop - start)).map fun i => events (piece i), ?_, ?_⟩
  case refine_1 => rw [hl, events, List.flatMap_assoc, ← List.flatMap_def]; rfl
  case refine_2 =>
    refine List.forall_mem_map.mpr fun i hi => ?_
    obtain ⟨hle, hlt⟩ := List.mem_range'_1.mp hi
    obtain ⟨inst, isLast, t, t', _, _, hr⟩ := hw i hle hlt
    exact .of_focus (acts_step.of_run hr).left.performs

theorem paired_of_body {x y : Event} (h : (c.body start stop).run s = .ok (lines, s'))
    (hstep : ∀ es, c.Performs es → Paired x y es) : Paired x y (events lines) := by
  have ⟨pieces, hp, hpieces⟩ := exists_performed_of_body h
  rw [hp]
  exact .flatten fun es he => hstep es (hpieces es he)

-- One instruction, by the kind of the function that it stands in.

theorem Performs.paired_ret (h : c.Performs es) (hscope : c.scope = .main)
    (hflush : c.flushesAtReturn) : Paired .flush .ret es := by
  cases h
  case quiet h => exact .of_forall h (by decide) (by decide)
  case ret h =>
    have hjump : c.returnJump.events = [.opens, .flush, .ret, .closes] := by
      simp [returnJump, hscope, hflush, Jump.events]
    rw [hjump]
    have hreturn : Paired .flush .ret [.opens, .flush, .ret, .closes] :=
      .skip (by decide) (by decide) (.pair (.skip (by decide) (by decide) .nil))
    exact (of_others h (by decide) (by decide)).append hreturn
  case emission hs h => simp [flushesAtReturn, hs] at hflush

theorem Performs.flush_not_mem (h : c.Performs es) (hscope : c.scope = .subroutine)
    (hflush : c.flushesAtReturn) : .flush ∉ es := by
  intro he
  cases h
  case quiet h => exact absurd (h _ he) (by decide)
  case ret h =>
    have hjump : c.returnJump.events = [.ret] := by simp [returnJump, hscope, Jump.events]
    rw [hjump] at he
    cases List.mem_append.mp he
    case inl he => exact absurd (h _ he) (by decide)
    case inr he => exact absurd he (by decide)
  case emission hs h => simp [flushesAtReturn, hs] at hflush

theorem Performs.paired_emission (h : c.Performs es) (hstage : c.stage = .geometry) :
    Paired .flush .emission es := by
  cases h
  case quiet h => exact .of_forall h (by decide) (by decide)
  case ret h =>
    have hjump : c.returnJump.events = [.ret] := by
      simp [returnJump, flushesAtReturn, hstage, Jump.events]
    rw [hjump]
    exact (of_others h (by decide) (by decide)).append (.skip (by decide) (by decide) .nil)
  case emission h => exact .pair (of_others h (by decide) (by decide))

-- The lines in front of a body.
theorem calls_prologue (hi : c.interface.Moves) : ∀ line ∈ c.prologue, line.Calls .least := by
  refine List.forall_mem_append.mpr ⟨hi.load.calls, ?_⟩
  unfold Resources.immediatesInit
  split
  case isTrue => exact List.forall_mem_nil _
  case isFalse =>
    have row {words : List UInt32} : (Resources.floatRow c.dialect words).Calls .least := by
      have hvec : Common "vec4" := by decide
      refine Expr.calls_call.mpr ⟨hvec, List.forall_mem_map.mpr fun word _ => ?_⟩
      split <;> exact calls_literal
    exact List.forall_mem_map.mpr fun (_, _) _ => Line.calls_stmt.mpr ⟨by simp, row⟩

theorem quiet_prologue (hi : c.interface.Moves) : ∀ line ∈ c.prologue, line.Quiet :=
  fun line hl => (calls_prologue hi line hl).quiet Vocabulary.quiet_least

theorem events_of_prologue (hi : c.interface.Moves) :
    ∀ e ∈ events c.prologue, e ∈ [.opens, .closes, .other] :=
  List.forall_mem_flatMap.mpr fun line hl => (quiet_prologue hi line hl).events

-- Whole functions.

variable {fs : Functions}

theorem flushes_of_singleFunctions (hi : c.interface.Moves) (hscope : c.scope = .main)
    (hflush : c.flushesAtReturn) (h : c.singleFunctions.run s = .ok (fs, s')) :
    fs.FlushAtReturns := by
  obtain ⟨body, subs, t, t', rfl, hbody, hsubs⟩ := exists_of_singleFunctions h
  refine ⟨⟨c.prologue ++ body, by simp [epilogue, hflush], ?main⟩, ?subs⟩
  case main =>
    rw [events_append]
    refine .append (.of_forall (events_of_prologue hi) (by decide) (by decide)) ?_
    exact paired_of_body hbody fun es he => he.paired_ret hscope hflush
  case subs =>
    refine forall_mem_of_forall₂ hsubs fun sub f hf he => ?_
    have ⟨_, _, hf⟩ := hf.body
    have ⟨pieces, hp, hpieces⟩ := exists_performed_of_body hf
    have ⟨es, hes, he⟩ := List.mem_flatten.mp (hp ▸ he)
    exact (hpieces es hes).flush_not_mem rfl hflush he

theorem flushes_of_geometryFunctions (hi : c.interface.Moves) (hstage : c.stage = .geometry)
    (h : c.singleFunctions.run s = .ok (fs, s')) : fs.FlushAtEmissions := by
  obtain ⟨body, subs, t, t', rfl, hbody, hsubs⟩ := exists_of_singleFunctions h
  refine List.forall_mem_cons.mpr ⟨?main, ?subs⟩
  case main =>
    have hend : c.epilogue = [] := by simp [epilogue, flushesAtReturn, hstage]
    rw [hend, List.append_nil, events_append]
    refine .append (.of_forall (events_of_prologue hi) (by decide) (by decide)) ?_
    exact paired_of_body hbody fun es he => he.paired_emission hstage
  case subs =>
    refine forall_mem_of_forall₂ hsubs fun sub f hf => ?_
    have ⟨_, _, hf⟩ := hf.body
    exact paired_of_body hf fun es he => he.paired_emission hstage

end Context

theorem Program.lift_flushes_outputs {p : Program} {o : Options} {s : Shader}
    (h : p.lift o = .ok s) :
    (p.stage ∈ [.vertex, .pixel, .domain] → s.source.functions.FlushAtReturns) ∧
      (p.stage = .geometry → s.source.functions.FlushAtEmissions) := by
  obtain ⟨c, phases, l, hscope, _⟩ := exists_lifted_main h
  obtain ⟨progress, hrun, _⟩ := l.written
  have hi := Interface.moves_of_build l.interface
  have hstage : c.stage = p.stage := by rw [Context.stage, l.program]
  have single (hs : p.stage ≠ .hull) :
      c.singleFunctions.run {} = .ok (s.source.functions, progress) := by
    have hnone : phases = none := by simpa using l.hull.not.mpr hs
    rwa [hnone] at hrun
  constructor
  case left =>
    intro hs
    have hhull : p.stage ≠ .hull := ne_of_mem_of_not_mem hs (by decide)
    refine Context.flushes_of_singleFunctions hi hscope ?_ (single hhull)
    simp only [List.mem_cons, List.not_mem_nil, or_false] at hs
    rcases hs with hs | hs | hs <;> simp [Context.flushesAtReturn, hstage, hs]
  case right =>
    intro hs
    exact Context.flushes_of_geometryFunctions hi (hstage.trans hs) (single (by simp [hs]))

-- Returns inside and outside of a block, and in a subroutine.
def leavesEarly : Program where
  instructions :=
    [(.beginIf, [0]), (.ret, []), (.endIf, []), (.retIf, [0]), (.call, [1]), (.ret, []),
      (.label, [1]), (.retIf, [0]), (.ret, [])].map fun (op, operands) =>
        { opcode := op, controls := .conditional .nonZero, operands, position := 0 }
  operands :=
    #[{ register := .temp, selection := .select 0, indices := [.imm 0] },
      { register := .label, components := .zero, indices := [.imm 7] }]

def emitsInLoop : Program where
  stage := .geometry
  stageInfo :=
    { gsInputPrimitive := some .triangle
      gsOutputTopology := some .triangleStrip
      gsMaxOutputVertices := some 3 }
  instructions :=
    [.beginLoop, .emit, .breakOut, .endLoop, .emitThenCut, .ret].map fun op =>
      { opcode := op, controls := .flow, operands := [], position := 0 }

theorem Program.lift_flushes_outputs_leavesEarly :
    (∃ s, leavesEarly.lift {} = .ok s ∧ s.source.functions.FlushAtReturns) ∧
      ∃ s, emitsInLoop.lift {} = .ok s ∧ s.source.functions.FlushAtEmissions := by
  obtain ⟨s, hs⟩ : ∃ s, leavesEarly.lift {} = .ok s := by decide +kernel
  obtain ⟨t, ht⟩ : ∃ t, emitsInLoop.lift {} = .ok t := by decide +kernel
  exact ⟨⟨s, hs, (lift_flushes_outputs hs).left (by decide)⟩, t, ht,
    (lift_flushes_outputs ht).right rfl⟩

end ShaderLift
