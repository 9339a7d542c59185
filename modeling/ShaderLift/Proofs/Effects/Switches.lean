import ShaderLift.Container.Program
import ShaderLift.Proofs.Lift.Assembly

/-!
Parts of a `switch` that are left empty. The last part is given a `break` where its label stands
directly in front of the `endswitch`, so it is empty exactly if there are instructions between the
two and none of them leaves anything in the text.
-/

namespace ShaderLift

open Glsl

namespace Opcode

theorem labelsCase_iff {op : Opcode} : op.labelsCase ↔ op.role = .divider .choice := by
  have h : ∀ op ∈ all, op.labelsCase ↔ op.role = .divider .choice := by decide +kernel
  exact h op op.mem_all

theorem role_eq_closer_choice_iff {op : Opcode} : op.role = .closer .choice ↔ op = endSwitch := by
  have h : ∀ op ∈ all, op.role = .closer .choice ↔ op = endSwitch := by decide +kernel
  exact h op op.mem_all

end Opcode

theorem caseBefore_succ_iff {insts : List Instruction} {i : Nat} :
    caseBefore insts (i + 1) ↔ Flow.roleAt insts i = some (.divider .choice) := by
  simp [caseBefore, Flow.roleAt, Option.any_eq_true, Opcode.labelsCase_iff]

namespace Context

variable {c : Context} {inst : Instruction} {isLast : Bool} {lines : List Line} {ms : List Mark}

theorem filler_eq_nil_iff : c.filler inst = [] ↔
    (inst.opcode = .endSwitch → caseBefore c.program.instructions c.index = false) := by
  unfold filler
  split <;> simp_all

theorem Omits.not_isStructural (h : c.Omits inst isLast) :
    inst.opcode.role.isStructural = false := by
  rcases h with hs | ⟨hop, _⟩
  case inl =>
    refine Bool.eq_false_iff.mpr fun hrole => ?_
    simp [Program.isSilent_of_structural hrole] at hs
  case inr => rw [hop]; rfl

-- What the first and the last line of an instruction look like.
structure Marked (c : Context) (inst : Instruction) (isLast : Bool) (ms : List Mark) : Prop where
  filled      : Mark.Filled ms
  nil_iff     : ms = [] ↔ c.Omits inst isLast
  label_iff   : ms.getLast? = some .label ↔ inst.opcode.role = .divider .choice
  closing_iff : ms.head? = some .closing ↔
    (∃ kind, inst.opcode.role = .closer kind) ∧ c.filler inst = []

-- Structural instructions are always shown.
theorem marked_of_structural (hrole : inst.opcode.role.isStructural) (hne : ms ≠ [])
    (hf : Mark.Filled ms)
    (hl : ms.getLast? = some .label ↔ inst.opcode.role = .divider .choice)
    (hc : ms.head? = some .closing ↔
      (∃ kind, inst.opcode.role = .closer kind) ∧ c.filler inst = []) :
    c.Marked inst isLast ms where
  filled := hf
  nil_iff := iff_of_false hne fun ho => by simp [ho.not_isStructural] at hrole
  label_iff := hl
  closing_iff := hc

-- Others show no label, and start with no end of a block.
theorem marked_of_plain (hrole : inst.opcode.role.isStructural = false)
    (hnil : ms = [] ↔ c.Omits inst isLast) (hl : .label ∉ ms) (hc : ms.head? ≠ some .closing) :
    c.Marked inst isLast ms where
  filled := .of_not_mem hl
  nil_iff := hnil
  label_iff := by
    refine iff_of_false (fun h => hl (List.mem_of_getLast? h)) fun h => ?_
    simp [h, Flow.Role.isStructural] at hrole
  closing_iff := by
    refine iff_of_false hc ?_
    rintro ⟨⟨kind, h⟩, _⟩
    simp [h, Flow.Role.isStructural] at hrole

theorem marks_stmts {ss : List Stmt} : marks (ss.map .stmt) = ss.map fun _ => .plain := by
  simp [marks, List.filterMap_map, Line.stmt, Line.mark?, Function.comp_def]

theorem marks_of_ends {before : List Line} (h : ∀ line ∈ before, line = .endCase) :
    marks before = [] :=
  List.filterMap_eq_nil_iff.mpr fun line hl => h line hl ▸ rfl

theorem Acts.marked (h : c.Acts inst isLast lines) : c.Marked inst isLast (marks lines) := by
  cases h
  case nothing ho =>
    refine marked_of_plain ho.not_isStructural (iff_of_true rfl ho) List.not_mem_nil ?_
    exact (Option.some_ne_none _).symm
  case opener hrole _ =>
    refine marked_of_structural (by rw [hrole]; rfl) (List.cons_ne_nil _ _) (.singleton _) ?_ ?_
    all_goals simp [marks, Line.mark?, hrole]
  case otherwise hrole =>
    refine marked_of_structural (by rw [hrole]; rfl) (List.cons_ne_nil _ _) (.singleton _) ?_ ?_
    all_goals simp [marks, Line.mark?, hrole]
  case label label before hrole _ ends =>
    rw [marks_append, marks_of_ends ends, List.nil_append]
    refine marked_of_structural (by rw [hrole]; rfl) (List.cons_ne_nil _ _) (.singleton _) ?_ ?_
    all_goals simp [marks, Line.mark?, hrole]
  case closer kind before hrole ends =>
    rw [marks_append, marks_append, marks_of_ends ends, List.append_nil]
    rcases c.filler_eq_or inst with hfiller | hfiller
    all_goals
      rw [hfiller]
      refine marked_of_structural (by rw [hrole]; rfl) (List.cons_ne_nil _ _)
        (.of_not_mem (by decide)) ?_ ?_
      all_goals simp [marks, Line.mark?, Line.stmt, hrole, hfiller]
  case flat ss hrole homits hne _ =>
    rw [marks_stmts]
    refine marked_of_plain hrole (iff_of_false (by simpa using hne) homits) (by simp) ?_
    cases ss <;> simp
  case block ss hrole homits hne _ =>
    have hmarks : marks (Glsl.block .bare (ss.map .stmt)) =
        .plain :: (ss.map fun _ => .plain) ++ [.closing] := by
      rw [← marks_stmts]
      simp [Glsl.block, marks, Line.mark?]
    rw [hmarks]
    exact marked_of_plain hrole (iff_of_false (List.cons_ne_nil _ _) homits) (by simp) (by simp)

end Context

namespace Program

variable {p : Program} {r : Flow.Span} {flow : Flow} {i j k : Nat}

-- Instruction `k` leaves nothing in the text.
def SilentAt (p : Program) (k : Nat) : Prop :=
  ∃ inst, p.instructions[k]? = some inst ∧ p.isSilent inst

-- Behind the label at `i` nothing is shown until `j` ends a block. An `endswitch` directly behind
-- the label is left out: a `break` stands there.
structure IdlePart (p : Program) (r : Flow.Span) (i j : Nat) : Prop where
  starts : i ∈ r
  stops  : j ∈ r
  lt     : i < j
  label  : Flow.roleAt p.instructions i = some (.divider .choice)
  silent : ∀ k, i < k → k < j → p.SilentAt k
  closer : ∃ kind, Flow.roleAt p.instructions j = some (.closer kind) ∧ (kind = .choice → i + 1 < j)

-- No part of a `switch` in a span is idle.
def Fills (p : Program) (r : Flow.Span) : Prop :=
  ∀ i j, ¬p.IdlePart r i j

theorem SilentAt.roleAt (h : p.SilentAt k) :
    ∃ role, Flow.roleAt p.instructions k = some role ∧ role.isStructural = false := by
  obtain ⟨inst, hk, hs⟩ := h
  refine ⟨_, Flow.roleAt_eq_of_getElem? hk, Bool.eq_false_iff.mpr fun hrole => ?_⟩
  simp [isSilent_of_structural hrole] at hs

theorem SilentAt.caseBefore_succ (h : p.SilentAt k) :
    caseBefore p.instructions (k + 1) = false := by
  refine Bool.eq_false_iff.mpr fun hbefore => ?_
  obtain ⟨role, hrole, hs⟩ := h.roleAt
  cases Option.some.inj (hrole.symm.trans (caseBefore_succ_iff.mp hbefore))
  cases hs

theorem IdlePart.depthAt (h : p.IdlePart r i j) (hk : i < k) (hkj : k ≤ j) :
    Flow.depthAt p.instructions k = Flow.depthAt p.instructions i := by
  induction k, hk using Nat.le_induction
  case base => simp [Flow.depthAt_succ h.label, Flow.Role.shift]
  case succ k hk hi =>
    obtain ⟨role, hrole, hs⟩ := (h.silent k hk hkj).roleAt
    have hshift : role.shift = 0 := by
      cases role <;> simp_all [Flow.Role.isStructural, Flow.Role.shift]
    rw [Flow.depthAt_succ hrole, hi (by omega), hshift, add_zero]

-- Such a part is the last one of its `switch`, and not empty in the program.
theorem IdlePart.linked (h : p.IdlePart r i j)
    (hf : Flow.ofInstructions p.instructions p.operands = .ok flow) :
    flow.link? i = some j ∧ Flow.roleAt p.instructions j = some (.closer .choice) ∧ i + 1 < j := by
  have silent {k : Nat} {role : Flow.Role} (hk : i < k) (hkj : k < j) (hrole : role.isStructural) :
      Flow.roleAt p.instructions k ≠ some role := by
    intro hr
    obtain ⟨role', hr', hs⟩ := (h.silent k hk hkj).roleAt
    cases Option.some.inj (hr.symm.trans hr')
    simp [hs] at hrole
  obtain ⟨o, e, l, hi⟩ := Flow.linked_of_divider hf h.label
  obtain ⟨hie, hdivides⟩ := Flow.mem_dividers.mp hi
  obtain ⟨hoi, hdepth, _⟩ := Flow.dividesAt_iff.mp hdivides
  obtain ⟨kind, hcloser, hfilled⟩ := h.closer
  -- Behind `j` the depth is that in front of the `switch`, so `j` is not inside of it.
  have hje : j = e := by
    have hafter : Flow.depthAt p.instructions (j + 1) = Flow.depthAt p.instructions o := by
      rw [Flow.depthAt_succ hcloser, h.depthAt h.lt (le_refl j), hdepth]
      simp [Flow.Role.shift]
    have hoj := hoi.trans h.lt
    by_contra hne
    rcases Nat.lt_or_gt_of_ne hne with hlt | hlt
    case inl => exact absurd hafter (ne_of_gt (l.depth_lt (Nat.lt_succ_of_lt hoj) hlt))
    case inr => exact silent hie hlt rfl l.block.closes
  subst hje
  obtain rfl : kind = .choice := by
    cases Option.some.inj (hcloser.symm.trans l.block.closes)
    rfl
  refine ⟨?_, hcloser, hfilled rfl⟩
  obtain ⟨b, hb, hlt, hlink⟩ := l.exists_next (List.mem_cons_of_mem o hi)
  simp only [List.mem_cons, List.mem_append, List.not_mem_nil, or_false] at hb
  rcases hb with rfl | hb | rfl
  case inl => omega
  case inr.inl => exact absurd (l.kinds b hb) (silent hlt (Flow.mem_dividers.mp hb).left rfl)
  case inr.inr => exact hlink

end Program

namespace Context

variable {c : Context} {lines : List Line} {ms : List Mark} {s s' : Progress}
variable {first stop i j k : Nat}

-- What the lines of instruction `k` look like, in a function that ends in front of `stop`.
structure MarkedAt (c : Context) (stop k : Nat) (ms : List Mark) : Prop where
  filled      : Mark.Filled ms
  nil_iff     : k + 1 < stop → (ms = [] ↔ c.program.SilentAt k)
  label_iff   : ms.getLast? = some .label ↔
    Flow.roleAt c.program.instructions k = some (.divider .choice)
  closing_iff : ms.head? = some .closing ↔
    ∃ kind, Flow.roleAt c.program.instructions k = some (.closer kind) ∧
      (kind = .choice → caseBefore c.program.instructions k = false)

theorem WritesBefore.markedAt (h : c.WritesBefore stop k lines) :
    c.MarkedAt stop k (marks lines) := by
  obtain ⟨inst, isLast, _, _, hk, hlast, hr⟩ := h
  have hmarked := (acts_step.of_run hr).left.marked
  have hrole := Flow.roleAt_eq_of_getElem? hk
  refine ⟨hmarked.filled, fun hlt => hmarked.nil_iff.trans ⟨?silent, ?omits⟩,
    by rw [hmarked.label_iff, hrole, Option.some.injEq], hmarked.closing_iff.trans ⟨?mp, ?mpr⟩⟩
  case silent =>
    rintro (hs | ⟨_, hl⟩)
    case inl => exact ⟨inst, hk, hs⟩
    case inr => exact absurd (hlast hl) (Nat.ne_of_lt hlt)
  case omits =>
    rintro ⟨inst', hk', hs⟩
    cases Option.some.inj (hk.symm.trans hk')
    exact .inl hs
  all_goals rw [filler_eq_nil_iff, hrole]
  case mp =>
    rintro ⟨⟨kind, hkind⟩, hbefore⟩
    refine ⟨kind, congrArg some hkind, fun hchoice => hbefore ?_⟩
    exact Opcode.role_eq_closer_choice_iff.mp (hchoice ▸ hkind)
  case mpr =>
    rintro ⟨kind, hkind, hbefore⟩
    have hkind := Option.some.inj hkind
    refine ⟨⟨kind, hkind⟩, fun hop => hbefore ?_⟩
    exact Flow.Role.closer.inj (hkind.symm.trans (Opcode.role_eq_closer_choice_iff.mpr hop))

theorem filled_iff_of_body (h : (c.body first stop).run s = .ok (lines, s')) :
    Mark.Filled (marks lines) ↔ c.program.Fills ⟨first, stop⟩ := by
  obtain ⟨piece, rfl, hw⟩ := exists_pieces_of_range h
  have hmarked {k : Nat} (hk : first ≤ k) (hlt : k < stop) :
      c.MarkedAt stop k (marks (piece k)) := by
    have hstop : first + (stop - first) = stop := by omega
    have hw := hw k hk (by omega)
    rw [hstop] at hw
    exact hw.markedAt
  have hmarks : marks ((List.range' first (stop - first)).flatMap piece) =
      (List.range' first (stop - first)).flatMap fun k => marks (piece k) :=
    List.filterMap_flatMap
  rw [hmarks, Mark.filled_pieces fun k hk hlt => (hmarked hk (by omega)).filled]
  refine forall_congr' fun i => forall_congr' fun j => ⟨?mp, ?mpr⟩
  case mp =>
    intro hfilled hidle
    obtain ⟨hi, _⟩ : first ≤ i ∧ i < stop := hidle.starts
    obtain ⟨_, hj⟩ : first ≤ j ∧ j < stop := hidle.stops
    have hij := hidle.lt
    obtain ⟨kind, hcloser, hfar⟩ := hidle.closer
    refine hfilled hi hij (by omega) (fun k hk hkj => ?silent) ⟨?label, ?closing⟩
    case silent =>
      exact ((hmarked (by omega) (by omega)).nil_iff (by omega)).mpr (hidle.silent k hk hkj)
    case label => exact (hmarked hi (by omega)).label_iff.mpr hidle.label
    case closing =>
      refine (hmarked (by omega) hj).closing_iff.mpr ⟨kind, hcloser, fun hkind => ?_⟩
      have hfar := hfar hkind
      obtain ⟨k, rfl⟩ : ∃ k, j = k + 1 := ⟨j - 1, by omega⟩
      exact (hidle.silent k (by omega) (by omega)).caseBefore_succ
  case mpr =>
    intro hidle hi hij hj hnil ⟨hlabel, hclosing⟩
    have hlabel := (hmarked hi (by omega)).label_iff.mp hlabel
    obtain ⟨kind, hcloser, hbefore⟩ := (hmarked (by omega) (by omega)).closing_iff.mp hclosing
    refine hidle ⟨⟨hi, ?_⟩, ⟨?_, ?_⟩, hij, hlabel, fun k hk hkj => ?silent, kind, hcloser, ?far⟩
    case silent => exact ((hmarked (by omega) (by omega)).nil_iff (by omega)).mp (hnil k hk hkj)
    case far =>
      intro hkind
      refine Nat.lt_of_le_of_ne hij fun hnext => ?_
      subst hnext
      simp [caseBefore_succ_iff.mpr hlabel] at hbefore
      exact hbefore hkind
    all_goals simp only; omega

theorem Assembled.partsFilled_iff {fs : List Function} {rs : List Flow.Span}
    (h : c.Assembled s s' fs rs) :
    (∀ f ∈ fs, f.PartsFilled) ↔ ∀ r ∈ rs, c.program.Fills r := by
  induction h
  case nil => exact iff_of_true (List.forall_mem_nil _) (List.forall_mem_nil _)
  case framing f _ _ hf _ hi =>
    have hfilled : f.PartsFilled := f.partsFilled_iff.mpr (.of_not_mem hf.not_mem_marks)
    rw [List.forall_mem_cons, hi]
    exact and_iff_right hfilled
  case body scope _ _ _ _ _ _ _ hsplit hfront hback hends hrun _ hi =>
    rw [List.forall_mem_cons, List.forall_mem_cons, hi, Function.partsFilled_iff, hsplit,
      marks_append, marks_append, List.append_assoc,
      Mark.filled_append_of_not_mem hfront.not_mem_marks, Mark.filled_append,
      filled_iff_of_body (c := { c with scope }) hrun]
    refine and_congr_left' (and_iff_left ⟨.of_not_mem hback.not_mem_marks, fun h => ?_⟩)
    -- What stands behind the body is no end of a block.
    exact hends h.right

end Context

theorem Program.lift_fills_parts_iff {p : Program} {o : Options} {s : Shader}
    (h : p.lift o = .ok s) : ∃ c phases, p.Lifted o s c phases ∧
      ((∀ f ∈ s.source.functions.toList, f.PartsFilled) ↔
        ∀ r ∈ c.spans phases, ∀ i j, ¬p.IdlePart r i j) ∧
      (Flow.ofInstructions p.instructions p.operands = .ok c.flow → ∀ r i j, p.IdlePart r i j →
        c.flow.link? i = some j ∧ Flow.roleAt p.instructions j = some (.closer .choice) ∧
          i + 1 < j) := by
  obtain ⟨c, phases, l⟩ := exists_lifted h
  obtain ⟨progress, hrun, _⟩ := l.written
  obtain ⟨fs, rs, hassembled, hfs, hrs⟩ :=
    Context.exists_assembled_of_write (Interface.moves_of_build l.interface) hrun
  refine ⟨c, phases, l, ?_, fun hf r i j hidle => hidle.linked hf⟩
  simp only [← hfs.mem_iff, ← hrs.mem_iff, ← l.program]
  exact hassembled.partsFilled_iff

-- A `switch` with one part.
def singleCase (inside : List Opcode) : Program where
  instructions :=
    let inst (op : Opcode) (operands : List OperandId) : Instruction :=
      { opcode := op, controls := .flow, operands, position := 0 }
    [inst .beginSwitch [0], inst .caseLabel [1]] ++ inside.map (inst · []) ++
      [inst .endSwitch [], inst .ret []]
  operands :=
    #[{ register := .temp, selection := .select 0, indices := [.imm 0] },
      { register := .immediate32, components := .one, immediate := some (.words ⟨0, 0, 0, 0⟩ 1) }]

theorem Program.lift_fills_parts_iff_singleCase :
    (∃ s c phases, (singleCase []).lift {} = .ok s ∧ (singleCase []).Lifted {} s c phases ∧
      ∀ r ∈ c.spans phases, ∀ i j, ¬(singleCase []).IdlePart r i j) ∧
    ∃ s c phases, (singleCase [.nop]).lift {} = .ok s ∧ (singleCase [.nop]).Lifted {} s c phases ∧
      ∃ r ∈ c.spans phases, ∃ i j, (singleCase [.nop]).IdlePart r i j ∧
        c.flow.link? i = some j := by
  obtain ⟨s, hs, hfilled⟩ : ∃ s, (singleCase []).lift {} = .ok s ∧
      ∀ f ∈ s.source.functions.toList, f.PartsFilled := by
    decide +kernel
  obtain ⟨t, ht, hidle⟩ : ∃ t, (singleCase [.nop]).lift {} = .ok t ∧
      ¬∀ f ∈ t.source.functions.toList, f.PartsFilled := by
    decide +kernel
  obtain ⟨c, phases, l, hiff, _⟩ := lift_fills_parts_iff hs
  obtain ⟨c', phases', l', hiff', hlinked⟩ := lift_fills_parts_iff ht
  refine ⟨⟨s, c, phases, hs, l, hiff.mp hfilled⟩, t, c', phases', ht, l', ?_⟩
  have hsome : ¬∀ r ∈ c'.spans phases', ∀ i j, ¬(singleCase [.nop]).IdlePart r i j := by
    exact hiff'.not.mp hidle
  push Not at hsome
  obtain ⟨r, hr, i, j, hidle⟩ := hsome
  have hflow : (Flow.ofInstructions (singleCase [.nop]).instructions
      (singleCase [.nop]).operands).mapError LiftError.unbalanced = .ok c'.flow := l'.flow
  exact ⟨r, hr, i, j, hidle, (hlinked (mapError_eq_ok_iff.mp hflow) r i j hidle).left⟩

-- `switch r0.x; case 0; nop; endswitch; ret`.
def idleCase : List UInt32 :=
  [0x50, 11, 0x0300004c, 0x0010000a, 0, 0x03000006, 0x00004001, 0, 0x0100003a, 0x01000017,
    0x0100003e]

theorem Program.parts_unfilled_idleCase : ∃ s, Shader.ofTokens idleCase {} = .ok s ∧
    ∃ f ∈ s.source.functions.toList,
      ["        case 0:", "    \x7d"] <:+: f.text ∧ ¬f.PartsFilled := by
  decide +kernel

end ShaderLift
