import ShaderLift.Proofs.Flow.Spans

/-!
Scanning instructions only compares their roles, never their positions. When positions are moved,
the block structure moves along, and so it does when an instruction is put in that plays no role.
-/

namespace ShaderLift

def Subroutine.moved (f : Nat → Nat) (sub : Subroutine) : Subroutine :=
  { sub with start := f sub.start, stop := f sub.stop }

namespace Flow

def OpenBlock.moved (f : Nat → Nat) (b : OpenBlock) : OpenBlock :=
  { b with opener := f b.opener, last := f b.last }

-- The same scan of instructions that stand somewhere else.
def Scan.moved (f : Nat → Nat) (s : Scan) : Scan where
  stack := s.stack.map (OpenBlock.moved f)
  links := s.links.map (Prod.map f f)
  done := s.done.map (Subroutine.moved f)
  current := s.current.map (Prod.map id f)
  mainEnd := s.mainEnd.map f
  mainReturns := s.mainReturns
  calls := s.calls.map (Prod.map f id)

-- Makes room in front of instruction `k`.
def shiftFrom (k i : Nat) : Nat :=
  if i < k then i else i + 1

variable {insts l l' : List Instruction} {arena : Arena} {inst : Instruction} {flow : Flow}
variable {f : Nat → Nat} {i i' j k : Nat} {s s' : Scan}

theorem shiftFrom_of_lt (h : i < k) : shiftFrom k i = i :=
  if_pos h

theorem shiftFrom_of_le (h : k ≤ i) : shiftFrom k i = i + 1 :=
  if_neg (Nat.not_lt_of_le h)

theorem labelOf_moved {slot : Nat} {l : Option UInt32} (h : labelOf arena i inst slot = .ok l) :
    labelOf arena j inst slot = .ok l := by
  unfold labelOf at h ⊢
  cases hid : inst.operands[slot]? <;> simp only [hid] at h ⊢
  case none => exact h
  case some id =>
    cases harena : arena[id]? <;> simp only [harena] at h ⊢
    case none => cases h
    case some => exact h

namespace Scan

theorem hasLabel_moved {l : UInt32} : (s.moved f).hasLabel l = s.hasLabel l := by
  unfold hasLabel moved
  cases s.current <;> simp [Function.comp_def, Subroutine.moved]

theorem isOpen_moved {kinds : List BlockKind} : (s.moved f).isOpen kinds = s.isOpen kinds := by
  unfold isOpen moved
  rw [List.any_map]
  rfl

theorem endSubroutine_moved : (s.moved f).endSubroutine (f i) = (s.endSubroutine i).moved f := by
  unfold endSubroutine moved
  cases hcurrent : s.current <;> simp [hcurrent, Subroutine.moved]

theorem enterSubroutine_moved {l : UInt32} :
    (s.moved f).enterSubroutine (f i) l = (s.enterSubroutine i l).moved f := by
  unfold enterSubroutine
  rw [endSubroutine_moved]
  cases hmain : s.mainEnd <;> simp [moved, hmain]

theorem ret_moved : (s.moved f).ret (f i) = (s.ret i).moved f := by
  have hstack : (s.moved f).stack.isEmpty = s.stack.isEmpty := List.isEmpty_map
  have hcurrent : (s.moved f).current.isSome = s.current.isSome := Option.isSome_map
  have hmain : (s.moved f).mainEnd.isNone = s.mainEnd.isNone := Option.isNone_map
  unfold ret
  rw [hstack, hcurrent, hmain, endSubroutine_moved]
  split_ifs <;> rfl

theorem call_moved {l : Option UInt32} : (s.moved f).call (f i) l = (s.call i l).moved f := by
  cases l <;> simp [call, moved]

-- What an instruction does, it does at any position.
theorem Effect.moved (e : Effect arena i inst s s') :
    Effect arena (f i) inst (s.moved f) (s'.moved f) := by
  cases e
  case opener role => exact .opener role
  case divider block rest role stack first =>
    have hrole : inst.opcode.role = .divider (block.moved f).kind := role
    exact .divider hrole (congrArg (List.map _) stack) first
  case closer block rest role stack =>
    have hrole : inst.opcode.role = .closer (block.moved f).kind := role
    exact .closer hrole (congrArg (List.map _) stack)
  case jump role inside => exact .jump role (isOpen_moved.trans inside)
  case label role stack named new =>
    rw [← enterSubroutine_moved]
    exact .label role (congrArg (List.map _) stack) (labelOf_moved named) (hasLabel_moved.trans new)
  case ret role => exact ret_moved ▸ .ret role
  case call role named => exact call_moved ▸ .call role (labelOf_moved named)
  case marker role stack => exact .marker role (congrArg (List.map _) stack)
  case plain role => exact .plain role

theorem run_moved (hf : ∀ n < l.length, f (i + n) = i' + n) (h : s.run arena i l = .ok s') :
    (s.moved f).run arena i' l = .ok (s'.moved f) := by
  induction l generalizing i i' s
  case nil =>
    cases h
    rfl
  case cons inst l hi =>
    have ⟨t, e, h⟩ := run_cons_ok_iff.mp h
    have hpos : f i = i' := hf 0 (Nat.succ_pos _)
    refine run_cons_ok_iff.mpr ⟨t.moved f, hpos ▸ e.moved, hi (fun n hn => ?_) h⟩
    have := hf (n + 1) (Nat.succ_lt_succ hn)
    rwa [← Nat.add_assoc, Nat.add_right_comm, ← Nat.add_assoc, Nat.add_right_comm i'] at this

theorem run_append_ok_iff :
    s.run arena i (l ++ l') = .ok s' ↔
      ∃ t, s.run arena i l = .ok t ∧ t.run arena (i + l.length) l' = .ok s' := by
  induction l generalizing i s
  case nil => simp [run]
  case cons inst l hi =>
    have hlength : i + (inst :: l).length = i + 1 + l.length := by
      rw [List.length_cons]
      omega
    simp only [List.cons_append, run_cons_ok_iff, hi, hlength]
    constructor
    case mp =>
      rintro ⟨t, e, u, hu, h⟩
      exact ⟨u, ⟨t, e, hu⟩, h⟩
    case mpr =>
      rintro ⟨u, ⟨t, e, hu⟩, h⟩
      exact ⟨t, e, u, hu, h⟩

-- An instruction without a role makes room for itself.
theorem run_insert (hrole : inst.opcode.role = .plain) (h : run arena {} 0 (l ++ l') = .ok s) :
    run arena {} 0 (l ++ inst :: l') = .ok (s.moved (shiftFrom l.length)) := by
  have ⟨t, hl, hl'⟩ := run_append_ok_iff.mp h
  refine run_append_ok_iff.mpr ⟨t.moved (shiftFrom l.length), ?before, ?after⟩
  case before =>
    refine run_moved (fun n hn => ?_) hl
    rw [Nat.zero_add]
    exact shiftFrom_of_lt hn
  case after =>
    refine run_cons_ok_iff.mpr ⟨_, .plain hrole, run_moved (fun n _ => ?_) hl'⟩
    rw [shiftFrom_of_le (by omega)]
    omega

end Scan

theorem ofInstructions_insert (hrole : inst.opcode.role = .plain)
    (h : ofInstructions (l ++ l') arena = .ok flow) :
    ∃ flow', ofInstructions (l ++ inst :: l') arena = .ok flow' ∧
      flow'.subroutines = flow.subroutines.map (Subroutine.moved (shiftFrom l.length)) ∧
      flow'.mainEnd = shiftFrom l.length flow.mainEnd := by
  obtain ⟨s, hrun, hstack, hcalls, rfl⟩ := ofInstructions_ok_iff.mp h
  have hlength : (l ++ inst :: l').length = shiftFrom l.length (l ++ l').length := by
    rw [shiftFrom_of_le (by simp)]
    simp [Nat.add_assoc]
  refine ⟨_, ofInstructions_ok_iff.mpr ⟨_, Scan.run_insert hrole hrun, ?_, ?_, rfl⟩, ?_, ?_⟩
  case refine_1 => exact congrArg (List.map _) hstack
  case refine_2 =>
    intro call hcall
    have ⟨old, hold, hcall⟩ := List.mem_map.mp hcall
    rw [Scan.hasLabel_moved, ← hcall]
    exact hcalls old hold
  case refine_3 =>
    change (Scan.endSubroutine _ (l ++ inst :: l').length).done = _
    rw [hlength, Scan.endSubroutine_moved]
    rfl
  case refine_4 =>
    change (s.mainEnd.map _).getD (l ++ inst :: l').length = _
    rw [hlength, Option.getD_map]
    rfl

theorem subroutine?_moved {flow' : Flow}
    (h : flow'.subroutines = flow.subroutines.map (Subroutine.moved f)) (label : UInt32) :
    (flow.subroutine? label).isNone = (flow'.subroutine? label).isNone := by
  unfold subroutine?
  rw [h, List.find?_map, Option.isNone_map]
  rfl

end Flow

end ShaderLift
