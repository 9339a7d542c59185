import ShaderLift.Proofs.Flow.Nesting

/-!
What one instruction does to a scan, and how properties of scans are carried from instruction to
instruction.
-/

namespace ShaderLift.Flow.Scan

variable {arena : Arena} {i : Nat} {inst : Instruction} {s s' : Scan} {op : Opcode}

@[simp] theorem endSubroutine_stack : (s.endSubroutine i).stack = s.stack := by
  unfold endSubroutine
  split <;> rfl

@[simp] theorem endSubroutine_links : (s.endSubroutine i).links = s.links := by
  unfold endSubroutine
  split <;> rfl

@[simp] theorem endSubroutine_mainEnd : (s.endSubroutine i).mainEnd = s.mainEnd := by
  unfold endSubroutine
  split <;> rfl

@[simp] theorem endSubroutine_mainReturns :
    (s.endSubroutine i).mainReturns = s.mainReturns := by
  unfold endSubroutine
  split <;> rfl

@[simp] theorem endSubroutine_calls : (s.endSubroutine i).calls = s.calls := by
  unfold endSubroutine
  split <;> rfl

theorem endSubroutine_hasLabel {l : UInt32} :
    (s.endSubroutine i).hasLabel l = s.hasLabel l := by
  unfold endSubroutine hasLabel
  split <;> simp_all

@[simp] theorem ret_stack : (s.ret i).stack = s.stack := by
  unfold ret
  split <;> try split <;> try split
  all_goals simp

@[simp] theorem ret_links : (s.ret i).links = s.links := by
  unfold ret
  split <;> try split <;> try split
  all_goals simp

@[simp] theorem ret_calls : (s.ret i).calls = s.calls := by
  unfold ret
  split <;> try split <;> try split
  all_goals simp

@[simp] theorem call_stack {l : Option UInt32} : (s.call i l).stack = s.stack := by
  cases l <;> rfl

@[simp] theorem call_links {l : Option UInt32} : (s.call i l).links = s.links := by
  cases l <;> rfl

-- The scan after the label of a subroutine.
def enterSubroutine (s : Scan) (i : Nat) (label : UInt32) : Scan :=
  { s.endSubroutine i with current := some (label, i), mainEnd := s.mainEnd.or (some i) }

-- The scan after an instruction that divides its innermost block.
def divided (s : Scan) (i : Nat) (op : Opcode) (block : OpenBlock) (rest : List OpenBlock) : Scan :=
  { s with
    stack := { block with last := i, hasElse := block.hasElse || op == .orElse } :: rest
    links := (block.last, i) :: s.links }

-- The scan after an instruction that closes its innermost block.
def closed (s : Scan) (i : Nat) (block : OpenBlock) (rest : List OpenBlock) : Scan :=
  { s with stack := rest, links := (i, block.opener) :: (block.last, i) :: s.links }

-- Everything that an instruction can do to a scan, by its role.
inductive Effect (arena : Arena) (i : Nat) (inst : Instruction) (s : Scan) : Scan → Prop
  | opener {kind} (role : inst.opcode.role = .opener kind) :
      Effect arena i inst s (s.openBlock kind inst.opcode i)
  | divider {block rest} (role : inst.opcode.role = .divider block.kind)
      (stack : s.stack = block :: rest)
      (first : block.kind = .conditional → block.hasElse = false) :
      Effect arena i inst s (s.divided i inst.opcode block rest)
  | closer {block rest} (role : inst.opcode.role = .closer block.kind)
      (stack : s.stack = block :: rest) :
      Effect arena i inst s (s.closed i block rest)
  | jump {kinds} (role : inst.opcode.role = .jump kinds) (inside : s.isOpen kinds) :
      Effect arena i inst s s
  | label {l} (role : inst.opcode.role = .label) (stack : s.stack = [])
      (named : labelOf arena i inst 0 = .ok l) (new : s.hasLabel (l.getD noLabel) = false) :
      Effect arena i inst s (s.enterSubroutine i (l.getD noLabel))
  | ret (role : inst.opcode.role = .ret) : Effect arena i inst s (s.ret i)
  | call {slot l} (role : inst.opcode.role = .call slot)
      (named : labelOf arena i inst slot = .ok l) : Effect arena i inst s (s.call i l)
  | marker (role : inst.opcode.role = .marker) (stack : s.stack = []) : Effect arena i inst s s
  | plain (role : inst.opcode.role = .plain) : Effect arena i inst s s

theorem divide_ok_iff {fits : OpenBlock → Bool} :
    s.divide i op fits = .ok s' ↔
      ∃ block rest, s.stack = block :: rest ∧ fits block ∧ s.divided i op block rest = s' := by
  unfold divide divided
  split
  case h_1 block rest hs => split <;> simp_all
  case h_2 hs => simp [hs]

theorem close_ok_iff {kind : BlockKind} :
    s.close i op kind = .ok s' ↔
      ∃ block rest, s.stack = block :: rest ∧ block.kind = kind ∧ s.closed i block rest = s' := by
  unfold close closed
  split
  case h_1 block rest hs => split <;> simp_all
  case h_2 hs => simp [hs]

theorem branch_ok_iff {kinds : List BlockKind} :
    s.branch i op kinds = .ok s' ↔ s.isOpen kinds ∧ s = s' := by
  unfold branch
  split <;> simp_all

theorem label_ok_iff {l : UInt32} :
    s.label i l = .ok s' ↔ s.hasLabel l = false ∧ s.enterSubroutine i l = s' := by
  unfold label enterSubroutine
  split
  case isTrue h => simp [h]
  case isFalse h =>
    simp [h]

theorem expectClosed_ok_iff {u : Unit} : s.expectClosed = .ok u ↔ s.stack = [] := by
  unfold expectClosed
  split <;> simp_all

theorem step_eq : s.step arena i inst =
    match inst.opcode.role with
    | .opener kind => .ok (s.openBlock kind inst.opcode i)
    | .divider kind => s.divide i inst.opcode fun block =>
        block.kind == kind && !(kind == .conditional && block.hasElse)
    | .closer kind => s.close i inst.opcode kind
    | .jump kinds => s.branch i inst.opcode kinds
    | .label =>
      if s.stack.isEmpty then do s.label i ((← labelOf arena i inst 0).getD noLabel)
      else .error ⟨i, .labelInsideBlock⟩
    | .ret => .ok (s.ret i)
    | .call slot => s.call i <$> labelOf arena i inst slot
    | .marker => (fun _ => s) <$> s.expectClosed
    | .plain => .ok s := by
  simp only [step]
  split
  case h_18 h =>
    have hr : inst.opcode.role =
        if inst.opcode.kind = .phaseMarker then .marker else .plain := by
      unfold Opcode.role
      split <;> first | rfl | exact absurd ‹_› ‹¬ _›
    rw [hr]
    split <;> simp_all
  case h_5 h | h_6 h =>
    simp only [h, Opcode.role]
    congr 1
    funext block
    rw [show (BlockKind.choice == BlockKind.conditional) = false from rfl]
    simp
  all_goals simp [‹inst.opcode = _›, Opcode.role]

theorem Effect.of_step (h : s.step arena i inst = .ok s') : Effect arena i inst s s' := by
  rw [step_eq] at h
  split at h
  case h_1 hr =>
    cases h
    exact .opener hr
  case h_2 hr =>
    obtain ⟨block, rest, hs, hf, rfl⟩ := divide_ok_iff.mp h
    simp only [Bool.and_eq_true, beq_iff_eq, Bool.not_eq_true', Bool.and_eq_false_imp] at hf
    exact .divider (hf.left ▸ hr) hs (hf.left ▸ hf.right)
  case h_3 hr =>
    obtain ⟨block, rest, hs, rfl, rfl⟩ := close_ok_iff.mp h
    exact .closer hr hs
  case h_4 hr =>
    obtain ⟨ho, rfl⟩ := branch_ok_iff.mp h
    exact .jump hr ho
  case h_5 hr =>
    split at h
    case isTrue hs =>
      cases hl : labelOf arena i inst 0 <;> simp [hl, bind, Except.bind] at h
      obtain ⟨hn, rfl⟩ := label_ok_iff.mp h
      exact .label hr (List.isEmpty_iff.mp hs) hl hn
    case isFalse => cases h
  case h_6 hr =>
    cases h
    exact .ret hr
  case h_7 slot hr =>
    cases hl : labelOf arena i inst slot <;> simp [hl, Functor.map, Except.map] at h
    exact h ▸ .call hr hl
  case h_8 hr =>
    cases hs : s.expectClosed <;> simp [hs, Functor.map, Except.map] at h
    exact h ▸ .marker hr (expectClosed_ok_iff.mp hs)
  case h_9 hr =>
    cases h
    exact .plain hr

theorem Effect.step (e : Effect arena i inst s s') : s.step arena i inst = .ok s' := by
  rw [step_eq]
  cases e
  case opener hr => simp [hr]
  case divider hr hs hf =>
    simp only [hr]
    refine divide_ok_iff.mpr ⟨_, _, hs, ?_, rfl⟩
    simpa only [beq_self_eq_true, Bool.true_and, Bool.not_eq_true', Bool.and_eq_false_imp,
      beq_iff_eq] using hf
  case closer hr hs =>
    simp only [hr]
    exact close_ok_iff.mpr ⟨_, _, hs, rfl, rfl⟩
  case jump hr ho =>
    simp only [hr]
    exact branch_ok_iff.mpr ⟨ho, rfl⟩
  case label hr hs hl hn =>
    simp only [hr, hs, hl]
    exact label_ok_iff.mpr ⟨hn, rfl⟩
  case ret hr => simp [hr]
  case call hr hl =>
    simp only [hr, hl]
    rfl
  case marker hr hs =>
    simp only [hr, (expectClosed_ok_iff (u := ())).mpr hs]
    rfl
  case plain hr => simp [hr]

section Run

variable {insts l : List Instruction} {P : Nat → Scan → Prop}

-- The suffix that is left to scan determines where the scan stands.
theorem getElem?_of_drop (h : insts.drop i = inst :: l) : insts[i]? = some inst := by
  rw [← List.head?_drop, h, List.head?_cons]

theorem drop_succ_of_drop (h : insts.drop i = inst :: l) : insts.drop (i + 1) = l := by
  rw [← List.drop_drop, h, List.drop_one, List.tail_cons]

theorem run_cons_ok_iff :
    s.run arena i (inst :: l) = .ok s' ↔
      ∃ t, Effect arena i inst s t ∧ t.run arena (i + 1) l = .ok s' := by
  constructor
  case mp =>
    intro h
    cases hs : s.step arena i inst <;> simp [run, hs, bind, Except.bind] at h
    case ok t => exact ⟨t, .of_step hs, h⟩
  case mpr =>
    intro ⟨t, e, h⟩
    simp only [run, e.step]
    exact h

theorem run_preserves_from
    (hstep : ∀ {i inst s s'}, insts[i]? = some inst → P i s → Effect arena i inst s s' →
      P (i + 1) s')
    (hl : insts.drop i = l) (hp : P i s) (h : s.run arena i l = .ok s') : P (i + l.length) s' := by
  induction l generalizing i s
  case nil =>
    cases h
    exact hp
  case cons inst l hi =>
    have ⟨t, e, h⟩ := run_cons_ok_iff.mp h
    have := hi (drop_succ_of_drop hl) (hstep (getElem?_of_drop hl) hp e) h
    rwa [Nat.add_assoc, Nat.add_comm 1] at this

theorem run_preserves
    (hstep : ∀ {i inst s s'}, insts[i]? = some inst → P i s → Effect arena i inst s s' →
      P (i + 1) s')
    (hp : P 0 {}) (h : run arena {} 0 insts = .ok s') : P insts.length s' := by
  have := run_preserves_from hstep (List.drop_zero ..) hp h
  rwa [Nat.zero_add] at this

-- The other way round: from the end of a run to its start.
theorem run_reflects_from {P : List Instruction → Scan → Prop}
    (hstep : ∀ {i inst l s s'}, Effect arena i inst s s' → P l s' → P (inst :: l) s)
    (h : s.run arena i l = .ok s') (hp : P [] s') : P l s := by
  induction l generalizing i s
  case nil =>
    cases h
    exact hp
  case cons inst l hi =>
    have ⟨t, e, h⟩ := run_cons_ok_iff.mp h
    exact hstep e (hi h)

theorem run_succeeds_from
    (hstep : ∀ {i inst s}, insts[i]? = some inst → P i s →
      ∃ s', Effect arena i inst s s' ∧ P (i + 1) s')
    (hl : insts.drop i = l) (hp : P i s) :
    ∃ s', s.run arena i l = .ok s' ∧ P (i + l.length) s' := by
  induction l generalizing i s
  case nil => exact ⟨s, rfl, hp⟩
  case cons inst l hi =>
    have ⟨t, e, ht⟩ := hstep (getElem?_of_drop hl) hp
    have ⟨s', h, hp⟩ := hi (drop_succ_of_drop hl) ht
    rw [Nat.add_assoc, Nat.add_comm 1] at hp
    exact ⟨s', run_cons_ok_iff.mpr ⟨t, e, h⟩, hp⟩

theorem run_succeeds
    (hstep : ∀ {i inst s}, insts[i]? = some inst → P i s →
      ∃ s', Effect arena i inst s s' ∧ P (i + 1) s')
    (hp : P 0 {}) : ∃ s', run arena {} 0 insts = .ok s' ∧ P insts.length s' := by
  have ⟨s', h, hp⟩ := run_succeeds_from hstep (List.drop_zero ..) hp
  rw [Nat.zero_add] at hp
  exact ⟨s', h, hp⟩

end Run

end ShaderLift.Flow.Scan
