import ShaderLift.Proofs.Flow.Links

/-!
The instruction lists that have a flow: their opcodes form well-nested blocks, branches stand in the
blocks that they leave, labels and phase markers stand in no block, and calls name labels.
-/

namespace ShaderLift.Flow

-- How often a block may be divided.
def BlockKind.Allows : BlockKind → Nat → Prop
  | conditional, n => n ≤ 1
  | loop, n => n = 0
  | choice, _ => True

-- The parts of a block behind the first one, each with the instruction in front of it that divides
-- the block.
def parted (kind : BlockKind) (parts : List (List Role)) : List Role :=
  parts.flatMap (.divider kind :: ·)

-- Sequences of blocks and of instructions that have to do with no block.
inductive Nested : List Role → Prop
  | nil : Nested []
  | other {r rest} (role : r.isStructural = false) (after : Nested rest) : Nested (r :: rest)
  | block {kind first parts rest} (body : Nested first) (bodies : ∀ p ∈ parts, Nested p)
      (count : kind.Allows parts.length) (after : Nested rest) :
      Nested (.opener kind :: (first ++ (parted kind parts ++ .closer kind :: rest)))

-- How often an open block may still be divided.
def OpenBlock.Allows (b : OpenBlock) (n : Nat) : Prop :=
  match b.kind with
  | .conditional => b.hasElse.toNat + n ≤ 1
  | .loop => n = 0
  | .choice => True

-- What closes the open blocks, innermost first, from the end of a part of the innermost one on.
def Ends : List OpenBlock → List Role → Prop
  | [], l => l = []
  | b :: stack, l => ∃ parts first rest,
      parted b.kind parts ++ .closer b.kind :: (first ++ rest) = l ∧
      (∀ p ∈ parts, Nested p) ∧ b.Allows parts.length ∧ Nested first ∧ Ends stack rest

-- What goes on inside of the innermost open block and then closes all of them.
def Completes (stack : List OpenBlock) (l : List Role) : Prop :=
  ∃ first rest, first ++ rest = l ∧ Nested first ∧ Ends stack rest

variable {insts : List Instruction} {arena : Arena} {inst : Instruction} {flow : Flow}
variable {s s' : Scan} {stack : List OpenBlock} {block : OpenBlock} {l l' : List Role} {r : Role}
variable {kind : BlockKind} {i : Nat}

theorem parted_cons {p : List Role} {parts : List (List Role)} :
    parted kind (p :: parts) = .divider kind :: (p ++ parted kind parts) := by
  simp [parted]

theorem Nested.append (h : Nested l) (h' : Nested l') : Nested (l ++ l') := by
  induction h
  case nil => exact h'
  case other hr _ hi => exact .other hr hi
  case block hb hp hc _ _ _ hi => simpa using Nested.block hb hp hc hi

namespace Completes

theorem nil_iff : Completes [] l ↔ Nested l := by
  simp [Completes, Ends]

theorem of_nil (h : Completes stack []) : stack = [] := by
  have ⟨first, rest, he, _, hends⟩ := h
  cases stack
  case nil => rfl
  case cons =>
    have ⟨parts, first', rest', hl, _⟩ := hends
    simp [← hl] at he

theorem prepend (h : Nested l) (h' : Completes stack l') : Completes stack (l ++ l') := by
  have ⟨first, rest, he, hn, hends⟩ := h'
  exact ⟨l ++ first, rest, by rw [List.append_assoc, he], h.append hn, hends⟩

-- What the first instruction can be.
theorem cons_cases (h : Completes stack (r :: l)) :
    (r.isStructural = false ∧ Completes stack l) ∨
    (∃ kind, r = .opener kind ∧ ∃ parts first rest,
      first ++ (parted kind parts ++ .closer kind :: rest) = l ∧ Nested first ∧
      (∀ p ∈ parts, Nested p) ∧ kind.Allows parts.length ∧ Completes stack rest) ∨
    (∃ b rest, stack = b :: rest ∧ r = .divider b.kind ∧ ∃ p parts first rest',
      p ++ (parted b.kind parts ++ .closer b.kind :: (first ++ rest')) = l ∧ Nested p ∧
      (∀ p ∈ parts, Nested p) ∧ b.Allows (parts.length + 1) ∧ Nested first ∧ Ends rest rest') ∨
    ∃ b rest, stack = b :: rest ∧ r = .closer b.kind ∧ Completes rest l := by
  have ⟨first, rest, he, hn, hends⟩ := h
  cases hn
  case nil =>
    cases stack
    case nil =>
      cases (hends : rest = [])
      cases he
    case cons b stack =>
      obtain ⟨parts, first', rest', rfl, hp, ha, hf, hends⟩ := hends
      cases parts
      case nil =>
        cases he
        exact .inr <| .inr <| .inr ⟨b, stack, rfl, rfl, first', rest', rfl, hf, hends⟩
      case cons p parts =>
        have ⟨hp, hps⟩ := List.forall_mem_cons.mp hp
        simp only [parted_cons, List.nil_append, List.cons_append, List.cons.injEq,
          List.append_assoc] at he
        obtain ⟨rfl, rfl⟩ := he
        refine .inr <| .inr <| .inl ⟨b, stack, rfl, rfl, p, parts, first', rest', rfl, ?_⟩
        exact ⟨hp, hps, ha, hf, hends⟩
  case other hr hn =>
    cases he
    exact .inl ⟨hr, _, _, rfl, hn, hends⟩
  case block kind first' parts rest' hb hp hc ha =>
    cases he
    refine .inr <| .inl ⟨kind, rfl, parts, first', rest' ++ rest, by simp, hb, hp, hc, ?_⟩
    exact ⟨_, _, rfl, ha, hends⟩

theorem other_iff (hr : r.isStructural = false) :
    Completes stack (r :: l) ↔ Completes stack l := by
  refine ⟨fun h => ?_, prepend (.other hr .nil)⟩
  obtain ⟨_, h⟩ | ⟨_, rfl, _⟩ | ⟨_, _, _, rfl, _⟩ | ⟨_, _, _, rfl, _⟩ := h.cons_cases
  case inl => exact h
  all_goals cases hr

theorem opener_iff (hk : block.kind = kind) (he : block.hasElse = false) :
    Completes stack (.opener kind :: l) ↔ Completes (block :: stack) l := by
  have hallows (n : Nat) : block.Allows n ↔ kind.Allows n := by
    subst hk
    cases hk : block.kind <;> simp [OpenBlock.Allows, BlockKind.Allows, hk, he]
  subst hk
  constructor
  case mp =>
    intro h
    obtain ⟨hr, _⟩ | ⟨_, hr, parts, first, _, rfl, hf, hp, hc, first', rest, rfl, hf', hends⟩ |
      ⟨_, _, _, hr, _⟩ | ⟨_, _, _, hr, _⟩ := h.cons_cases <;> cases hr
    exact ⟨first, _, rfl, hf, parts, first', rest, rfl, hp, (hallows _).mpr hc, hf', hends⟩
  case mpr =>
    rintro ⟨first, _, rfl, hf, parts, first', rest, rfl, hp, ha, hf', hends⟩
    refine ⟨_, rest, ?_, Nested.block hf hp ((hallows _).mp ha) hf', hends⟩
    simp

theorem closer_iff :
    Completes stack (.closer kind :: l) ↔
      ∃ b rest, stack = b :: rest ∧ b.kind = kind ∧ Completes rest l := by
  constructor
  case mp =>
    intro h
    obtain ⟨hr, _⟩ | ⟨_, hr, _⟩ | ⟨_, _, _, hr, _⟩ | ⟨b, rest, hs, hr, hc⟩ :=
      h.cons_cases <;> cases hr
    exact ⟨b, rest, hs, rfl, hc⟩
  case mpr =>
    rintro ⟨b, stack, rfl, rfl, first, rest, rfl, hf, hends⟩
    refine ⟨[], _, rfl, .nil, [], first, rest, rfl, nofun, ?_, hf, hends⟩
    cases hk : b.kind <;> simp [OpenBlock.Allows, hk, Bool.toNat_le]

theorem divider_iff {b b' : OpenBlock} (hk : b'.kind = b.kind)
    (ha : ∀ n, b'.Allows n ↔ b.Allows (n + 1)) :
    Completes (b :: stack) (.divider b.kind :: l) ↔ Completes (b' :: stack) l := by
  constructor
  case mp =>
    intro h
    obtain ⟨hr, _⟩ | ⟨_, hr, _⟩ | ⟨_, _, hs, hr, p, parts, first, rest, rfl, hc⟩ |
      ⟨_, _, _, hr, _⟩ := h.cons_cases
    case inr.inr.inl =>
      cases hs
      have ⟨hp, hps, hc, hf, hends⟩ := hc
      exact ⟨p, _, rfl, hp, parts, first, rest, hk ▸ rfl, hps, (ha _).mpr hc, hf, hends⟩
    all_goals cases hr
  case mpr =>
    rintro ⟨p, _, rfl, hp, parts, first, rest, rfl, hps, hc, hf, hends⟩
    refine ⟨[], _, rfl, .nil, p :: parts, first, rest, ?_, List.forall_mem_cons.mpr ⟨hp, hps⟩,
      (ha _).mp hc, hf, hends⟩
    simp [parted_cons, hk]

theorem divider_inside (h : Completes stack (.divider kind :: l)) :
    ∃ b rest n, stack = b :: rest ∧ b.kind = kind ∧ b.Allows (n + 1) := by
  obtain ⟨hr, _⟩ | ⟨_, hr, _⟩ | ⟨b, rest, hs, hr, _, parts, _, _, _, _, _, hc, _⟩ |
    ⟨_, _, _, hr, _⟩ := h.cons_cases <;> cases hr
  exact ⟨b, rest, parts.length, hs, rfl, hc⟩

-- A step of a scan keeps what is left to be read to complete its open blocks.
theorem effect_iff (e : Scan.Effect arena i inst s s') :
    Completes s.stack (inst.opcode.role :: l) ↔ Completes s'.stack l := by
  cases e
  case opener h => exact h ▸ opener_iff rfl rfl
  case divider b rest h hs hf =>
    rw [h, hs]
    refine divider_iff rfl fun n => ?_
    have ho := Opcode.role_eq_divider_iff.mp h
    cases hk : b.kind
    case conditional =>
      have ho : inst.opcode = .orElse := by simpa [hk, BlockKind.dividing] using ho
      simp [OpenBlock.Allows, hk, hf hk, ho]
    case loop => simp [hk, BlockKind.dividing] at ho
    case choice => simp [OpenBlock.Allows, hk]
  case closer b rest h hs =>
    rw [h, closer_iff, hs]
    refine ⟨fun ⟨_, _, he, _, hc⟩ => ?_, fun hc => ⟨b, rest, rfl, rfl, hc⟩⟩
    exact List.tail_eq_of_cons_eq he ▸ hc
  case label h _ _ _ =>
    rw [h, other_iff rfl, Scan.enterSubroutine, Scan.endSubroutine_stack]
  case ret h => rw [h, other_iff rfl, Scan.ret_stack]
  case call h _ => rw [h, other_iff rfl, Scan.call_stack]
  case jump h _ | marker h _ | plain h => rw [h, other_iff rfl]

theorem of_run (h : s.run arena i insts = .ok s') (hs : s'.stack = []) :
    Completes s.stack (insts.map (·.opcode.role)) :=
  Scan.run_reflects_from (P := fun l s => Completes s.stack (l.map (·.opcode.role)))
    (fun e => (effect_iff e).mpr) h (hs ▸ nil_iff.mpr .nil)

end Completes

-- The label that operand `slot` of an instruction names.
def named? (arena : Arena) (inst : Instruction) (slot : Nat) : Option UInt32 := do
  let op ← arena[← inst.operands[slot]?]?
  if op.register = .label then op.slot? else none

def definedLabel? (arena : Arena) (inst : Instruction) : Option UInt32 :=
  if inst.opcode.role = .label then some ((named? arena inst 0).getD noLabel) else none

def calledLabel? (arena : Arena) (inst : Instruction) : Option UInt32 :=
  match inst.opcode.role with
  | .call slot => named? arena inst slot
  | _ => none

theorem labelOf_ok {slot : Nat} {l : Option UInt32} (h : labelOf arena i inst slot = .ok l) :
    named? arena inst slot = l := by
  unfold labelOf at h
  unfold named?
  cases ho : inst.operands[slot]? <;> simp only [ho] at h
  case none => exact Except.ok.inj h
  case some id =>
    cases ha : arena[id]? <;> simp [ha] at h
    simpa [ha] using h

theorem labelOf_eq {slot : Nat} (h : ∀ id ∈ inst.operands, id < arena.size) :
    labelOf arena i inst slot = .ok (named? arena inst slot) := by
  cases hl : labelOf arena i inst slot
  case ok => rw [labelOf_ok hl]
  case error =>
    unfold labelOf at hl
    cases ho : inst.operands[slot]? <;> simp [ho] at hl
    have := h _ (List.mem_of_getElem? ho)
    simp [this] at hl

def Scan.labels (s : Scan) : List UInt32 :=
  s.done.map (·.label) ++ (s.current.map (·.1)).toList

namespace Scan

theorem hasLabel_iff {l : UInt32} : s.hasLabel l ↔ l ∈ s.labels := by
  cases h : s.current
  case none => simp [hasLabel, labels, h]
  case some => simp [hasLabel, labels, h, eq_comm (a := l)]

@[simp] theorem labels_endSubroutine : (s.endSubroutine i).labels = s.labels := by
  unfold endSubroutine labels
  split <;> simp_all

@[simp] theorem labels_enterSubroutine {l : UInt32} :
    (s.enterSubroutine i l).labels = s.labels ++ [l] := by
  unfold enterSubroutine endSubroutine labels
  split <;> simp_all

@[simp] theorem labels_ret : (s.ret i).labels = s.labels := by
  unfold ret
  split <;> try split <;> try split
  case isTrue | isFalse.isFalse.isFalse => rfl
  case isFalse.isTrue => exact labels_endSubroutine
  case isFalse.isFalse.isTrue => simp [labels]

end Scan

-- The labels and the calls that a scan has met.
structure Labelled (arena : Arena) (seen : List Instruction) (s : Scan) : Prop where
  labels   : s.labels = seen.filterMap (definedLabel? arena)
  distinct : s.labels.Nodup
  calls    : s.calls.map Prod.snd = seen.filterMap (calledLabel? arena)

namespace Labelled

variable {seen : List Instruction}

theorem init : Labelled arena [] {} :=
  ⟨rfl, List.nodup_nil, rfl⟩

-- An instruction that neither defines nor calls a label.
theorem unchanged (p : Labelled arena seen s) (hl : s'.labels = s.labels) (hc : s'.calls = s.calls)
    (hd : inst.opcode.role ≠ .label) (hn : ∀ slot, inst.opcode.role ≠ .call slot) :
    Labelled arena (seen ++ [inst]) s' where
  labels := by simp [hl, p.labels, definedLabel?, hd]
  distinct := hl ▸ p.distinct
  calls := by
    have : calledLabel? arena inst = none := by
      unfold calledLabel?
      split
      case h_1 h => exact absurd h (hn _)
      case h_2 => rfl
    simp [hc, p.calls, this]

theorem step (p : Labelled arena seen s) (e : Scan.Effect arena i inst s s') :
    Labelled arena (seen ++ [inst]) s' := by
  cases e
  case label l h _ hl hn =>
    have hd : definedLabel? arena inst = some (l.getD noLabel) := by
      simp [definedLabel?, h, labelOf_ok hl]
    have hc : calledLabel? arena inst = none := by simp [calledLabel?, h]
    have hn : l.getD noLabel ∉ s.labels := fun hm => by simp [Scan.hasLabel_iff.mpr hm] at hn
    have hdistinct := p.distinct.append (List.nodup_singleton _) (by simpa using hn)
    exact {
      labels := by simp [p.labels, hd]
      distinct := Scan.labels_enterSubroutine ▸ hdistinct
      calls := by simp [Scan.enterSubroutine, p.calls, hc] }
  case ret h => exact p.unchanged Scan.labels_ret Scan.ret_calls (by simp [h]) (by simp [h])
  case call slot l h hl =>
    have hd : definedLabel? arena inst = none := by simp [definedLabel?, h]
    have hc : calledLabel? arena inst = l := by simp [calledLabel?, h, labelOf_ok hl]
    have hl : (s.call i l).labels = s.labels := by cases l <;> rfl
    exact {
      labels := by simp [hl, p.labels, hd]
      distinct := hl ▸ p.distinct
      calls := by cases l <;> simp [Scan.call, p.calls, hc] }
  case opener h | divider h _ _ | closer h _ | jump h _ | marker h _ | plain h =>
    exact p.unchanged rfl rfl (by simp [h]) (by simp [h])

theorem take_succ (p : Labelled arena (insts.take i) s) (hi : insts[i]? = some inst)
    (e : Scan.Effect arena i inst s s') : Labelled arena (insts.take (i + 1)) s' := by
  simpa [List.take_add_one, hi] using p.step e

theorem of_run (h : Scan.run arena {} 0 insts = .ok s) : Labelled arena insts s := by
  have := Scan.run_preserves (P := fun i s => Labelled arena (insts.take i) s)
    (fun hi p e => p.take_succ hi e) .init h
  rwa [List.take_length] at this

end Labelled

structure WellFormed (insts : List Instruction) (arena : Arena) : Prop where
  nested   : Nested (insts.map (·.opcode.role))
  -- Each branch stands in a block that it leaves or starts again.
  branches : ∀ i kinds, roleAt insts i = some (.jump kinds) →
    ∃ o, ∃ kind ∈ kinds, OpenAt insts kind o i
  labels   : ∀ i, roleAt insts i = some .label → depthAt insts i = 0
  markers  : ∀ i, roleAt insts i = some .marker → depthAt insts i = 0
  distinct : (insts.filterMap (definedLabel? arena)).Nodup
  calls    : insts.filterMap (calledLabel? arena) ⊆ insts.filterMap (definedLabel? arena)

theorem Traced.isOpen_iff {kinds : List BlockKind} (t : Traced insts i s) :
    s.isOpen kinds ↔ ∃ o, ∃ kind ∈ kinds, OpenAt insts kind o i := by
  simp only [Scan.isOpen, List.any_eq_true, List.contains_iff_mem]
  constructor
  case mp =>
    intro ⟨b, hb, hk⟩
    exact ⟨b.opener, b.kind, hk, (t.pending b hb).open_at⟩
  case mpr =>
    intro ⟨o, kind, hk, h⟩
    cases t.openers o kind h.lt h.opens
    case inl hb =>
      obtain ⟨b, hb, rfl⟩ := hb
      cases Option.some.inj ((t.pending b hb).open_at.opens ▸ h.opens)
      exact ⟨b, hb, hk⟩
    case inr hf =>
      -- A block that has been closed is not open any more.
      have ⟨c, f⟩ := hf
      have hc := t.source c (List.mem_append_right _ (List.mem_map_of_mem (f := Prod.fst) f.back))
      have := h.deeper (c + 1) (Nat.lt_succ_of_lt f.block.open_at.lt) hc.left
      exact absurd f.block.depth_after (ne_of_gt this)

-- What is known when the first instructions of a well-formed list have been scanned.
structure OnTrack (insts : List Instruction) (arena : Arena) (i : Nat) (s : Scan) : Prop where
  traced    : Traced insts i s
  labelled  : Labelled arena (insts.take i) s
  completes : Completes s.stack ((insts.drop i).map (·.opcode.role))

theorem WellFormed.step (w : WellFormed insts arena)
    (ha : ∀ inst ∈ insts, ∀ id ∈ inst.operands, id < arena.size)
    (hi : insts[i]? = some inst) (t : OnTrack insts arena i s) :
    ∃ s', Scan.Effect arena i inst s s' ∧ OnTrack insts arena (i + 1) s' := by
  have hr := roleAt_eq_of_getElem? hi
  have ⟨hlt, hg⟩ := List.getElem?_eq_some_iff.mp hi
  have hdrop : insts.drop i = inst :: insts.drop (i + 1) := hg ▸ List.drop_eq_getElem_cons hlt
  have hc := t.completes
  rw [hdrop, List.map_cons] at hc
  have hs (h : depthAt insts i = 0) : s.stack = [] := by
    simpa [t.traced.depth] using h
  have hn {slot : Nat} : labelOf arena i inst slot = .ok (named? arena inst slot) :=
    labelOf_eq (ha inst (List.mem_of_getElem? hi))
  suffices h : ∃ s', Scan.Effect arena i inst s s' by
    have ⟨s', e⟩ := h
    exact ⟨s', e, t.traced.step hi e, t.labelled.take_succ hi e, (Completes.effect_iff e).mp hc⟩
  cases h : inst.opcode.role
  case opener kind => exact ⟨_, .opener h⟩
  case divider kind =>
    have ⟨b, rest, n, hs, hk, hb⟩ := (h ▸ hc).divider_inside
    refine ⟨_, .divider (hk ▸ h) hs fun hk => ?_⟩
    cases he : b.hasElse
    case false => rfl
    case true => simp [OpenBlock.Allows, hk, he] at hb
  case closer kind =>
    have ⟨b, rest, hs, hk, _⟩ := Completes.closer_iff.mp (h ▸ hc)
    exact ⟨_, .closer (hk ▸ h) hs⟩
  case jump kinds => exact ⟨_, .jump h (t.traced.isOpen_iff.mpr (w.branches i kinds (h ▸ hr)))⟩
  case label =>
    refine ⟨_, .label h (hs (w.labels i (h ▸ hr))) hn ?_⟩
    have hl : definedLabel? arena inst = some ((named? arena inst 0).getD noLabel) := by
      simp [definedLabel?, h]
    have hd := w.distinct
    rw [← List.take_append_drop i insts, hdrop, List.filterMap_append, ← t.labelled.labels,
      List.filterMap_cons_some hl] at hd
    refine Bool.eq_false_iff.mpr fun hl => ?_
    exact (List.nodup_append.mp hd).right.right _ (Scan.hasLabel_iff.mp hl) _ List.mem_cons_self rfl
  case ret => exact ⟨_, .ret h⟩
  case call slot => exact ⟨_, .call h hn⟩
  case marker => exact ⟨_, .marker h (hs (w.markers i (h ▸ hr)))⟩
  case plain => exact ⟨_, .plain h⟩

theorem WellFormed.exists_flow (w : WellFormed insts arena)
    (ha : ∀ inst ∈ insts, ∀ id ∈ inst.operands, id < arena.size) :
    ∃ flow, ofInstructions insts arena = .ok flow := by
  have ⟨s, h, t⟩ := Scan.run_succeeds (fun hi t => w.step ha hi t)
    ⟨.init, .init, Completes.nil_iff.mpr w.nested⟩
  have p := Labelled.of_run h
  refine ⟨_, ofInstructions_ok_iff.mpr ⟨s, h, ?closed, fun call hc => ?calls, rfl⟩⟩
  case closed => exact Completes.of_nil (by simpa using t.completes)
  case calls =>
    rw [Scan.hasLabel_iff, p.labels]
    exact w.calls (p.calls ▸ List.mem_map_of_mem hc)

theorem WellFormed.of_ok (h : ofInstructions insts arena = .ok flow) : WellFormed insts arena := by
  have ⟨s, hr, hs, hc, _⟩ := ofInstructions_ok_iff.mp h
  have p := Labelled.of_run hr
  refine { nested := ?nested, branches := fun i kinds hi => ?branches,
           labels := fun i => Traced.depth_of_label hr,
           markers := fun i => Traced.depth_of_marker hr,
           distinct := p.labels ▸ p.distinct, calls := fun l hl => ?calls }
  case nested => exact Completes.nil_iff.mp (Completes.of_run hr hs)
  case branches =>
    have ⟨inst, s, s', hm, t, e⟩ := Traced.visits_role hr hi
    cases e
    case jump kinds' hj hb =>
      cases hm.symm.trans hj
      exact t.isOpen_iff.mp hb
    all_goals simp_all
  case calls =>
    rw [← p.calls] at hl
    obtain ⟨call, hm, rfl⟩ := List.mem_map.mp hl
    exact p.labels ▸ Scan.hasLabel_iff.mp (hc call hm)

theorem exists_flow_iff_wellFormed (ha : ∀ inst ∈ insts, ∀ id ∈ inst.operands, id < arena.size) :
    (∃ flow, ofInstructions insts arena = .ok flow) ↔ WellFormed insts arena :=
  ⟨fun ⟨_, h⟩ => .of_ok h, fun w => w.exists_flow ha⟩

-- A call of a label that comes later.
def callsAhead : List Instruction :=
  [(.call, [0]), (.ret, []), (.label, [0]), (.beginLoop, []), (.breakOut, []), (.endLoop, [])].map
    fun (op, operands) => { opcode := op, controls := .flow, operands, position := 0 }

def callsAheadArena : Arena :=
  #[{ components := .zero, selection := .nothing, register := .label, indices := [.imm 7] }]

theorem wellFormed_callsAhead :
    (∀ inst ∈ callsAhead, ∀ id ∈ inst.operands, id < callsAheadArena.size) ∧
      WellFormed callsAhead callsAheadArena := by
  have h : ∀ inst ∈ callsAhead, ∀ id ∈ inst.operands, id < callsAheadArena.size := by decide
  exact ⟨h, (exists_flow_iff_wellFormed h).mp ⟨_, rfl⟩⟩

end ShaderLift.Flow
