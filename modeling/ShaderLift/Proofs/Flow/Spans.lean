import ShaderLift.Proofs.Flow.Links

/-!
The main function and the subroutines cut an instruction list into spans. They are apart from each
other, hold whole blocks, and leave out only labels and what nothing can reach.
-/

namespace ShaderLift

-- The instructions from `first` on, in front of `stop`.
structure Flow.Span where
  first : Nat
  stop  : Nat
  deriving DecidableEq, Repr

def Subroutine.body (sub : Subroutine) : Flow.Span :=
  ⟨sub.start + 1, sub.stop⟩

namespace Flow

instance : Membership Nat Span where
  mem r k := r.first ≤ k ∧ k < r.stop

instance {r : Span} {k : Nat} : Decidable (k ∈ r) :=
  inferInstanceAs (Decidable (r.first ≤ k ∧ k < r.stop))

-- The bodies of the main function and of the subroutines.
def bodies (flow : Flow) : List Span :=
  ⟨0, flow.mainEnd⟩ :: flow.subroutines.map Subroutine.body

-- No link leads out of a span.
def Span.Closed (flow : Flow) (r : Span) : Prop :=
  ∀ a ∈ r, ∀ b, flow.link? a = some b → b ∈ r

def returnsAt (insts : List Instruction) (k : Nat) : Prop :=
  roleAt insts k = some .ret ∧ depthAt insts k = 0

-- A function ends at a label and at a `ret` that stands in no block.
def endsAt (insts : List Instruction) (k : Nat) : Prop :=
  roleAt insts k = some .label ∨ returnsAt insts k

-- Behind the end of a function, and in front of the next label.
def DeadAt (insts : List Instruction) (k : Nat) : Prop :=
  ∃ r ≤ k, returnsAt insts r ∧ ∀ m, r < m → m ≤ k → roleAt insts m ≠ some .label

-- A span of whole blocks in which no function ends.
structure Body (insts : List Instruction) (r : Span) : Prop where
  ordered : r.first ≤ r.stop
  first   : depthAt insts r.first = 0
  stop    : depthAt insts r.stop = 0
  goes_on : ∀ k ∈ r, ¬ endsAt insts k

-- Bodies that cover all instructions before `i`, up to labels and what nothing can reach.
structure Cut (insts : List Instruction) (i : Nat) (spans : List Span) : Prop where
  body    : ∀ r ∈ spans, Body insts r
  within  : ∀ r ∈ spans, r.stop ≤ i
  sorted  : spans.Pairwise fun r r' => r.stop < r'.first
  covered : ∀ k < i, (∃ r ∈ spans, k ∈ r) ∨ roleAt insts k = some .label ∨ DeadAt insts k

-- The bodies that have ended in front of instruction `i`, and where the one starts that has not.
inductive Parted (insts : List Instruction) (i : Nat) (spans : List Span) : Option Nat → Prop
  | outside {k} (cut : Cut insts i spans) (before : i = k + 1) (dead : DeadAt insts k) :
      Parted insts i spans none
  | inside {a} (cut : Cut insts a spans) (apart : ∀ r ∈ spans, r.stop < a) (le : a ≤ i)
      (first : depthAt insts a = 0) (goes_on : ∀ k, a ≤ k → k < i → ¬ endsAt insts k) :
      Parted insts i spans (some a)

variable {insts : List Instruction} {arena : Arena} {inst : Instruction} {flow : Flow}
variable {s s' : Scan} {spans : List Span} {entered : Option Nat} {a b i k : Nat}

theorem DeadAt.succ (h : DeadAt insts k) (hn : roleAt insts (k + 1) ≠ some .label) :
    DeadAt insts (k + 1) := by
  have ⟨r, hr, hret, hl⟩ := h
  refine ⟨r, Nat.le_succ_of_le hr, hret, fun m hm hk => ?_⟩
  cases Nat.lt_or_eq_of_le hk
  case inl hk => exact hl m hm (Nat.le_of_lt_succ hk)
  case inr hk => exact hk ▸ hn

theorem DeadAt.of_returnsAt (h : returnsAt insts k) : DeadAt insts k :=
  ⟨k, le_refl _, h, fun _ hm hk => absurd hm (Nat.not_lt_of_le hk)⟩

theorem Cut.succ (c : Cut insts i spans) (h : roleAt insts i = some .label ∨ DeadAt insts i) :
    Cut insts (i + 1) spans where
  body := c.body
  within r hr := Nat.le_succ_of_le (c.within r hr)
  sorted := c.sorted
  covered k hk := by
    cases Nat.lt_succ_iff_lt_or_eq.mp hk
    case inl hk => exact c.covered k hk
    case inr hk => exact hk ▸ .inr h

namespace Parted

-- The bodies when the one that has not ended does.
def finish (spans : List Span) (entered : Option Nat) (i : Nat) : List Span :=
  spans ++ (entered.map (⟨·, i⟩)).toList

theorem cut (p : Parted insts i spans entered) (h : depthAt insts i = 0) :
    Cut insts i (finish spans entered i) := by
  cases p
  case outside c _ _ => simpa [finish] using c
  case inside a c hap hle hf hg =>
    have hm {r : Span} (hr : r ∈ finish spans (some a) i) : r ∈ spans ∨ r = ⟨a, i⟩ := by
      simpa [finish] using hr
    refine { body := fun r hr => ?body, within := fun r hr => ?within, sorted := ?sorted,
             covered := fun k hk => ?covered }
    case body =>
      cases hm hr
      case inl hr => exact c.body r hr
      case inr hr => exact hr ▸ ⟨hle, hf, h, fun k hk => hg k hk.left hk.right⟩
    case within =>
      cases hm hr
      case inl hr => exact le_trans (c.within r hr) hle
      case inr hr => exact hr ▸ le_refl _
    case sorted =>
      refine List.pairwise_append.mpr ⟨c.sorted, List.pairwise_singleton .., fun r hr r' hr' => ?_⟩
      cases List.mem_singleton.mp hr'
      exact hap r hr
    case covered =>
      by_cases hak : a ≤ k
      case pos => exact .inl ⟨⟨a, i⟩, by simp [finish], hak, hk⟩
      case neg =>
        refine (c.covered k (Nat.lt_of_not_le hak)).imp_left fun ⟨r, hr, hk⟩ => ?_
        exact ⟨r, List.mem_append_left _ hr, hk⟩

theorem skip (p : Parted insts i spans entered) (h : ¬ endsAt insts i) :
    Parted insts (i + 1) spans entered := by
  cases p
  case outside c hi hd =>
    subst hi
    have hd := hd.succ fun hl => h (.inl hl)
    exact .outside (c.succ (.inr hd)) rfl hd
  case inside c hap hle hf hg =>
    refine .inside c hap (Nat.le_succ_of_le hle) hf fun k hk hlt => ?_
    cases Nat.lt_succ_iff_lt_or_eq.mp hlt
    case inl hlt => exact hg k hk hlt
    case inr hlt => exact hlt ▸ h

theorem label (p : Parted insts i spans entered) (h : roleAt insts i = some .label)
    (hd : depthAt insts i = 0) : Parted insts (i + 1) (finish spans entered i) (some (i + 1)) := by
  have c := p.cut hd
  refine .inside (c.succ (.inl h)) (fun r hr => Nat.lt_succ_of_le (c.within r hr)) (le_refl _) ?_ ?_
  case refine_1 => simp [depthAt_succ h, hd, Role.shift]
  case refine_2 => exact fun k hk hlt => absurd hlt (Nat.not_lt_of_le hk)

theorem ret (p : Parted insts i spans entered) (h : returnsAt insts i) :
    Parted insts (i + 1) (finish spans entered i) none :=
  have hd := DeadAt.of_returnsAt h
  .outside ((p.cut h.right).succ (.inr hd)) rfl hd

end Parted

namespace Scan

-- The bodies that a scan has seen the end of.
def ended (s : Scan) : List Span :=
  match s.mainEnd with
  | none => []
  | some e => ⟨0, e⟩ :: s.done.map Subroutine.body

-- Where the body starts that a scan is in.
def entered? (s : Scan) : Option Nat :=
  match s.mainEnd with
  | none => some 0
  | some _ => s.current.map (·.2 + 1)

-- Subroutines come after the main function.
def MainFirst (s : Scan) : Prop :=
  s.mainEnd = none → s.current = none ∧ s.done = []

theorem ended_enterSubroutine {l : UInt32} (h : s.MainFirst) :
    (s.enterSubroutine i l).ended = Parted.finish s.ended s.entered? i ∧
      (s.enterSubroutine i l).entered? = some (i + 1) := by
  cases hm : s.mainEnd
  case none =>
    have ⟨hc, hd⟩ := h hm
    simp [ended, entered?, enterSubroutine, endSubroutine, Parted.finish, hm, hc, hd]
  case some =>
    cases hc : s.current
    all_goals simp [ended, entered?, enterSubroutine, endSubroutine, Parted.finish, hm, hc,
      Subroutine.body]

theorem ended_ret (h : s.MainFirst) (hs : s.stack = []) :
    (s.ret i).ended = Parted.finish s.ended s.entered? i ∧ (s.ret i).entered? = none := by
  cases hm : s.mainEnd
  case none =>
    have ⟨hc, hd⟩ := h hm
    simp [ended, entered?, Scan.ret, Parted.finish, hm, hc, hd, hs]
  case some =>
    cases hc : s.current
    all_goals simp [ended, entered?, Scan.ret, endSubroutine, Parted.finish, hm, hc, hs,
      Subroutine.body]

theorem bodies_toFlow {n : Nat} (h : s.MainFirst) :
    (s.toFlow n).bodies = Parted.finish s.ended s.entered? n := by
  cases hm : s.mainEnd
  case none =>
    have ⟨hc, hd⟩ := h hm
    simp [bodies, toFlow, ended, entered?, endSubroutine, Parted.finish, hm, hc, hd]
  case some =>
    cases hc : s.current
    all_goals simp [bodies, toFlow, ended, entered?, endSubroutine, Parted.finish, hm, hc,
      Subroutine.body]

theorem MainFirst.step (h : s.MainFirst) (e : Effect arena i inst s s') : s'.MainFirst := by
  cases e
  case label =>
    intro hm
    simp [enterSubroutine] at hm
  case ret =>
    unfold Scan.ret
    split <;> try split <;> try split
    case isTrue | isFalse.isFalse.isFalse => exact h
    case isFalse.isTrue hc =>
      intro hm
      simp [h (endSubroutine_mainEnd ▸ hm)] at hc
    case isFalse.isFalse.isTrue => exact fun hm => nomatch hm
  case call l _ _ => cases l <;> exact h
  all_goals exact h

-- The bodies of a scan, read off its fields.
structure Split (insts : List Instruction) (i : Nat) (s : Scan) : Prop where
  first  : s.MainFirst
  parted : Parted insts i s.ended s.entered?

theorem Split.init : Split insts 0 {} where
  first _ := ⟨rfl, rfl⟩
  parted := .inside ⟨nofun, nofun, List.Pairwise.nil, nofun⟩ nofun (le_refl _) depthAt_zero nofun

theorem Split.step (p : Split insts i s) (t : Traced insts i s) (hi : insts[i]? = some inst)
    (e : Effect arena i inst s s') : Split insts (i + 1) s' := by
  refine ⟨p.first.step e, ?_⟩
  have hr := roleAt_eq_of_getElem? hi
  have hd (hs : s.stack = []) : depthAt insts i = 0 := by simp [t.depth, hs]
  have skip (hl : inst.opcode.role ≠ .label) (hn : inst.opcode.role ≠ .ret) :
      Parted insts (i + 1) s.ended s.entered? :=
    p.parted.skip fun h => by simp_all [endsAt, returnsAt]
  cases e
  case label l h hs _ _ =>
    have ⟨he, hc⟩ := ended_enterSubroutine (i := i) (l := l.getD noLabel) p.first
    exact he ▸ hc ▸ p.parted.label (h ▸ hr) (hd hs)
  case ret h =>
    by_cases hs : s.stack = []
    case pos =>
      have ⟨he, hc⟩ := ended_ret (i := i) p.first hs
      exact he ▸ hc ▸ p.parted.ret ⟨h ▸ hr, hd hs⟩
    case neg =>
      have hret : s.ret i = s := by simp [Scan.ret, hs]
      have hne : depthAt insts i ≠ 0 := by simp [t.depth, hs]
      rw [hret]
      exact p.parted.skip fun hend => by simp_all [endsAt, returnsAt]
  case call l h _ =>
    have := skip (by simp [h]) (by simp [h])
    cases l <;> exact this
  case opener h | divider h _ _ | closer h _ | jump h _ | marker h _ | plain h =>
    exact skip (by simp [h]) (by simp [h])

end Scan

theorem cut_bodies (h : ofInstructions insts arena = .ok flow) :
    Cut insts insts.length flow.bodies := by
  obtain ⟨s, hr, hs, -, rfl⟩ := ofInstructions_ok_iff.mp h
  have ⟨t, p⟩ := Traced.run_preserves (fun hi t p e => Scan.Split.step p t hi e) .init hr
  exact Scan.bodies_toFlow p.first ▸ p.parted.cut (by simp [t.depth, hs])

-- A link from one position of a block to another does not leave a span that holds whole blocks.
theorem closed_of_depth_zero {r : Span} (h : ofInstructions insts arena = .ok flow)
    (hf : depthAt insts r.first = 0) (hs : depthAt insts r.stop = 0) : r.Closed flow := by
  obtain ⟨s, hr, -, -, rfl⟩ := ofInstructions_ok_iff.mp h
  have t := Traced.of_run hr
  intro a ⟨hfa, has⟩ b hb
  have ⟨o, kind, ho, ha, hb⟩ := t.inside a b (t.link?_eq_some_iff.mp hb)
  have hpos := Traced.depth_nonneg hr (le_of_lt (lt_length_of_roleAt ho))
  have hoa : r.first ≤ o ∧ o < r.stop := by
    cases ha
    case inl ha => exact ha ▸ ⟨hfa, has⟩
    case inr ha =>
      refine ⟨?_, lt_trans ha.lt has⟩
      by_contra hlt
      have := ha.deeper r.first (Nat.lt_of_not_le hlt) hfa
      omega
  cases hb
  case inl hb => exact hb ▸ hoa
  case inr hb =>
    refine ⟨le_trans hoa.left (le_of_lt hb.lt), ?_⟩
    by_contra hlt
    have := hb.deeper r.stop hoa.right (Nat.le_of_not_lt hlt)
    omega

theorem depth_of_marker (h : ofInstructions insts arena = .ok flow)
    (hk : roleAt insts k = some .marker) : depthAt insts k = 0 :=
  have ⟨_, hr, _⟩ := ofInstructions_ok_iff.mp h
  Traced.depth_of_marker hr hk

theorem depth_length (h : ofInstructions insts arena = .ok flow) :
    depthAt insts insts.length = 0 := by
  obtain ⟨s, hr, hs, -, -⟩ := ofInstructions_ok_iff.mp h
  simp [(Traced.of_run hr).depth, hs]

theorem bodies_partition (h : ofInstructions insts arena = .ok flow) :
    (flow.subroutines.map (·.start)).Pairwise (· < ·) ∧
    flow.bodies.Pairwise (fun r r' => ∀ k, ¬ (k ∈ r ∧ k ∈ r')) ∧
    (∀ r ∈ flow.bodies, r.first ≤ r.stop ∧ r.stop ≤ insts.length ∧
      (∀ k ∈ r, roleAt insts k ≠ some .label ∧ ¬ returnsAt insts k) ∧ r.Closed flow) ∧
    (∀ k < insts.length, (∀ r ∈ flow.bodies, k ∉ r) →
      roleAt insts k = some .label ∨ DeadAt insts k) ∧
    ∀ m m', roleAt insts m = some .marker →
      (m' = insts.length ∨ roleAt insts m' = some .marker) → Span.Closed flow ⟨m + 1, m'⟩ := by
  have c := cut_bodies h
  refine ⟨?order, ?apart, fun r hr => ?body, fun k hk hn => ?rest, fun m m' hm hm' => ?markers⟩
  case order =>
    refine List.pairwise_map.mpr <| List.Pairwise.imp_of_mem ?_ <|
      List.pairwise_map.mp (List.pairwise_cons.mp c.sorted).right
    intro sub sub' hm _ hlt
    have := (c.body _ (List.mem_cons_of_mem _ (List.mem_map_of_mem hm))).ordered
    simp only [Subroutine.body] at this hlt
    omega
  case apart =>
    refine c.sorted.imp_of_mem fun {r r'} _ _ hlt k hk => ?_
    have := hk.left.right
    have := hk.right.left
    omega
  case body =>
    have b := c.body r hr
    refine ⟨b.ordered, c.within r hr, fun k hk => not_or.mp (b.goes_on k hk), ?_⟩
    exact closed_of_depth_zero h b.first b.stop
  case rest =>
    exact (c.covered k hk).resolve_left fun ⟨r, hr, hk⟩ => hn r hr hk
  case markers =>
    refine closed_of_depth_zero h ?first ?stop
    case first => simp [depthAt_succ hm, depth_of_marker h hm, Role.shift]
    case stop => exact hm'.elim (· ▸ depth_length h) (depth_of_marker h)

-- A main function with a `ret` in a block and one behind it, code that nothing reaches, and a
-- subroutine.
def mainAndSubroutine : List Instruction :=
  [.hsForkPhase, .beginIf, .ret, .endIf, .ret, .nop, .label, .beginLoop, .breakOut, .endLoop,
    .ret].map fun op => { opcode := op, controls := .flow, position := 0 }

def mainAndSubroutineFlow : Flow where
  links := [none, some 3, none, some 1, none, none, none, some 9, none, some 7, none]
  subroutines := [⟨noLabel, 6, 10⟩]
  mainEnd := 4
  mainReturns := true

theorem bodies_partition_mainAndSubroutine :
    ofInstructions mainAndSubroutine #[] = .ok mainAndSubroutineFlow ∧
      mainAndSubroutineFlow.bodies = [⟨0, 4⟩, ⟨7, 10⟩] ∧
      (roleAt mainAndSubroutine 5 = some .label ∨ DeadAt mainAndSubroutine 5) ∧
      Span.Closed mainAndSubroutineFlow ⟨1, 11⟩ := by
  have h : ofInstructions mainAndSubroutine #[] = .ok mainAndSubroutineFlow := rfl
  have ⟨_, _, _, hrest, hmarkers⟩ := bodies_partition h
  exact ⟨h, rfl, hrest 5 (by decide) (by decide), hmarkers 0 11 rfl (.inl rfl)⟩

end Flow

end ShaderLift
