import ShaderLift.Proofs.Flow.Trace
import Mathlib.Logic.Relation

/-!
The links of a flow follow the blocks: forwards from an opener through the dividers of its block to
its closer, and from there back. Nothing else is linked.
-/

namespace ShaderLift.Flow

variable {insts : List Instruction} {arena : Arena} {flow : Flow} {s : Scan} {kind : BlockKind}
variable {o c a b n : Nat}

-- The flow that a scan of `n` instructions stands for.
def Scan.toFlow (s : Scan) (n : Nat) : Flow where
  links := (List.range n).map fun i => List.lookup i s.links
  subroutines := (s.endSubroutine n).done
  mainEnd := s.mainEnd.getD n
  mainReturns := s.mainReturns

theorem ofInstructions_ok_iff :
    ofInstructions insts arena = .ok flow ↔
      ∃ s, Scan.run arena {} 0 insts = .ok s ∧ s.stack = [] ∧
        (∀ call ∈ s.calls, s.hasLabel call.2) ∧ s.toFlow insts.length = flow := by
  unfold ofInstructions
  cases hr : Scan.run arena {} 0 insts
  case error => simp [bind, Except.bind]
  case ok s =>
    cases hc : s.expectClosed
    case error e =>
      have hne : s.stack ≠ [] := fun h => by
        rw [(Scan.expectClosed_ok_iff (u := ())).mpr h] at hc
        cases hc
      simp [bind, Except.bind, hc, hne]
    case ok =>
      have hs := Scan.expectClosed_ok_iff.mp hc
      cases hf : s.calls.find? (fun call => !s.hasLabel call.2)
      case some call =>
        have hm := List.mem_of_find?_eq_some hf
        have hp := List.find?_some hf
        simp only [bind, Except.bind, hc, Scan.endSubroutine_calls, Scan.endSubroutine_hasLabel, hf]
        refine ⟨(nomatch ·), fun ⟨_, he, _, ha, _⟩ => ?_⟩
        cases he
        simp [ha call hm] at hp
      case none =>
        have ha := List.find?_eq_none.mp hf
        simp only [Bool.not_eq_true', Bool.not_eq_false] at ha
        simp only [bind, Except.bind, hc, Scan.endSubroutine_calls, Scan.endSubroutine_hasLabel, hf]
        constructor
        case mp =>
          intro h
          exact ⟨s, rfl, hs, ha, by simpa [Scan.toFlow, pure, Except.pure] using h⟩
        case mpr =>
          rintro ⟨_, he, _, _, rfl⟩
          cases he
          simp [Scan.toFlow, pure, Except.pure]

theorem lookup_eq_some_iff_mem {links : List (Nat × Nat)} (h : (links.map Prod.fst).Nodup) :
    List.lookup a links = some b ↔ (a, b) ∈ links := by
  rw [List.lookup_eq_some_iff]
  refine ⟨fun ⟨l, r, he, _⟩ => by simp [he], fun hm => ?_⟩
  have ⟨l, r, he⟩ := List.append_of_mem hm
  refine ⟨l, r, he, fun p hp => ?_⟩
  rw [he, List.map_append, List.nodup_append] at h
  exact bne_iff_ne.mpr (h.right.right _ (List.mem_map_of_mem hp) _ List.mem_cons_self).symm

-- With one link from each position, a link is looked up exactly if it was made.
theorem Traced.link?_eq_some_iff (t : Traced insts insts.length s) :
    (s.toFlow insts.length).link? a = some b ↔ (a, b) ∈ s.links := by
  have hn : (s.links.map Prod.fst).Nodup := (List.nodup_append.mp t.nodup).right.left
  rw [← lookup_eq_some_iff_mem hn]
  by_cases ha : a < insts.length
  case pos => simp [link?, Scan.toFlow, ha]
  case neg =>
    have h : List.lookup a s.links = none := by
      refine Option.eq_none_iff_forall_ne_some.mpr fun b hb => ha ?_
      have hm := List.mem_map_of_mem (f := Prod.fst) ((lookup_eq_some_iff_mem hn).mp hb)
      exact (t.source a (List.mem_append_right _ hm)).left
    simp [link?, Scan.toFlow, ha, h]

theorem Traced.link?_eq_none (t : Traced insts insts.length s)
    (h : ∀ r, roleAt insts a = some r → r.isStructural = false) :
    (s.toFlow insts.length).link? a = none := by
  refine Option.eq_none_iff_forall_ne_some.mpr fun b hb => ?_
  have hm := List.mem_map_of_mem (f := Prod.fst) (t.link?_eq_some_iff.mp hb)
  have ⟨_, r, hr, hs⟩ := t.source a (List.mem_append_right _ hm)
  simp [h r hr] at hs

-- The link of `a` leads forwards to `b`.
def Next (flow : Flow) (a b : Nat) : Prop :=
  a < b ∧ flow.link? a = some b

def Leads (flow : Flow) : Nat → Nat → Prop :=
  Relation.TransGen flow.Next

-- The links from the opener `o` go through the dividers of its block, in order, to the closer `c`,
-- and from there back.
structure Linked (flow : Flow) (insts : List Instruction) (kind : BlockKind) (o c : Nat) :
    Prop where
  block   : Block insts kind o c
  chain   : List.IsChain flow.Next (o :: (dividers insts o c ++ [c]))
  back    : flow.link? c = some o
  kinds   : ∀ d ∈ dividers insts o c, roleAt insts d = some (.divider kind)
  oneElse : kind = .conditional → (dividers insts o c).length ≤ 1

theorem Finished.linked (t : Traced insts insts.length s) (f : Finished insts s.links kind o c) :
    Linked (s.toFlow insts.length) insts kind o c where
  block := f.block
  chain := f.chain.imp fun _ _ h => ⟨h.left, t.link?_eq_some_iff.mpr h.right⟩
  back := t.link?_eq_some_iff.mpr f.back
  kinds := f.kinds
  oneElse := f.oneElse

namespace Linked

theorem leads (l : Linked flow insts kind o c) : flow.Leads o c :=
  (l.chain.imp fun _ _ => Relation.TransGen.single).rel_cons (by simp)

-- The position behind `a` in the chain is where its link leads.
theorem exists_next (l : Linked flow insts kind o c) (ha : a ∈ o :: dividers insts o c) :
    ∃ b ∈ o :: (dividers insts o c ++ [c]), flow.Next a b := by
  have ⟨l₁, l₂, he⟩ := List.append_of_mem ha
  have hc := l.chain
  rw [← List.cons_append, he, List.append_assoc] at hc ⊢
  have ⟨b, hb⟩ : ∃ b, (l₂ ++ [c]).head? = some b := by cases l₂ <;> simp
  refine ⟨b, ?_, (List.isChain_cons.mp hc.right_of_append).left b hb⟩
  exact List.mem_append_right _ <| List.mem_cons_of_mem _ <| List.mem_of_head? hb

-- A forward link from a position of the chain leads to a position of the chain.
theorem mem_of_next (l : Linked flow insts kind o c) (ha : a ∈ o :: (dividers insts o c ++ [c]))
    (h : flow.Next a b) : b ∈ o :: (dividers insts o c ++ [c]) := by
  rw [← List.cons_append] at ha
  cases List.mem_append.mp ha
  case inl ha =>
    have ⟨x, hx, hn⟩ := l.exists_next ha
    cases Option.some.inj (hn.right ▸ h.right)
    exact hx
  case inr ha =>
    cases List.mem_singleton.mp ha
    cases Option.some.inj (l.back ▸ h.right)
    exact List.mem_cons_self

theorem mem_of_leads (l : Linked flow insts kind o c) (h : flow.Leads o b) :
    b ∈ o :: (dividers insts o c ++ [c]) := by
  induction h
  case single h => exact l.mem_of_next List.mem_cons_self h
  case tail h hi => exact l.mem_of_next hi h

-- The only closer that an opener leads to is the one of its own block.
theorem eq_of_leads {kind' : BlockKind} (l : Linked flow insts kind o c) (h : flow.Leads o b)
    (hb : roleAt insts b = some (.closer kind')) : b = c := by
  cases List.mem_cons.mp (l.mem_of_leads h)
  case inl ho =>
    subst ho
    cases Option.some.inj (hb ▸ l.block.open_at.opens)
  case inr hd =>
    cases List.mem_append.mp hd
    case inl hd => cases Option.some.inj (l.kinds b hd ▸ hb)
    case inr hd => exact List.mem_singleton.mp hd

end Linked

-- A scan that ends with no open block has closed each block that it has opened.
theorem Traced.linked_of_opener (t : Traced insts insts.length s) (hs : s.stack = [])
    (h : roleAt insts o = some (.opener kind)) :
    ∃ c, Linked (s.toFlow insts.length) insts kind o c := by
  cases t.openers o kind (lt_length_of_roleAt h) h
  case inl hb => simp [hs] at hb
  case inr hf => exact hf.imp fun _ => Finished.linked t

theorem Traced.linked_of_closer (t : Traced insts insts.length s) (hs : s.stack = [])
    (h : roleAt insts c = some (.closer kind)) :
    ∃ o, Linked (s.toFlow insts.length) insts kind o c := by
  have ⟨o, b⟩ := t.closers c kind (lt_length_of_roleAt h) h
  have ⟨c', l⟩ := t.linked_of_opener hs b.open_at.opens
  exact ⟨o, l.block.closer_unique b ▸ l⟩

-- A divider belongs to the block that was opened last.
theorem Traced.linked_of_divider (hr : Scan.run arena {} 0 insts = .ok s) (hs : s.stack = [])
    (h : roleAt insts a = some (.divider kind)) :
    ∃ o c, Linked (s.toFlow insts.length) insts kind o c ∧ a ∈ dividers insts o c := by
  have ⟨_, s', _, hrole, t, e⟩ := visits_role hr h
  have ⟨block, rest, hk, hst⟩ : ∃ block rest, block.kind = kind ∧ s'.stack = block :: rest := by
    cases e
    case divider block rest hrole' hst _ =>
      cases hrole.symm.trans hrole'
      exact ⟨block, rest, rfl, hst⟩
    all_goals simp_all
  have p := t.pending block (by simp [hst])
  have hopens := hk ▸ p.open_at.opens
  have ⟨c, l⟩ := (Traced.of_run hr).linked_of_opener hs hopens
  have hd : depthAt insts a = depthAt insts block.opener + 1 := by
    have hlevel := (hst ▸ t.levels).left
    simp [t.depth, hst, hlevel]
  refine ⟨block.opener, c, l, mem_dividers.mpr ⟨?_, dividesAt_iff.mpr ⟨p.open_at.lt, hd, _, h⟩⟩⟩
  refine Nat.lt_of_le_of_ne (Nat.le_of_not_lt fun hlt => ?_) fun he => ?_
  case refine_1 =>
    have := p.open_at.deeper (c + 1) (Nat.lt_succ_of_lt l.block.open_at.lt) hlt
    exact absurd l.block.depth_after (ne_of_gt this)
  case refine_2 => cases Option.some.inj (h ▸ he ▸ l.block.closes)

section

variable (h : ofInstructions insts arena = .ok flow)

include h

theorem linked_of_opener (ho : roleAt insts o = some (.opener kind)) :
    ∃ c, Linked flow insts kind o c := by
  obtain ⟨s, hr, hs, -, rfl⟩ := ofInstructions_ok_iff.mp h
  exact (Traced.of_run hr).linked_of_opener hs ho

theorem linked_of_divider (ha : roleAt insts a = some (.divider kind)) :
    ∃ o c, Linked flow insts kind o c ∧ a ∈ dividers insts o c := by
  obtain ⟨s, hr, hs, -, rfl⟩ := ofInstructions_ok_iff.mp h
  exact Traced.linked_of_divider hr hs ha

theorem linked_of_closer (hc : roleAt insts c = some (.closer kind)) :
    ∃ o, Linked flow insts kind o c := by
  obtain ⟨s, hr, hs, -, rfl⟩ := ofInstructions_ok_iff.mp h
  exact (Traced.of_run hr).linked_of_closer hs hc

theorem depth_nonneg (hi : a ≤ insts.length) : 0 ≤ depthAt insts a :=
  have ⟨_, hr, _⟩ := ofInstructions_ok_iff.mp h
  Traced.depth_nonneg hr hi

end

theorem links_follow_blocks (h : ofInstructions insts arena = .ok flow) :
    flow.links.length = insts.length ∧
    (∀ o kind, roleAt insts o = some (.opener kind) → ∃ c, Linked flow insts kind o c) ∧
    (∀ i, (∀ r, roleAt insts i = some r → r.isStructural = false) → flow.link? i = none) ∧
    (∀ c kind, roleAt insts c = some (.closer kind) →
      ∃! o, (∃ kind', roleAt insts o = some (.opener kind')) ∧ flow.Leads o c) ∧
    ∀ o c o' c' kind kind', Block insts kind o c → Block insts kind' o' c' → o ≠ o' →
      c ≠ c' ∧ (c < o' ∨ c' < o ∨ (o < o' ∧ c' < c) ∨ (o' < o ∧ c < c')) := by
  obtain ⟨s, hr, -, -, rfl⟩ := ofInstructions_ok_iff.mp h
  have t := Traced.of_run hr
  refine ⟨by simp [Scan.toFlow], fun _ _ => linked_of_opener h, fun _ => t.link?_eq_none,
    ?closers, ?nest⟩
  case closers =>
    intro c kind hc
    have ⟨o, l⟩ := linked_of_closer h hc
    refine ⟨o, ⟨⟨kind, l.block.open_at.opens⟩, l.leads⟩, ?_⟩
    rintro o' ⟨⟨kind', ho'⟩, hl'⟩
    have ⟨c', l'⟩ := linked_of_opener h ho'
    cases l'.eq_of_leads hl' hc
    exact l'.block.opener_unique l.block
  case nest =>
    intro o c o' c' kind kind' b b' hne
    refine ⟨fun he => hne (b.opener_unique (he ▸ b')), ?_⟩
    cases Nat.lt_or_gt_of_ne hne
    case inl hlt =>
      have := b.disjoint_or_inside b' hlt
      omega
    case inr hlt =>
      have := b'.disjoint_or_inside b hlt
      omega

-- An `if` with an `else`, then a `switch` inside of a `loop`.
def nestedBlocks : List Instruction :=
  [.beginIf, .orElse, .endIf, .beginLoop, .beginSwitch, .caseLabel, .breakOut, .defaultLabel,
    .endSwitch, .endLoop].map fun op => { opcode := op, controls := .flow, position := 0 }

def nestedBlocksFlow : Flow where
  links := [some 1, some 2, some 0, some 9, some 5, some 7, none, some 8, some 4, some 3]
  subroutines := []
  mainEnd := 10
  mainReturns := false

theorem links_follow_nestedBlocks :
    ofInstructions nestedBlocks #[] = .ok nestedBlocksFlow ∧
      ∃ c, Linked nestedBlocksFlow nestedBlocks .choice 4 c := by
  have h : ofInstructions nestedBlocks #[] = .ok nestedBlocksFlow := rfl
  exact ⟨h, (links_follow_blocks h).right.left 4 .choice rfl⟩

end ShaderLift.Flow
