import ShaderLift.Proofs.Flow.Scan

/-!
How the stack and the links of a scan stand for the blocks of the instructions that it has seen.
-/

namespace ShaderLift.Flow

variable {insts : List Instruction} {kind : BlockKind} {links links' : List (Nat × Nat)}
variable {block : OpenBlock} {arena : Arena} {inst : Instruction} {s s' : Scan} {o c i : Nat}

-- The links lead from `a` forwards to `b`.
def Ahead (links : List (Nat × Nat)) (a b : Nat) : Prop :=
  a < b ∧ (a, b) ∈ links

-- A block that is open in front of instruction `i`: the links lead from its opener through the
-- instructions that divide it to the last one of them.
structure Pending (insts : List Instruction) (links : List (Nat × Nat)) (i : Nat) (b : OpenBlock) :
    Prop where
  open_at : OpenAt insts b.kind b.opener i
  chain   : List.IsChain (Ahead links) (b.opener :: dividers insts b.opener i)
  last    : (b.opener :: dividers insts b.opener i).getLast? = some b.last
  kinds   : ∀ d ∈ dividers insts b.opener i, roleAt insts d = some (.divider b.kind)
  hasElse : b.kind = .conditional → (dividers insts b.opener i).length = b.hasElse.toNat

-- A block that has been closed: the links lead on to its closer, and from there back.
structure Finished (insts : List Instruction) (links : List (Nat × Nat)) (kind : BlockKind)
    (o c : Nat) : Prop where
  block   : Block insts kind o c
  chain   : List.IsChain (Ahead links) (o :: (dividers insts o c ++ [c]))
  back    : (c, o) ∈ links
  kinds   : ∀ d ∈ dividers insts o c, roleAt insts d = some (.divider kind)
  oneElse : kind = .conditional → (dividers insts o c).length ≤ 1

-- Each block on the stack is as deep as there are blocks below it.
def Levels (insts : List Instruction) : List OpenBlock → Prop
  | [] => True
  | b :: rest => depthAt insts b.opener = rest.length ∧ Levels insts rest

theorem Levels.depth_lt {stack : List OpenBlock} (h : Levels insts stack) {b : OpenBlock}
    (hb : b ∈ stack) : depthAt insts b.opener < stack.length := by
  induction stack <;> cases hb
  case cons.head => simp [h.left]
  case cons.tail hi hb =>
    have := hi h.right hb
    simp only [List.length_cons]
    omega

-- What the positions have in common that links lead away from, or will once it is known where to.
def Scan.sources (s : Scan) : List Nat :=
  s.stack.map (·.last) ++ s.links.map Prod.fst

structure Traced (insts : List Instruction) (i : Nat) (s : Scan) : Prop where
  depth    : depthAt insts i = s.stack.length
  levels   : Levels insts s.stack
  pending  : ∀ b ∈ s.stack, Pending insts s.links i b
  openers  : ∀ o kind, o < i → roleAt insts o = some (.opener kind) →
    (∃ b ∈ s.stack, b.opener = o) ∨ ∃ c, Finished insts s.links kind o c
  closers  : ∀ c kind, c < i → roleAt insts c = some (.closer kind) → ∃ o, Block insts kind o c
  nodup    : s.sources.Nodup
  source   : ∀ a ∈ s.sources, a < i ∧ ∃ r, roleAt insts a = some r ∧ r.isStructural
  inside   : ∀ a b, (a, b) ∈ s.links → ∃ o kind, roleAt insts o = some (.opener kind) ∧
    (a = o ∨ OpenAt insts kind o a) ∧ (b = o ∨ OpenAt insts kind o b)

theorem Ahead.mono {a b : Nat} (h : Ahead links a b) (hl : links ⊆ links') : Ahead links' a b :=
  ⟨h.left, hl h.right⟩

namespace Pending

theorem succ (p : Pending insts links i block) (hl : links ⊆ links')
    (hd : depthAt insts block.opener < depthAt insts (i + 1))
    (hn : dividesAt insts block.opener i = false) : Pending insts links' (i + 1) block := by
  have he : dividers insts block.opener (i + 1) = dividers insts block.opener i := by
    simp [dividers_succ, hn]
  exact {
    open_at := p.open_at.succ hd
    chain := he ▸ p.chain.imp fun _ _ h => h.mono hl
    last := he ▸ p.last
    kinds := he ▸ p.kinds
    hasElse := he ▸ p.hasElse }

-- The last divider of a block lies inside of it.
theorem last_inside (p : Pending insts links i block) :
    block.last = block.opener ∨ OpenAt insts block.kind block.opener block.last := by
  cases List.mem_cons.mp (List.mem_of_getLast? p.last)
  case inl h => exact .inl h
  case inr h =>
    have ⟨hlt, hd⟩ := mem_dividers.mp h
    exact .inr <| p.open_at.mono (dividesAt_iff.mp hd).left (le_of_lt hlt)

theorem last_lt (p : Pending insts links i block) : block.last < i := by
  cases List.mem_cons.mp (List.mem_of_getLast? p.last)
  case inl h => exact h ▸ p.open_at.lt
  case inr h => exact (mem_dividers.mp h).left

theorem chain_append (p : Pending insts links i block) (hl : links ⊆ links')
    (hi : (block.last, i) ∈ links') :
    List.IsChain (Ahead links') (block.opener :: (dividers insts block.opener i ++ [i])) := by
  rw [← List.cons_append]
  refine (p.chain.imp fun _ _ h => h.mono hl).append (List.isChain_singleton i) ?_
  simp [p.last, Ahead, p.last_lt, hi]

end Pending

theorem Finished.mono (f : Finished insts links kind o c) (hl : links ⊆ links') :
    Finished insts links' kind o c where
  block := f.block
  chain := f.chain.imp fun _ _ h => h.mono hl
  back := hl f.back
  kinds := f.kinds
  oneElse := f.oneElse

theorem not_dividesAt {r : Role} (h : roleAt insts i = some r) (hr : ∀ kind, r ≠ .divider kind) :
    dividesAt insts o i = false := by
  by_contra hd
  have ⟨_, _, kind, hk⟩ := dividesAt_iff.mp (Bool.not_eq_false _ ▸ hd)
  exact hr kind (Option.some.inj (h ▸ hk))

namespace Traced

variable {r : Role}

theorem init : Traced insts 0 {} where
  depth := depthAt_zero
  levels := trivial
  pending _ h := nomatch h
  openers _ _ h := nomatch h
  closers _ _ h := nomatch h
  nodup := List.nodup_nil
  source _ h := nomatch h
  inside _ _ h := nomatch h

-- A position in front of `i + 1` that is not in front of `i` is `i`, where the role is known.
theorem openers_succ {P : Nat → BlockKind → Prop} (h : roleAt insts i = some r)
    (hp : ∀ o kind, o < i → roleAt insts o = some (.opener kind) → P o kind)
    (hi : ∀ kind, r = .opener kind → P i kind) (o : Nat) (kind : BlockKind) (ho : o < i + 1)
    (hr : roleAt insts o = some (.opener kind)) : P o kind := by
  cases Nat.lt_succ_iff_lt_or_eq.mp ho
  case inl ho => exact hp o kind ho hr
  case inr ho =>
    subst ho
    exact hi kind (Option.some.inj (h ▸ hr))

theorem closers_succ (t : Traced insts i s) (h : roleAt insts i = some r)
    (hi : ∀ kind, r = .closer kind → ∃ o, Block insts kind o i) (c : Nat) (kind : BlockKind)
    (hc : c < i + 1) (hr : roleAt insts c = some (.closer kind)) : ∃ o, Block insts kind o c := by
  cases Nat.lt_succ_iff_lt_or_eq.mp hc
  case inl hc => exact t.closers c kind hc hr
  case inr hc =>
    subst hc
    exact hi kind (Option.some.inj (h ▸ hr))

theorem source_succ (t : Traced insts i s) {a : Nat} (h : a ∈ s.sources) :
    a < i + 1 ∧ ∃ r, roleAt insts a = some r ∧ r.isStructural :=
  have ⟨hlt, hr⟩ := t.source a h
  ⟨Nat.lt_succ_of_lt hlt, hr⟩

-- What stands at the next instruction is at no other one yet.
theorem sources_succ (t : Traced insts i s) (h : roleAt insts i = some r) (hr : r.isStructural)
    (hperm : s'.sources.Perm (i :: s.sources)) : s'.sources.Nodup ∧
      ∀ a ∈ s'.sources, a < i + 1 ∧ ∃ r, roleAt insts a = some r ∧ r.isStructural := by
  refine ⟨hperm.nodup_iff.mpr (List.nodup_cons.mpr ⟨fun hi => ?_, t.nodup⟩), fun a ha => ?_⟩
  case refine_1 => exact absurd (t.source i hi).left (Nat.lt_irrefl i)
  case refine_2 =>
    cases List.mem_cons.mp (hperm.mem_iff.mp ha)
    case inl ha =>
      subst ha
      exact ⟨Nat.lt_succ_self _, _, h, hr⟩
    case inr ha => exact t.source_succ ha

theorem depth_lt (t : Traced insts i s) {b : OpenBlock} (h : b ∈ s.stack) :
    depthAt insts b.opener < depthAt insts i :=
  t.depth ▸ t.levels.depth_lt h

-- An instruction that opens, divides and closes nothing leaves the blocks as they are.
theorem unchanged (t : Traced insts i s) (h : roleAt insts i = some r) (hr : r.isStructural = false)
    (hs : s'.stack = s.stack) (hl : s'.links = s.links) : Traced insts (i + 1) s' := by
  have hd : depthAt insts (i + 1) = depthAt insts i := by
    rw [depthAt_succ h]
    cases r <;> simp_all [Role.shift, Role.isStructural]
  have hso : s'.sources = s.sources := by simp [Scan.sources, hs, hl]
  have hne : ∀ r', r'.isStructural → r ≠ r' := fun _ h he => by simp_all
  refine {
    depth := by rw [hd, t.depth, hs]
    levels := hs ▸ t.levels
    pending := fun b hb => ?pending
    openers := openers_succ h (hs ▸ hl ▸ t.openers) fun _ he => absurd he (hne _ rfl)
    closers := t.closers_succ h fun _ he => absurd he (hne _ rfl)
    nodup := hso ▸ t.nodup
    source := fun a ha => t.source_succ (hso ▸ ha)
    inside := hl ▸ t.inside }
  case pending =>
    rw [hs] at hb
    refine (t.pending b hb).succ (hl ▸ List.Subset.refl _) (hd ▸ t.depth_lt hb) ?_
    exact not_dividesAt h fun _ => hne _ rfl

theorem opener {op : Opcode} (t : Traced insts i s) (h : roleAt insts i = some (.opener kind)) :
    Traced insts (i + 1) (s.openBlock kind op i) := by
  have hd : depthAt insts (i + 1) = depthAt insts i + 1 := depthAt_succ h
  have hperm : (s.openBlock kind op i).sources.Perm (i :: s.sources) := .refl _
  obtain ⟨hnodup, hsource⟩ := t.sources_succ h rfl hperm
  refine {
    depth := by simp [Scan.openBlock, hd, t.depth]
    levels := ⟨t.depth, t.levels⟩
    pending := fun b hb => ?pending
    openers := openers_succ h ?openers fun _ _ => .inl ⟨_, List.mem_cons_self, rfl⟩
    closers := t.closers_succ h fun _ => Role.noConfusion
    nodup := hnodup
    source := hsource
    inside := t.inside }
  case pending =>
    cases hb
    case head =>
      exact {
        open_at := .start h
        chain := by simp [dividers_self]
        last := by simp [dividers_self]
        kinds := by simp [dividers_self]
        hasElse := by simp [dividers_self] }
    case tail hb =>
      have hlt := t.depth_lt hb
      refine (t.pending b hb).succ (List.Subset.refl _) (by omega) ?_
      exact not_dividesAt h fun _ => Role.noConfusion
  case openers =>
    intro o k ho hr
    exact (t.openers o k ho hr).imp (fun ⟨b, hb, he⟩ => ⟨b, List.mem_cons_of_mem _ hb, he⟩) id

theorem divider {rest : List OpenBlock} {op : Opcode} (t : Traced insts i s)
    (h : roleAt insts i = some (.divider block.kind)) (hs : s.stack = block :: rest)
    (hf : block.kind = .conditional → block.hasElse = false)
    (ho : block.kind = .conditional → op = .orElse) :
    Traced insts (i + 1) (s.divided i op block rest) := by
  have hd : depthAt insts (i + 1) = depthAt insts i := by
    rw [depthAt_succ h]
    exact Int.add_zero _
  have hl : s.links ⊆ (block.last, i) :: s.links := List.subset_cons_self ..
  have hb : block ∈ s.stack := hs ▸ List.mem_cons_self
  have hdepth : depthAt insts i = depthAt insts block.opener + 1 := by
    rw [t.depth, (hs ▸ t.levels : Levels insts (block :: rest)).left, hs]
    rfl
  have p := t.pending block hb
  have hdiv : dividers insts block.opener (i + 1) = dividers insts block.opener i ++ [i] := by
    rw [dividers_succ, dividesAt_iff.mpr ⟨p.open_at.lt, hdepth, _, h⟩]
    rfl
  have hperm : (s.divided i op block rest).sources.Perm (i :: s.sources) := by
    simp only [Scan.sources, Scan.divided, hs, List.map_cons, List.cons_append]
    exact .cons _ List.perm_middle
  obtain ⟨hnodup, hsource⟩ := t.sources_succ h rfl hperm
  refine {
    depth := by simp [Scan.divided, hd, t.depth, hs]
    levels := (hs ▸ t.levels : Levels insts (block :: rest))
    pending := fun b hb => ?pending
    openers := openers_succ h ?openers fun _ => Role.noConfusion
    closers := t.closers_succ h fun _ => Role.noConfusion
    nodup := hnodup
    source := hsource
    inside := fun a b hab => ?inside }
  case pending =>
    cases hb
    case head =>
      exact {
        open_at := p.open_at.succ (hd ▸ t.depth_lt hb)
        chain := hdiv ▸ p.chain_append hl List.mem_cons_self
        last := by
          rw [hdiv, ← List.cons_append]
          exact List.getLast?_concat ..
        kinds := fun d hm => by
          cases List.mem_append.mp (hdiv ▸ hm)
          case inl hm => exact p.kinds d hm
          case inr hm => exact List.mem_singleton.mp hm ▸ h
        hasElse := fun hk => by simp [hdiv, p.hasElse hk, hf hk, ho hk] }
    case tail hb' =>
      have hlt := (hs ▸ t.levels : Levels insts (block :: rest)).right.depth_lt hb'
      have hmem : b ∈ s.stack := hs ▸ List.mem_cons_of_mem _ hb'
      refine (t.pending b hmem).succ hl (hd ▸ t.depth_lt hmem) ?_
      by_contra hdb
      have := (dividesAt_iff.mp (Bool.not_eq_false _ ▸ hdb)).right.left
      have := t.depth
      simp only [hs, List.length_cons] at this
      omega
  case openers =>
    intro o k ho hr
    refine (t.openers o k ho hr).imp (fun ⟨b, hb, he⟩ => ?_) fun ⟨c, f⟩ => ⟨c, f.mono hl⟩
    cases List.mem_cons.mp (hs ▸ hb)
    case inl hb => exact ⟨_, List.mem_cons_self, hb ▸ he⟩
    case inr hb => exact ⟨b, List.mem_cons_of_mem _ hb, he⟩
  case inside =>
    cases hab
    case head => exact ⟨_, _, p.open_at.opens, p.last_inside, .inr p.open_at⟩
    case tail hab => exact t.inside a b hab

theorem closer {rest : List OpenBlock} (t : Traced insts i s)
    (h : roleAt insts i = some (.closer block.kind)) (hs : s.stack = block :: rest) :
    Traced insts (i + 1) (s.closed i block rest) := by
  have hd : depthAt insts (i + 1) = rest.length := by
    rw [depthAt_succ h, t.depth, hs]
    simp [Role.shift]
  have hl : s.links ⊆ (i, block.opener) :: (block.last, i) :: s.links :=
    List.subset_cons_of_subset _ (List.subset_cons_self ..)
  have hlev : Levels insts (block :: rest) := hs ▸ t.levels
  have hb : block ∈ s.stack := hs ▸ List.mem_cons_self
  have p := t.pending block hb
  have hblock : Block insts block.kind block.opener i := {
    open_at := p.open_at
    closes := h
    depth := by
      rw [t.depth, hlev.left, hs]
      rfl }
  have hperm : (s.closed i block rest).sources.Perm (i :: s.sources) := by
    simp only [Scan.sources, Scan.closed, hs, List.map_cons, List.cons_append]
    exact List.perm_middle.trans (.cons _ List.perm_middle)
  obtain ⟨hnodup, hsource⟩ := t.sources_succ h rfl hperm
  refine {
    depth := hd
    levels := hlev.right
    pending := fun b hb => ?pending
    openers := openers_succ h ?openers fun _ => Role.noConfusion
    closers := t.closers_succ h fun _ he => ⟨_, Role.closer.inj he ▸ hblock⟩
    nodup := hnodup
    source := hsource
    inside := fun a b hab => ?inside }
  case pending =>
    have hmem : b ∈ s.stack := hs ▸ List.mem_cons_of_mem _ hb
    refine (t.pending b hmem).succ hl (hd ▸ hlev.right.depth_lt hb) ?_
    exact not_dividesAt h fun _ => Role.noConfusion
  case openers =>
    intro o k ho hr
    cases t.openers o k ho hr
    case inl hb' =>
      obtain ⟨b, hb', he⟩ := hb'
      cases List.mem_cons.mp (hs ▸ hb')
      case inl hb' =>
        subst hb' he
        have hk := Role.opener.inj <| Option.some.inj (p.open_at.opens ▸ hr)
        refine .inr ⟨i, ?_⟩
        exact {
          block := hk ▸ hblock
          chain := p.chain_append hl (List.mem_cons_of_mem _ List.mem_cons_self)
          back := List.mem_cons_self
          kinds := hk ▸ p.kinds
          oneElse := fun hc => p.hasElse (hk.trans hc) ▸ Bool.toNat_le _ }
      case inr hb' => exact .inl ⟨b, hb', he⟩
    case inr f =>
      obtain ⟨c, f⟩ := f
      exact .inr ⟨c, f.mono hl⟩
  case inside =>
    cases hab
    case head => exact ⟨_, _, p.open_at.opens, .inr p.open_at, .inl rfl⟩
    case tail hab =>
      cases hab
      case head => exact ⟨_, _, p.open_at.opens, p.last_inside, .inr p.open_at⟩
      case tail hab => exact t.inside a b hab

theorem step (t : Traced insts i s) (hi : insts[i]? = some inst)
    (e : Scan.Effect arena i inst s s') : Traced insts (i + 1) s' := by
  have hr := roleAt_eq_of_getElem? hi
  cases e
  case opener h => exact t.opener (h ▸ hr)
  case divider block rest h hs hf =>
    refine t.divider (h ▸ hr) hs hf fun hc => ?_
    exact List.mem_singleton.mp <| Opcode.role_eq_divider_iff.mp (hc ▸ h)
  case closer h hs => exact t.closer (h ▸ hr) hs
  case label h _ _ _ =>
    exact t.unchanged (h ▸ hr) rfl Scan.endSubroutine_stack Scan.endSubroutine_links
  case ret h => exact t.unchanged (h ▸ hr) rfl Scan.ret_stack Scan.ret_links
  case call h _ => exact t.unchanged (h ▸ hr) rfl Scan.call_stack Scan.call_links
  case jump h _ | marker h _ | plain h => exact t.unchanged (h ▸ hr) rfl rfl rfl

theorem run_preserves {P : Nat → Scan → Prop}
    (hstep : ∀ {i inst s s'}, insts[i]? = some inst → Traced insts i s → P i s →
      Scan.Effect arena i inst s s' → P (i + 1) s')
    (hp : P 0 {}) (h : Scan.run arena {} 0 insts = .ok s) :
    Traced insts insts.length s ∧ P insts.length s :=
  Scan.run_preserves (P := fun i s => Traced insts i s ∧ P i s)
    (fun hi ⟨t, hp⟩ e => ⟨t.step hi e, hstep hi t hp e⟩) ⟨init, hp⟩ h

theorem of_run (h : Scan.run arena {} 0 insts = .ok s) : Traced insts insts.length s :=
  Scan.run_preserves (fun hi t e => t.step hi e) init h

-- Each instruction of a list that was scanned had its effect on a scan of those in front of it.
theorem visits (h : Scan.run arena {} 0 insts = .ok s) (hi : insts[i]? = some inst) :
    ∃ s s', Traced insts i s ∧ Scan.Effect arena i inst s s' := by
  have ⟨_, hv⟩ := run_preserves (P := fun n _ => ∀ i < n, ∀ inst, insts[i]? = some inst →
    ∃ s s', Traced insts i s ∧ Scan.Effect arena i inst s s') ?step (fun _ h => nomatch h) h
  case step =>
    intro n _ s s' hn t hv e i hlt inst hi
    cases Nat.lt_succ_iff_lt_or_eq.mp hlt
    case inl hlt => exact hv i hlt inst hi
    case inr he =>
      subst he
      cases Option.some.inj (hn ▸ hi)
      exact ⟨s, s', t, e⟩
  exact hv i (lt_length_of_roleAt (roleAt_eq_of_getElem? hi)) inst hi

theorem visits_role (h : Scan.run arena {} 0 insts = .ok s) (hi : roleAt insts i = some r) :
    ∃ inst s s', inst.opcode.role = r ∧ Traced insts i s ∧ Scan.Effect arena i inst s s' := by
  have ⟨inst, hi, hr⟩ := Option.map_eq_some_iff.mp hi
  have ⟨s, s', t, e⟩ := visits h hi
  exact ⟨inst, s, s', hr, t, e⟩

theorem depth_of_label (h : Scan.run arena {} 0 insts = .ok s)
    (hi : roleAt insts i = some .label) : depthAt insts i = 0 := by
  have ⟨_, _, _, hr, t, e⟩ := visits_role h hi
  cases e
  case label _ hs _ _ => simp [t.depth, hs]
  all_goals simp_all

theorem depth_of_marker (h : Scan.run arena {} 0 insts = .ok s)
    (hi : roleAt insts i = some .marker) : depthAt insts i = 0 := by
  have ⟨_, _, _, hr, t, e⟩ := visits_role h hi
  cases e
  case marker _ hs => simp [t.depth, hs]
  all_goals simp_all

theorem depth_nonneg (h : Scan.run arena {} 0 insts = .ok s) (hi : i ≤ insts.length) :
    0 ≤ depthAt insts i := by
  cases Nat.lt_or_eq_of_le hi
  case inl hi =>
    have ⟨_, _, t, _⟩ := visits h (List.getElem?_eq_getElem hi)
    exact t.depth ▸ Int.natCast_nonneg _
  case inr hi => exact hi ▸ (of_run h).depth ▸ Int.natCast_nonneg _

end Traced

end ShaderLift.Flow
