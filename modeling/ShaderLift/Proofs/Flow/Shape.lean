import ShaderLift.Proofs.Flow.Spans
import ShaderLift.Proofs.Text.Braces

/-!
Braces that show the block structure. Where each instruction writes the braces of its role, those of
a block lie between its opener and its closer, and whole blocks are balanced.
-/

namespace ShaderLift.Flow

-- The braces that an instruction in some role writes.
def Role.Shows : Role → List Char → Prop
  | opener _, word => word = [openBrace]
  | divider .conditional, word => word = [closeBrace, openBrace]
  | closer _, word => word = [closeBrace]
  | _, word => Balanced word

def Span.positions (r : Span) : List Nat :=
  List.range' r.first (r.stop - r.first)

-- What the instructions of a span write.
def Span.word (r : Span) (word : Nat → List Char) : List Char :=
  r.positions.flatMap word

def Shown (insts : List Instruction) (word : Nat → List Char) (r : Span) : Prop :=
  ∀ i ∈ r, ∃ role, roleAt insts i = some role ∧ role.Shows (word i)

-- A span that cuts no block.
structure Span.Whole (insts : List Instruction) (r : Span) : Prop where
  ordered : r.first ≤ r.stop
  within  : r.stop ≤ insts.length
  first   : depthAt insts r.first = 0
  stop    : depthAt insts r.stop = 0

-- The braces of the block from `o` to `e`: between two links in a row they are balanced, and from
-- the opener on they are balanced first behind the closer.
structure Framed (flow : Flow) (insts : List Instruction) (word : Nat → List Char)
    (kind : BlockKind) (o e : Nat) : Prop where
  linked  : Linked flow insts kind o e
  between : (o :: (dividers insts o e ++ [e])).IsChain fun a b =>
    Balanced (Span.word ⟨a + 1, b⟩ word)
  closed  : ∀ i, o < i → i ≤ e + 1 → (Balanced (Span.word ⟨o, i⟩ word) ↔ i = e + 1)

variable {insts : List Instruction} {arena : Arena} {flow : Flow} {kind : BlockKind}
variable {word : Nat → List Char} {r : Span} {a a' b b' c i n o : Nat}

@[simp] theorem Span.mem_positions : i ∈ r.positions ↔ i ∈ r := by
  have : i ∈ r ↔ r.first ≤ i ∧ i < r.stop := .rfl
  rw [this, positions, List.mem_range'_1]
  omega

theorem Span.word_self : Span.word ⟨a, a⟩ word = [] := by
  simp [Span.word, positions]

theorem Span.word_succ (h : a ≤ b) :
    Span.word ⟨a, b + 1⟩ word = Span.word ⟨a, b⟩ word ++ word b := by
  have hlen : b + 1 - a = b - a + 1 := by omega
  simp only [Span.word, positions, hlen, List.range'_1_concat, List.flatMap_append,
    List.flatMap_singleton]
  congr 2
  omega

theorem Shown.mono (h : Shown insts word ⟨a, b⟩) (ha : a ≤ a') (hb : b' ≤ b) :
    Shown insts word ⟨a', b'⟩ :=
  fun i hi => h i ⟨ha.trans hi.left, hi.right.trans_le hb⟩

-- An instruction moves the depth of braces as it moves the depth of blocks. Closers and the line in
-- the middle of an `if` need an open brace to close.
theorem Role.Shows.braceDepth {role : Role} {w : List Char} (h : role.Shows w)
    (hn : (∃ kind, role = .closer kind) ∨ role = .divider .conditional → 0 < n) :
    braceDepth n w = some (n + role.shift).toNat := by
  have hne : openBrace ≠ closeBrace := by decide
  cases role
  case opener => simp_all [Shows, shift, ShaderLift.braceDepth]
  case closer =>
    have hn : n ≠ 0 := Nat.ne_of_gt (hn (.inl ⟨_, rfl⟩))
    simp_all [Shows, shift, ShaderLift.braceDepth, hne.symm]
    omega
  case divider kind =>
    cases kind
    case conditional =>
      have hn : n ≠ 0 := Nat.ne_of_gt (hn (.inr rfl))
      simp_all [Shows, shift, ShaderLift.braceDepth, hne.symm]
      omega
    all_goals simpa [shift] using Balanced.braceDepth h
  all_goals simpa [shift] using Balanced.braceDepth h

-- From `a` on, braces are as deep as blocks, if no block is touched that was open before.
theorem Shown.braceDepth (h : Shown insts word ⟨a, b⟩) (hab : a ≤ b)
    (hdeep : ∀ i, a ≤ i → i ≤ b → depthAt insts a ≤ depthAt insts i)
    (helse : ∀ i, a ≤ i → i < b → roleAt insts i = some (.divider .conditional) →
      depthAt insts a < depthAt insts i) :
    braceDepth n (Span.word ⟨a, b⟩ word) =
      some (n + (depthAt insts b - depthAt insts a)).toNat := by
  induction b, hab using Nat.le_induction
  case base => simp [Span.word_self, ShaderLift.braceDepth]
  case succ b hab hi =>
    obtain ⟨role, hr, hw⟩ := h b ⟨hab, Nat.lt_succ_self b⟩
    have hi := hi (h.mono (le_refl _) (Nat.le_succ b))
      (fun i ha hb => hdeep i ha (Nat.le_succ_of_le hb))
      (fun i ha hb => helse i ha (Nat.lt_succ_of_lt hb))
    have hb := hdeep b hab (Nat.le_succ b)
    have hsucc := hdeep (b + 1) (Nat.le_succ_of_le hab) (le_refl _)
    rw [depthAt_succ hr] at hsucc ⊢
    have hopen : (∃ kind, role = .closer kind) ∨ role = .divider .conditional →
        0 < (n + (depthAt insts b - depthAt insts a)).toNat := by
      rintro (⟨kind, rfl⟩ | rfl)
      case inl =>
        simp only [Role.shift] at hsucc
        omega
      case inr =>
        have := helse b hab (Nat.lt_succ_self b) hr
        omega
    rw [Span.word_succ hab, braceDepth_append, hi, Option.bind_some, hw.braceDepth hopen]
    congr 1
    omega

theorem depth_pos_of_divider (h : ofInstructions insts arena = .ok flow)
    (hi : roleAt insts i = some (.divider kind)) : 0 < depthAt insts i := by
  have ⟨o, c, l, hd⟩ := linked_of_divider h hi
  have ⟨_, hd, _⟩ := dividesAt_iff.mp (mem_dividers.mp hd).right
  have := depth_nonneg h (Nat.le_of_lt (lt_length_of_roleAt l.block.open_at.opens))
  omega

theorem whole_of_mem_bodies (h : ofInstructions insts arena = .ok flow) (hr : r ∈ flow.bodies) :
    r.Whole insts :=
  have cut := cut_bodies h
  have b := cut.body r hr
  ⟨b.ordered, cut.within r hr, b.first, b.stop⟩

theorem Span.Whole.balanced (w : r.Whole insts) (h : ofInstructions insts arena = .ok flow)
    (hs : Shown insts word r) : Balanced (r.word word) := by
  have hword := hs.braceDepth (n := 0) w.ordered
    (fun i _ hi => w.first ▸ depth_nonneg h (hi.trans w.within))
    (fun i _ _ hi => w.first ▸ depth_pos_of_divider h hi)
  rw [w.first, w.stop] at hword
  exact balanced_iff.mpr hword

-- No position of an ascending list lies between two that follow each other.
theorem isChain_gaps {l : List Nat} (h : l.Pairwise (· < ·)) :
    l.IsChain fun a b => a ∈ l ∧ b ∈ l ∧ a < b ∧ ∀ k ∈ l, ¬ (a < k ∧ k < b) := by
  have hlt := List.pairwise_iff_getElem.mp h
  refine List.isChain_iff_getElem.mpr fun i hi => ?_
  refine ⟨List.getElem_mem _, List.getElem_mem _, hlt i (i + 1) _ hi (Nat.lt_succ_self i), ?_⟩
  intro k hk ⟨hak, hkb⟩
  have ⟨j, hj, hk⟩ := List.getElem_of_mem hk
  subst hk
  cases Nat.lt_or_ge i j
  case inl hij =>
    cases Nat.lt_or_eq_of_le hij
    case inl hij => exact Nat.lt_asymm hkb (hlt _ _ _ _ hij)
    case inr hij =>
      subst hij
      exact Nat.lt_irrefl _ hkb
  case inr hji =>
    cases Nat.lt_or_eq_of_le hji
    case inl hji => exact Nat.lt_asymm hak (hlt _ _ _ _ hji)
    case inr hji =>
      subst hji
      exact Nat.lt_irrefl _ hak

namespace Linked

variable (l : Linked flow insts kind o c)

include l

theorem pairwise : (o :: (dividers insts o c ++ [c])).Pairwise (· < ·) :=
  List.isChain_iff_pairwise.mp (l.chain.imp fun _ _ h => h.left)

theorem depth_lt (ho : o < i) (hi : i ≤ c) : depthAt insts o < depthAt insts i :=
  l.block.open_at.deeper i ho hi

-- Inside of a block the braces since its opener are open, until its closer closes them.
theorem balanced_iff_eq (h : Shown insts word ⟨o, c + 1⟩) (ho : o < i) (hi : i ≤ c + 1) :
    Balanced (Span.word ⟨o, i⟩ word) ↔ i = c + 1 := by
  have hafter := l.block.depth_after
  have hdeep (k : Nat) (hok : o ≤ k) (hk : k ≤ i) : depthAt insts o ≤ depthAt insts k := by
    by_cases hc : o < k ∧ k ≤ c
    case pos => exact le_of_lt (l.depth_lt hc.left hc.right)
    case neg =>
      have : k = o ∨ k = c + 1 := by omega
      cases this
      case inl hk => exact hk ▸ le_refl _
      case inr hk => exact hk ▸ ge_of_eq hafter
  have helse (k : Nat) (hok : o ≤ k) (hk : k < i)
      (hd : roleAt insts k = some (.divider .conditional)) : depthAt insts o < depthAt insts k := by
    refine l.depth_lt (Nat.lt_of_le_of_ne hok fun he => ?_) (by omega)
    cases Option.some.inj (hd ▸ he ▸ l.block.open_at.opens)
  have hword := (h.mono (le_refl o) hi).braceDepth (n := 0) (Nat.le_of_lt ho) hdeep helse
  rw [balanced_iff, hword]
  constructor
  case mp =>
    intro hd
    by_contra hne
    have := l.depth_lt ho (by omega)
    simp at hd
    omega
  case mpr => rintro rfl; simp [hafter]

theorem le_of_mem (ha : a ∈ o :: (dividers insts o c ++ [c])) : o ≤ a ∧ a ≤ c := by
  have hoc := Nat.le_of_lt l.block.open_at.lt
  simp only [List.mem_cons, List.mem_append, List.not_mem_nil, or_false] at ha
  rcases ha with rfl | ha | rfl
  case inl => exact ⟨le_refl _, hoc⟩
  case inr.inl =>
    have ⟨hc, hd⟩ := mem_dividers.mp ha
    exact ⟨Nat.le_of_lt (dividesAt_iff.mp hd).left, Nat.le_of_lt hc⟩
  case inr.inr => exact ⟨hoc, le_refl _⟩

theorem depth_succ_of_mem (ha : a ∈ o :: (dividers insts o c ++ [c])) (hc : a < c) :
    depthAt insts (a + 1) = depthAt insts o + 1 := by
  cases List.mem_cons.mp ha
  case inl ha => simp [ha, depthAt_succ l.block.open_at.opens, Role.shift]
  case inr ha =>
    cases List.mem_append.mp ha
    case inl ha =>
      obtain ⟨_, hd, _, hr⟩ := dividesAt_iff.mp (mem_dividers.mp ha).right
      simp [depthAt_succ hr, hd, Role.shift]
    case inr ha => exact absurd (List.mem_singleton.mp ha) (Nat.ne_of_lt hc)

theorem depth_of_mem (ha : a ∈ o :: (dividers insts o c ++ [c])) (ho : o < a) :
    depthAt insts a = depthAt insts o + 1 := by
  cases List.mem_cons.mp ha
  case inl ha => exact absurd ha (Nat.ne_of_gt ho)
  case inr ha =>
    cases List.mem_append.mp ha
    case inl ha => exact (dividesAt_iff.mp (mem_dividers.mp ha).right).right.left
    case inr ha => exact List.mem_singleton.mp ha ▸ l.block.depth

-- Between two links there are whole blocks.
theorem balanced_between (h : Shown insts word ⟨o, c + 1⟩) :
    (o :: (dividers insts o c ++ [c])).IsChain fun a b => Balanced (Span.word ⟨a + 1, b⟩ word) := by
  refine (isChain_gaps l.pairwise).imp fun a b ⟨ha, hb, hab, hgap⟩ => ?_
  have hoa := (l.le_of_mem ha).left
  have hbc := (l.le_of_mem hb).right
  have hfirst := l.depth_succ_of_mem ha (by omega)
  have hstop := l.depth_of_mem hb (by omega)
  have helse (k : Nat) (hak : a + 1 ≤ k) (hkb : k < b)
      (hd : roleAt insts k = some (.divider .conditional)) :
      depthAt insts (a + 1) < depthAt insts k := by
    refine lt_of_le_of_ne (hfirst ▸ l.depth_lt (by omega) (by omega)) fun he => ?_
    refine hgap k ?_ ⟨hak, hkb⟩
    refine List.mem_cons_of_mem _ (List.mem_append_left _ (mem_dividers.mpr ⟨by omega, ?_⟩))
    exact dividesAt_iff.mpr ⟨by omega, he ▸ hfirst, _, hd⟩
  have hword := (h.mono (Nat.le_succ_of_le hoa) (Nat.le_succ_of_le hbc)).braceDepth (n := 0) hab
    (fun k _ _ => hfirst ▸ l.depth_lt (by omega) (by omega)) helse
  rw [hfirst, hstop] at hword
  exact balanced_iff.mpr (by simpa using hword)

theorem framed (h : Shown insts word ⟨o, c + 1⟩) : Framed flow insts word kind o c :=
  ⟨l, l.balanced_between h, fun _ => l.balanced_iff_eq h⟩

-- A span that cuts no block holds all of a block or nothing.
theorem mem_whole (w : r.Whole insts) (h : ofInstructions insts arena = .ok flow) (hi : i ∈ r)
    (hoi : o ≤ i) (hic : i ≤ c) : o ∈ r ∧ c ∈ r := by
  have hpos := depth_nonneg h (Nat.le_of_lt (lt_length_of_roleAt l.block.open_at.opens))
  have hfirst : r.first ≤ o := by
    by_contra hlt
    have := l.depth_lt (Nat.lt_of_not_le hlt) (hi.left.trans hic)
    have := w.first
    omega
  have hstop : c < r.stop := by
    by_contra hle
    have := l.depth_lt (hoi.trans_lt hi.right) (Nat.le_of_not_lt hle)
    have := w.stop
    omega
  exact ⟨⟨hfirst, hoi.trans_lt hi.right⟩, ⟨hi.left.trans hic, hstop⟩⟩

theorem framed_of_mem (w : r.Whole insts) (h : ofInstructions insts arena = .ok flow)
    (hs : Shown insts word r) (hi : i ∈ r) (hoi : o ≤ i) (hic : i ≤ c) :
    o ∈ r ∧ c ∈ r ∧ Framed flow insts word kind o c :=
  have ⟨ho, hc⟩ := l.mem_whole w h hi hoi hic
  ⟨ho, hc, l.framed (hs.mono ho.left hc.right)⟩

end Linked

end ShaderLift.Flow
