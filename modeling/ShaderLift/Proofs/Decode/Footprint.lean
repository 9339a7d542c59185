import ShaderLift.Proofs.Decode.Positions

/-!
What reading an operand depends on: the words that it takes, and nothing else. The same words read
elsewhere give the same operands, with other ids. And as each operand takes a word of its own, the
bound on the depth of operands is never met.
-/

namespace ShaderLift

namespace Reader

-- The reader behind some words, with the operands that it has then.
def behind (r : Reader) (used : List UInt32) (operands : Arena) : Reader :=
  { r with consumed := r.consumed + used.length, rest := r.rest.drop used.length, operands }

variable {r : Reader} {used used' : List UInt32} {arena arena' : Arena}

theorem behind_nil : r.behind [] r.operands = r :=
  rfl

theorem behind_behind :
    (r.behind used arena).behind used' arena' = r.behind (used ++ used') arena' := by
  simp [behind, Nat.add_assoc]

theorem position_behind : (r.behind used arena).position = r.position + used.length :=
  (Nat.add_assoc ..).symm

theorem move_behind {words : Nat} {front : Arena} :
    (r.behind used arena).move words front = (r.move words front).behind used (front.after arena) :=
  rfl

theorem length_behind_le : (r.behind used arena).rest.length ≤ r.rest.length := by
  simp [behind]

end Reader

namespace Decoder

variable {α β : Type} {bound : Nat} {d d' : Int} {x x' : Except DecodeError α} {r r' s : Reader}
variable {used used' ws : List UInt32} {arena arena' : Arena} {m : Decoder α}

-- The words that an outcome shows of a stream. If this has come to its end, there are no others.
structure Sees (used : List UInt32) (x : Except DecodeError α) (ws : List UInt32) : Prop where
  front : used <+: ws
  all   : ∀ n, x = .error ⟨n, .endOfStream⟩ → ws = used

theorem sees_ok {a : α} : Sees used (.ok a : Except DecodeError α) ws ↔ used <+: ws :=
  ⟨Sees.front, fun h => ⟨h, by simp⟩⟩

theorem Sees.nil (h : ∀ n, x = .error ⟨n, .endOfStream⟩ → ws = []) : Sees [] x ws where
  front := List.nil_prefix
  all := h

theorem Sees.behind (h : Sees (used ++ used') x s.rest) :
    Sees used' x (s.behind used arena).rest := by
  obtain ⟨tail, ht⟩ := h.front
  have hrest : (s.behind used arena).rest = used' ++ tail := by
    simp [Reader.behind, ← ht]
  refine ⟨hrest ▸ List.prefix_append _ _, fun n hx => ?_⟩
  have := h.all n hx
  simp [Reader.behind, this]

theorem Sees.append (h : used <+: s.rest) (h' : Sees used' x (s.behind used arena).rest) :
    Sees (used ++ used') x s.rest := by
  obtain ⟨tail, ht⟩ := h
  have hrest : (s.behind used arena).rest = tail := by simp [Reader.behind, ← ht]
  rw [hrest] at h'
  rw [← ht]
  refine ⟨(List.prefix_append_right_inj used).mpr h'.front, fun n hx => ?_⟩
  rw [h'.all n hx]

theorem bind_of_ok {k : α → Decoder β} {a : α} (h : m r = .ok a r') : (m >>= k) r = k a r' := by
  simp only [Bind.bind, EStateM.bind, h]

theorem bind_of_error {k : α → Decoder β} {e : DecodeError} (h : m r = .error e r') :
    (m >>= k) r = .error e r' := by
  simp only [Bind.bind, EStateM.bind, h]

theorem word_of_nil (h : r.rest = []) : word r = .error ⟨r.position, .endOfStream⟩ r := by
  simp only [word, h]

theorem word_of_cons {w : UInt32} (h : r.rest = w :: ws) :
    word r = .ok w { r with consumed := r.consumed + 1, rest := ws } := by
  simp only [word, h]

-- An outcome, and the reader that it leaves.
def ending : Except DecodeError α → Reader → EStateM.Result DecodeError Reader α
  | .ok a, r => .ok a r
  | .error e, r => .error e r

-- What a decoder does at some position with some words, whatever stands behind those. Up to `d`,
-- it pushes no more operands than it takes words.
structure Does (bound : Nat) (d : Int) (m : Decoder α) (position : Nat) (arena : Arena)
    (used : List UInt32) (x : Except DecodeError α) (arena' : Arena) : Prop where
  pushed  : ∀ a, x = .ok a → (arena'.size : Int) ≤ arena.size + used.length + d
  outcome : ∀ s : Reader, s.position = position → s.operands = arena → s.rest.length ≤ bound →
    Sees used x s.rest → m s = ending x (s.behind used arena')

-- A decoder that looks at nothing else.
def Local (bound : Nat) (d : Int) (m : Decoder α) : Prop :=
  ∀ r : Reader, r.rest.length ≤ bound →
    ∃ used x arena, Sees used x r.rest ∧ Does bound d m r.position r.operands used x arena

namespace Local

variable {m : Decoder α} {k : α → Decoder β}

theorem mono (h : Local bound d m) (hd : d ≤ d') : Local bound d' m := by
  intro r hr
  obtain ⟨used, x, arena, hsees, hdoes⟩ := h r hr
  refine ⟨used, x, arena, hsees, fun a ha => ?_, hdoes.outcome⟩
  exact (hdoes.pushed a ha).trans (by omega)

-- Decoders that take no words and push nothing.
theorem still {x : Nat → Arena → Except DecodeError α}
    (h : ∀ r : Reader, m r = ending (x r.position r.operands) r)
    (he : ∀ n arena n', x n arena ≠ .error ⟨n', .endOfStream⟩) : Local bound 0 m := by
  intro r _
  refine ⟨[], x r.position r.operands, r.operands, .nil fun n hx => ?_, by simp, ?_⟩
  case refine_1 => exact absurd hx (he _ _ n)
  case refine_2 =>
    intro s hposition hoperands _ _
    rw [h, hposition, hoperands, ← hoperands, Reader.behind_nil]

theorem pure {a : α} : Local bound 0 (Pure.pure a) :=
  still (x := fun _ _ => .ok a) (fun _ => rfl) (by simp)

theorem throw {e : DecodeError} (h : e.cause ≠ .endOfStream) :
    Local bound 0 (throw e : Decoder α) := by
  refine still (x := fun _ _ => .error e) (fun _ => rfl) fun _ _ n he => ?_
  exact h (congrArg DecodeError.cause (Except.error.inj he))

theorem bind (hm : Local bound d m) (hk : ∀ a, Local bound d' (k a)) :
    Local bound (d + d') (m >>= k) := by
  intro r hr
  obtain ⟨used, x, arena, hsees, hm⟩ := hm r hr
  cases x
  case error e =>
    have hshown {ws : List UInt32} (h : Sees used (.error e : Except DecodeError β) ws) :
        Sees used (.error e : Except DecodeError α) ws :=
      ⟨h.front, fun n he => h.all n (congrArg Except.error (Except.error.inj he))⟩
    refine ⟨used, .error e, arena, ⟨hsees.front, fun n he => ?_⟩, by simp, ?_⟩
    case refine_1 => exact hsees.all n (congrArg Except.error (Except.error.inj he))
    case refine_2 =>
      intro s hposition hoperands hs hsees
      exact bind_of_error (hm.outcome s hposition hoperands hs (hshown hsees))
  case ok a =>
    obtain ⟨used', y, arena', hsees', hk⟩ :=
      hk a (r.behind used arena) (Reader.length_behind_le.trans hr)
    refine ⟨used ++ used', y, arena', .append hsees.front hsees', fun b hb => ?_, ?_⟩
    case refine_1 =>
      have h := hm.pushed a rfl
      have h' := hk.pushed b hb
      simp only [Reader.behind, List.length_append] at h' ⊢
      push_cast
      omega
    case refine_2 =>
      intro s hposition hoperands hs hsees
      have hfront : Sees used (.ok a : Except DecodeError α) s.rest :=
        sees_ok.mpr ((List.prefix_append used used').trans hsees.front)
      rw [bind_of_ok (hm.outcome s hposition hoperands hs hfront),
        hk.outcome (s.behind used arena) ?_ rfl (Reader.length_behind_le.trans hs) hsees.behind,
        Reader.behind_behind]
      rw [Reader.position_behind, Reader.position_behind, hposition]

theorem anti {bound' : Nat} (h : Local bound' d m) (hb : bound ≤ bound') : Local bound d m := by
  intro r hr
  obtain ⟨used, x, arena, hsees, hdoes⟩ := h r (hr.trans hb)
  refine ⟨used, x, arena, hsees, hdoes.pushed, fun s hposition hoperands hs => ?_⟩
  exact hdoes.outcome s hposition hoperands (hs.trans hb)

-- Decoders that want a word have nothing to look at where there is none.
theorem at_end (h : ∀ r : Reader, r.rest = [] → m r = .error ⟨r.position, .endOfStream⟩ r) :
    Local 0 d m := by
  intro r hr
  have hrest := List.eq_nil_of_length_eq_zero (Nat.le_zero.mp hr)
  refine ⟨[], .error ⟨r.position, .endOfStream⟩, r.operands, .nil fun _ _ => hrest, by simp, ?_⟩
  intro s hposition hoperands _ hsees
  rw [h s (hsees.all _ rfl), hposition, ← hoperands, Reader.behind_nil]
  rfl

-- What comes behind a word has a word less.
theorem word_bind {k : UInt32 → Decoder β} (hk : ∀ w, Local bound d (k w)) :
    Local (bound + 1) (d - 1) (word >>= k) := by
  intro r hr
  cases hrest : r.rest
  case nil =>
    refine ⟨[], .error ⟨r.position, .endOfStream⟩, r.operands, .nil fun _ _ => rfl, by simp, ?_⟩
    intro s hposition hoperands _ hsees
    have hempty : s.rest = [] := hsees.all _ rfl
    rw [bind_of_error (word_of_nil hempty), hposition, ← hoperands, Reader.behind_nil]
    rfl
  case cons w ws =>
    have hlength : (r.behind [w] r.operands).rest.length ≤ bound := by
      simpa [Reader.behind, hrest] using hr
    obtain ⟨used, x, arena, hsees, hdoes⟩ := hk w _ hlength
    have hfront : [w] <+: r.rest := by simp [hrest]
    rw [← hrest]
    refine ⟨[w] ++ used, x, arena, .append hfront hsees, fun a ha => ?_, ?_⟩
    case refine_1 =>
      have := hdoes.pushed a ha
      simp only [Reader.behind, List.length_append, List.length_singleton] at this ⊢
      push_cast
      omega
    case refine_2 =>
      intro s hposition hoperands hs hsees
      obtain ⟨tail, ht⟩ := hsees.front
      have hword : word s = .ok w (s.behind [w] s.operands) := by
        simp [word, ← ht, Reader.behind]
      have hlength : (s.behind [w] s.operands).rest.length ≤ bound := by
        have hs : s.rest.length ≤ bound + 1 := hs
        rw [← ht] at hs
        simp [Reader.behind, ← ht] at hs ⊢
        omega
      rw [bind_of_ok hword,
        hdoes.outcome (s.behind [w] s.operands) ?_ hoperands hlength hsees.behind,
        Reader.behind_behind]
      rw [Reader.position_behind, Reader.position_behind, hposition]

end Local

theorem local_word : Local bound (-1) word := by
  have h : Local (bound + 1) (0 - 1) (word >>= Pure.pure) := .word_bind fun _ => .pure
  rw [bind_pure] at h
  exact h.anti (Nat.le_succ bound)

theorem local_position : Local bound 0 position :=
  .still (x := fun n _ => .ok n) (fun _ => rfl) (by simp)

theorem local_push {op : Operand} : Local bound 1 (push op) := by
  intro r _
  refine ⟨[], .ok r.operands.size, r.operands.push op, .nil (by simp), by simp, ?_⟩
  intro s _ hoperands _ _
  rw [← hoperands]
  rfl

theorem local_liftExcept (h : ∀ n, x ≠ .error ⟨n, .endOfStream⟩) :
    Local bound 0 (operandWith.liftExcept x) := by
  cases x
  case ok => exact .pure
  case error e => exact .throw fun hc => h e.position (congrArg Except.error (by rw [← hc]))

theorem local_long : Local bound 0 long :=
  (local_word.bind fun _ => local_word.bind fun _ => .pure).mono (by decide)

theorem local_words {n : Nat} : Local bound 0 (words n) := by
  induction n
  case zero => exact .pure
  case succ hi => exact (local_word.bind fun _ => hi.bind fun _ => .pure).mono (by decide)

theorem local_longs {n : Nat} : Local bound 0 (longs n) := by
  induction n
  case zero => exact .pure
  case succ hi =>
    exact Local.mono (local_word.bind fun _ => local_word.bind fun _ => hi.bind fun _ => .pure)
      (by decide)

section Extensions

variable {σ : Type} {step : σ → UInt32 → Except DecodeError σ} {init : σ}

theorem extensions_eq :
    extensions step init = word >>= fun w => operandWith.liftExcept (step init w) >>= fun s =>
      if Word.bit w 31 then extensions step s else pure s := by
  funext r
  cases hrest : r.rest
  case nil =>
    rw [bind_of_error (word_of_nil hrest)]
    simp only [extensions, extensions.go, hrest]
  case cons w ws =>
    rw [bind_of_ok (word_of_cons hrest)]
    simp only [extensions, extensions.go, hrest]
    cases step init w
    case error => rfl
    case ok s =>
      have hlift {r : Reader} : operandWith.liftExcept (.ok s) r = .ok s r := rfl
      rw [bind_of_ok hlift]
      dsimp only
      split <;> rfl

theorem local_extensions (h : ∀ s w n, step s w ≠ .error ⟨n, .endOfStream⟩) :
    Local bound 0 (extensions step init) := by
  induction bound generalizing init
  case zero =>
    rw [extensions_eq]
    exact .at_end fun r hr => bind_of_error (word_of_nil hr)
  case succ bound hi =>
    rw [extensions_eq]
    refine (Local.word_bind fun w => (local_liftExcept (h init w)).bind fun s => ?_).mono
      (show 0 + 0 - 1 ≤ 0 by decide)
    split
    case isTrue => exact hi
    case isFalse => exact .pure

end Extensions

theorem operandFault_ne_end {start n : Nat} {x : Except OperandFault α} :
    operandFault start x ≠ .error ⟨n, .endOfStream⟩ := by
  cases x <;> simp [operandFault]

theorem local_immediate {start : Nat} {token : OperandToken} :
    Local bound 0 (immediate start token) := by
  unfold immediate
  split
  case h_1 | h_2 => exact .throw (by simp)
  case h_3 => exact local_words.bind fun _ => .pure
  case h_4 | h_5 => exact local_longs.bind fun _ => .pure
  case h_6 => exact .pure

section Nested

variable {nested : Decoder OperandId} {start : Nat} (hn : Local bound 0 nested)

include hn

theorem local_index {form : Nat} : Local bound 0 (index nested start form) := by
  unfold index
  split
  case h_1 => exact (local_word.bind fun _ => .pure).mono (by decide)
  case h_2 => exact local_long.bind fun _ => .pure
  case h_3 => exact hn.bind fun _ => .pure
  case h_4 => exact (local_word.bind fun _ => hn.bind fun _ => .pure).mono (by decide)
  case h_5 => exact local_long.bind fun _ => hn.bind fun _ => .pure
  case h_6 => exact .throw (by simp)

theorem local_indices {forms : List Nat} : Local bound 0 (indices nested start forms) := by
  induction forms
  case nil => exact .pure
  case cons hi => exact (local_index hn).bind fun _ => hi.bind fun _ => .pure

-- The word of its own pays for the operand that is pushed.
theorem local_operandWith : Local (bound + 1) 0 (operandWith nested) := by
  refine local_position.bind fun start => Local.word_bind (d := 1) fun word => ?_
  change Local bound (0 + 1) _
  refine (local_liftExcept fun _ => operandFault_ne_end).bind fun token => ?_
  extract_lets rest
  have hrest (e : OperandExtension) : Local bound 1 (rest e) :=
    (local_indices hn).bind fun _ => local_immediate.bind fun _ => local_push
  split
  case isTrue => exact (local_extensions fun _ _ _ => operandFault_ne_end).bind hrest
  case isFalse => exact hrest {}

end Nested

theorem local_operandWithin : Local bound 0 (operandWithin bound) := by
  induction bound
  case zero => exact .at_end fun _ _ => rfl
  case succ hi => exact local_operandWith hi

-- Decoders that do the same as long as no more words are left.
def Agrees (bound : Nat) (m m' : Decoder α) : Prop :=
  ∀ r : Reader, r.rest.length ≤ bound → m r = m' r

theorem Local.length_le (h : Local bound d m) {a : α} (hr : r.rest.length ≤ bound)
    (hm : m r = .ok a r') : r'.rest.length ≤ r.rest.length := by
  obtain ⟨used, x, arena, hsees, hdoes⟩ := h r hr
  have hrun := hm.symm.trans (hdoes.outcome r rfl rfl hr hsees)
  cases x
  case error => cases hrun
  case ok =>
    cases hrun
    exact Reader.length_behind_le

namespace Agrees

variable {m m' : Decoder α} {k k' : α → Decoder β}

theorem refl : Agrees bound m m :=
  fun _ _ => rfl

theorem bind (hm : Agrees bound m m') (hl : Local bound d m)
    (hk : ∀ a, Agrees bound (k a) (k' a)) : Agrees bound (m >>= k) (m' >>= k') := by
  intro r hr
  cases h : m r
  case error e r' => rw [bind_of_error h, bind_of_error ((hm r hr).symm.trans h)]
  case ok a r' =>
    rw [bind_of_ok h, bind_of_ok ((hm r hr).symm.trans h)]
    exact hk a r' ((hl.length_le hr h).trans hr)

theorem word_bind {k k' : UInt32 → Decoder β} (hk : ∀ w, Agrees bound (k w) (k' w)) :
    Agrees (bound + 1) (word >>= k) (word >>= k') := by
  intro r hr
  cases hrest : r.rest
  case nil => rw [bind_of_error (word_of_nil hrest), bind_of_error (word_of_nil hrest)]
  case cons w ws =>
    rw [bind_of_ok (word_of_cons hrest), bind_of_ok (word_of_cons hrest)]
    rw [hrest, List.length_cons] at hr
    exact hk w _ (Nat.le_of_succ_le_succ hr)

end Agrees

section Nested

variable {nested nested' : Decoder OperandId} {start : Nat}
variable (ha : Agrees bound nested nested') (hn : Local bound 0 nested)

include ha hn

theorem agrees_index {form : Nat} :
    Agrees bound (index nested start form) (index nested' start form) := by
  unfold index
  split
  case h_3 => exact ha.bind hn fun _ => .refl
  case h_4 => exact .bind .refl local_word fun _ => ha.bind hn fun _ => .refl
  case h_5 => exact .bind .refl local_long fun _ => ha.bind hn fun _ => .refl
  all_goals exact .refl

theorem agrees_indices {forms : List Nat} :
    Agrees bound (indices nested start forms) (indices nested' start forms) := by
  induction forms
  case nil => exact .refl
  case cons hi =>
    exact (agrees_index ha hn).bind (local_index hn) fun _ =>
      hi.bind (local_indices hn) fun _ => .refl

theorem agrees_operandWith : Agrees (bound + 1) (operandWith nested) (operandWith nested') := by
  refine .bind .refl local_position fun start => .word_bind fun word => ?_
  refine .bind .refl (local_liftExcept fun _ => operandFault_ne_end) fun token => ?_
  extract_lets rest rest'
  have hrest (e : OperandExtension) : Agrees bound (rest e) (rest' e) :=
    (agrees_indices ha hn).bind (local_indices hn) fun _ => .refl
  split
  case isTrue => exact .bind .refl (local_extensions fun _ _ _ => operandFault_ne_end) hrest
  case isFalse => exact hrest {}

end Nested

theorem operandWith_of_nil {nested : Decoder OperandId} (h : r.rest = []) :
    operandWith nested r = .error ⟨r.position, .endOfStream⟩ r := by
  have hposition : position r = .ok r.position r := rfl
  rw [operandWith, bind_of_ok hposition, bind_of_error (word_of_nil h)]

-- More depth than there are words makes no difference.
theorem operandWithin_bound {n : Nat} (h : bound ≤ n) :
    Agrees bound (operandWithin bound) (operandWithin n) := by
  induction bound generalizing n
  case zero =>
    intro r hr
    have hrest := List.eq_nil_of_length_eq_zero (Nat.le_zero.mp hr)
    cases n
    case zero => rfl
    case succ => exact (operandWith_of_nil hrest).symm
  case succ bound hi =>
    cases n
    case zero => cases h
    case succ n => exact agrees_operandWith (hi (Nat.le_of_succ_le_succ h)) local_operandWithin

theorem operandWithin_eq (h : r.rest.length ≤ bound) : operandWithin bound r = operand r :=
  (operandWithin_bound h r (Nat.le_refl _)).symm

theorem operand_eq : operand = operandWith operand := by
  funext r
  cases hrest : r.rest
  case nil =>
    rw [operandWith_of_nil hrest, operand, hrest]
    rfl
  case cons w ws =>
    have hagrees : Agrees ws.length (operandWithin ws.length) operand :=
      fun s hs => operandWithin_eq hs
    have hlength : r.rest.length = ws.length + 1 := by rw [hrest, List.length_cons]
    rw [operand, hlength]
    exact agrees_operandWith hagrees local_operandWithin r hlength.le

theorem ending_inj (h : ending x r = ending x' r') : x = x' ∧ r = r' := by
  cases x <;> cases x' <;> cases h <;> exact ⟨rfl, rfl⟩

-- An outcome tells the words that it has taken.
theorem ending_behind_inj
    (he : ending x (r.behind used arena) = ending x' (r.behind used' arena'))
    (h : used <+: r.rest) (h' : used' <+: r.rest) : used = used' ∧ x = x' ∧ arena = arena' := by
  obtain ⟨hx, hr⟩ := ending_inj he
  have hconsumed := congrArg Reader.consumed hr
  have hlength : used.length = used'.length := Nat.add_left_cancel hconsumed
  refine ⟨?_, hx, congrArg Reader.operands hr⟩
  rw [List.prefix_iff_eq_take.mp h, List.prefix_iff_eq_take.mp h', hlength]

-- What an operand is read as, with no bound on what stands behind it.
theorem exists_outcome_operand (r : Reader) :
    ∃ used x arena, Sees used x r.rest ∧
      (∀ id, x = .ok id → arena.size ≤ r.operands.size + used.length) ∧
      ∀ s : Reader, s.position = r.position → s.operands = r.operands → Sees used x s.rest →
        operand s = ending x (s.behind used arena) := by
  have hlocal (bound : Nat) (hr : r.rest.length ≤ bound) : ∃ used x arena, Sees used x r.rest ∧
      Does bound 0 operand r.position r.operands used x arena := by
    obtain ⟨used, x, arena, hsees, hdoes⟩ := local_operandWithin r hr
    refine ⟨used, x, arena, hsees, hdoes.pushed, fun s hposition hoperands hs hsees => ?_⟩
    rw [← operandWithin_eq hs]
    exact hdoes.outcome s hposition hoperands hs hsees
  obtain ⟨used, x, arena, hsees, hdoes⟩ := hlocal _ (Nat.le_refl _)
  have hrun := hdoes.outcome r rfl rfl (Nat.le_refl _) hsees
  refine ⟨used, x, arena, hsees, fun id hid => ?_, fun s hposition hoperands hs => ?_⟩
  case refine_1 =>
    have := hdoes.pushed id hid
    omega
  case refine_2 =>
    obtain ⟨used', x', arena', hsees', hdoes'⟩ := hlocal _ (Nat.le_max_left _ s.rest.length)
    have hrun' := hdoes'.outcome r rfl rfl (Nat.le_max_left ..) hsees'
    obtain ⟨rfl, rfl, rfl⟩ := ending_behind_inj (hrun.symm.trans hrun') hsees.front hsees'.front
    exact hdoes'.outcome s hposition hoperands (Nat.le_max_right ..) hs

theorem moved_ending {words : Nat} {front : Arena} {f : α → β} :
    moved words front f (ending x r) = ending (relocated words f x) (r.move words front) := by
  cases x <;> rfl

-- The operand that is read is pushed last.
theorem last_of_operand {id : OperandId} (h : operand r = .ok id r') :
    id + 1 = r'.operands.size := by
  have hpush {op : Operand} {r : Reader} (h : push op r = .ok id r') :
      id + 1 = r'.operands.size := by
    cases h
    simp
  rw [operand_eq] at h
  obtain ⟨_, _, _, h⟩ := exists_of_bind h
  obtain ⟨_, _, _, h⟩ := exists_of_bind h
  obtain ⟨_, _, _, h⟩ := exists_of_bind h
  extract_lets rest at h
  have hrest {e : OperandExtension} {r : Reader} (h : rest e r = .ok id r') :
      id + 1 = r'.operands.size := by
    obtain ⟨_, _, _, h⟩ := exists_of_bind h
    obtain ⟨_, _, _, h⟩ := exists_of_bind h
    exact hpush h
  split at h
  case isTrue =>
    obtain ⟨_, _, _, h⟩ := exists_of_bind h
    exact hrest h
  case isFalse => exact hrest h

-- What some words are read as, for a reader at the start of a stream, and so for any other.
theorem exists_operand (ws : List UInt32) :
    ∃ used x new, Sees used x ws ∧
      (∀ id, x = .ok id → id + 1 = new.size ∧ new.size ≤ used.length) ∧
      ∀ s : Reader, Sees used x s.rest → operand s =
        ending (relocated s.position (· + s.operands.size) x)
          (s.behind used (s.operands.after new)) := by
  obtain ⟨used, x, new, hsees, hpushed, houtcome⟩ := exists_outcome_operand ⟨0, 0, ws, #[]⟩
  refine ⟨used, x, new, hsees, fun id hid => ⟨?_, ?_⟩, fun s hs => ?_⟩
  case refine_1 =>
    have hrun := houtcome ⟨0, 0, ws, #[]⟩ rfl rfl hsees
    rw [hid] at hrun
    exact last_of_operand hrun
  case refine_2 => simpa using hpushed id hid
  case refine_3 =>
    -- From the start of a stream to the position of the reader, and then to its base.
    have hstart := houtcome ⟨0, 0, s.rest, #[]⟩ rfl rfl hs
    have hmoved : operand (Reader.move s.position s.operands ⟨0, 0, s.rest, #[]⟩) = _ :=
      moves_operand ⟨0, 0, s.rest, #[]⟩
    rw [hstart, moved_ending, Reader.move_behind] at hmoved
    obtain ⟨used', x', arena', hsees', _, houtcome'⟩ :=
      exists_outcome_operand (Reader.move s.position s.operands ⟨0, 0, s.rest, #[]⟩)
    have hrun := houtcome' _ rfl rfl hsees'
    obtain ⟨rfl, rfl, rfl⟩ := ending_behind_inj (hmoved.symm.trans hrun) hs.front hsees'.front
    refine houtcome' s ?_ ?_ hsees'
    case refine_1 => simp [Reader.position, Reader.move]
    case refine_2 => simp [Reader.move, Arena.after]

-- Reading an operand takes the words `used` and pushes `new`, and does the same elsewhere.
structure ReadsOperand (r : Reader) (id : OperandId) (r' : Reader) (used : List UInt32)
    (new : Arena) : Prop where
  words     : r.rest = used ++ r'.rest ∧ 0 < used.length
  reader    : r' = r.behind used (r.operands.after new)
  pushed    : 0 < new.size ∧ new.size ≤ used.length
  last      : id + 1 = r'.operands.size
  kept      : ∀ i < r.operands.size, r'.operands[i]? = r.operands[i]?
  elsewhere : ∀ s : Reader, used <+: s.rest → operand s =
    .ok (id - r.operands.size + s.operands.size) (s.behind used (s.operands.after new))

-- The same for a failure. If there were not enough words, it may need to see that there are no
-- more.
structure FailsOperand (r : Reader) (e : DecodeError) (r' : Reader) (used : List UInt32)
    (new : Arena) : Prop where
  words     : r.rest = used ++ r'.rest
  reader    : r' = r.behind used (r.operands.after new)
  all       : e.cause = .endOfStream → r'.rest = []
  elsewhere : ∀ s : Reader, used <+: s.rest → (e.cause = .endOfStream → s.rest = used) →
    operand s = .error ⟨e.position - r.position + s.position, e.cause⟩
      (s.behind used (s.operands.after new))

theorem append_rest_behind (h : used <+: r.rest) :
    r.rest = used ++ (r.behind used arena).rest := by
  obtain ⟨tail, ht⟩ := h
  simp [Reader.behind, ← ht]

theorem operand_takes_front (r : Reader) :
    (∀ bound, r.rest.length ≤ bound → operandWithin bound r = operand r) ∧
    operand r = operandWith operand r ∧
    (∀ id r', operand r = .ok id r' → ∃ used new, ReadsOperand r id r' used new) ∧
    ∀ e r', operand r = .error e r' → ∃ used new, FailsOperand r e r' used new := by
  obtain ⟨used, x, new, hsees, hpushed, houtcome⟩ := exists_operand r.rest
  have hrun := houtcome r hsees
  refine ⟨fun _ => operandWithin_eq, congrFun operand_eq r, fun id r' h => ⟨used, new, ?_⟩,
    fun e r' h => ⟨used, new, ?_⟩⟩
  case refine_1 =>
    rw [hrun] at h
    cases x
    case error => cases h
    case ok id₀ =>
      obtain ⟨hlast, hsize⟩ := hpushed id₀ rfl
      cases h
      exact {
        words := ⟨append_rest_behind hsees.front, by omega⟩
        reader := rfl
        pushed := ⟨by omega, hsize⟩
        last := by
          change id₀ + r.operands.size + 1 = (r.operands.after new).size
          rw [Arena.size_after]
          omega
        kept := fun i hi => by simp [Reader.behind, Arena.after, Array.getElem?_append_left, hi]
        elsewhere := fun s hs => by
          rw [houtcome s (sees_ok.mpr hs)]
          simp [relocated, ending] }
  case refine_2 =>
    rw [hrun] at h
    cases x
    case ok => cases h
    case error e₀ =>
      cases h
      have hcause {n : Nat}
          (he : (.error e₀ : Except DecodeError OperandId) = .error ⟨n, .endOfStream⟩) :
          e₀.cause = .endOfStream :=
        congrArg DecodeError.cause (Except.error.inj he)
      exact {
        words := append_rest_behind hsees.front
        reader := rfl
        all := fun he => by
          have hused := hsees.all e₀.position (congrArg Except.error (by rw [← he]; rfl))
          simp [Reader.behind, hused]
        elsewhere := fun s hs hall => by
          rw [houtcome s ⟨hs, fun n he => hall (hcause he)⟩]
          simp [relocated, ending, DecodeError.move] }

-- `cb0[r1.x + 4]`, behind an operand that is there already and in front of a word of something
-- else.
theorem operand_takes_front_relative :
    ∃ r r' : Reader, r.operands.size = 1 ∧ operand r = .ok 2 r' ∧ r'.rest = [99] ∧
      ∃ used new, ReadsOperand r 2 r' used new := by
  let r : Reader := ⟨7, 2, [0x06208396, 0, 4, 0x0010000a, 1, 99], #[{ register := .temp }]⟩
  let r' : Reader := ⟨7, 7, [99], #[
    { register := .temp },
    { register := .temp, selection := .select 0, indices := [.imm 1] },
    { register := .constantBuffer, selection := .swizzle ⟨1, 2, 3, 0⟩,
      indices := [.imm 0, .immRelative 4 1] }]⟩
  have hrun : operand r = .ok 2 r' := rfl
  exact ⟨r, r', rfl, hrun, rfl, (operand_takes_front r).right.right.left 2 r' hrun⟩

end Decoder

end ShaderLift
