import ShaderLift.Proofs.Text.Numerals
import ShaderLift.Glsl.ValueType

/-!
Integer constant expressions of the shading language: numbers, signs, sums, differences and
parentheses. A text has at most one value, and the numbers in it are not too large for their type.
-/

namespace ShaderLift

-- The integers of a type.
def ValueType.Holds : ValueType → Int → Prop
  | float, _ => False
  | int, n => -2147483648 ≤ n ∧ n ≤ 2147483647
  | uint, n => 0 ≤ n ∧ n ≤ 4294967295

instance : (t : ValueType) → (n : Int) → Decidable (t.Holds n)
  | .float, _ => inferInstanceAs (Decidable False)
  | .int, n => inferInstanceAs (Decidable (-2147483648 ≤ n ∧ n ≤ 2147483647))
  | .uint, n => inferInstanceAs (Decidable (0 ≤ n ∧ n ≤ 4294967295))

namespace Glsl

-- An integer of a type that holds it. Where a step leads out of the type there is no constant:
-- newer dialects would wrap around, but older ones promise nothing.
@[ext] structure Constant where
  type  : ValueType
  value : Int
  holds : type.Holds value

inductive Sign where
  | plus
  | minus

namespace Sign

def char : Sign → Char
  | plus => '+'
  | minus => '-'

def apply : Sign → Int → Int
  | plus, n => n
  | minus, n => -n

theorem char_inj {s s' : Sign} (h : s.char = s'.char) : s = s' := by
  cases s <;> cases s' <;> simp_all [char]

theorem not_isDigit_char {s : Sign} : ¬s.char.isDigit := by
  cases s <;> decide

end Sign

-- Neighbours that belong to one token: the characters of a word, and the signs of `++` and `--`.
def joined (a b : Char) : Bool :=
  Identifier.isAllowed a && Identifier.isAllowed b || a = b && (a = '+' || a = '-')

-- The tokens of a text, as long as they get. Blanks are left out.
def tokens (text : String) : List (List Char) :=
  (text.toList.splitBy joined).filter (· ≠ [' '])

theorem tokens_word {s : String} (hs : IsWord s) (hne : s.toList ≠ []) : tokens s = [s.toList] := by
  have hjoined : s.toList.IsChain (joined · ·) := by
    apply List.Pairwise.isChain
    rw [List.pairwise_iff_forall_sublist]
    intro a b hab
    have ha : a ∈ s.toList := hab.subset (by simp)
    have hb : b ∈ s.toList := hab.subset (by simp)
    simp [joined, hs a ha, hs b hb]
  have hblank : s.toList ≠ [' '] := by
    intro h
    exact absurd (hs ' ' (by simp [h])) (by decide)
  rw [tokens, List.splitBy_of_isChain hne hjoined]
  simp [hblank]

theorem tokens_minus_word {s : String} (hs : IsWord s) (hne : s.toList ≠ []) :
    tokens ("-" ++ s) = [['-'], s.toList] := by
  have hapart : ∀ a ∈ ['-'].getLast?, ∀ b ∈ s.toList.head?, joined a b = false := by
    intro a ha b hb
    have hb : b ∈ s.toList := List.mem_of_mem_head? hb
    have hminus : b ≠ '-' := by
      rintro rfl
      exact absurd (hs '-' hb) (by decide)
    simp only [List.getLast?_singleton, Option.mem_def, Option.some.injEq] at ha
    subst ha
    simp [joined, hminus.symm, show Identifier.isAllowed '-' = false by decide]
  have hword := tokens_word hs hne
  unfold tokens at hword ⊢
  rw [String.toList_append, show "-".toList = ['-'] by decide, List.splitBy_append hapart,
    List.filter_append, hword]
  rfl

theorem head?_toDigits {n : Nat} (h : 0 < n) : (Nat.toDigits 10 n).head? ≠ some '0' := by
  have hdigit : ∀ n < 10, 0 < n → Nat.digitChar n ≠ '0' := by decide
  induction n using Nat.strongRecOn
  case ind n hi =>
    rw [Nat.toDigits_eq_if (by decide)]
    split
    case isTrue hn => simpa using hdigit n hn h
    case isFalse hn =>
      rw [List.head?_append_of_ne_nil _ Nat.toDigits_ne_nil]
      exact hi (n / 10) (by omega) (by omega)

-- Digits that spell a number. With a zero in front of other digits they would be octal.
structure Spells (digits : List Char) (n : Nat) : Prop where
  ne_nil  : digits ≠ []
  digit   : ∀ c ∈ digits, c.isDigit
  decimal : digits.head? = some '0' → digits = ['0']
  value   : n = Nat.ofDigitChars 10 digits 0

namespace Spells

variable {digits : List Char} {m n : Nat}

theorem unique (h : Spells digits m) (h' : Spells digits n) : m = n :=
  h.value.trans h'.value.symm

theorem not_marked : ¬Spells (digits ++ ['u']) n :=
  fun h => absurd (h.digit 'u' (by simp)) (by decide)

theorem ne_symbol (h : Spells digits n) {x : Char} (hx : ¬x.isDigit) : digits ≠ [x] := by
  rintro rfl
  exact hx (h.digit x (List.mem_singleton_self x))

theorem repr (n : Nat) : Spells n.repr.toList n := by
  have hrepr : n.repr.toList = Nat.toDigits 10 n := by simp [Nat.repr]
  refine ⟨hrepr ▸ Nat.toDigits_ne_nil, fun _ => isDigit_of_mem_repr, ?_, ?_⟩
  case refine_1 =>
    rw [hrepr]
    intro h
    obtain rfl | hn := Nat.eq_zero_or_pos n
    case inl => rfl
    case inr => exact absurd h (head?_toDigits hn)
  case refine_2 => rw [hrepr, Nat.ofDigitChars_toDigits (by decide) (by decide)]

end Spells

-- The value of a token that is a number. Unsigned ones are marked.
inductive Number : List Char → Constant → Prop
  | int {digits n holds} : Spells digits n → Number digits ⟨.int, n, holds⟩
  | uint {digits n holds} : Spells digits n → Number (digits ++ ['u']) ⟨.uint, n, holds⟩

namespace Number

variable {token : List Char} {c c' : Constant}

theorem unique (h : Number token c) (h' : Number token c') : c = c' := by
  generalize htoken : token = token' at h'
  cases h
  case int hd =>
    cases h'
    case int hd' =>
      cases htoken
      cases hd.unique hd'
      rfl
    case uint => exact absurd (htoken ▸ hd) Spells.not_marked
  case uint hd =>
    cases h'
    case int hd' => exact absurd (htoken ▸ hd') Spells.not_marked
    case uint hd' =>
      cases List.append_cancel_right htoken
      cases hd.unique hd'
      rfl

theorem ne_symbol (h : Number token c) {x : Char} (hx : ¬x.isDigit) : token ≠ [x] := by
  cases h
  case int hd => exact hd.ne_symbol hx
  case uint hd =>
    intro h
    exact hd.ne_nil (List.append_eq_singleton_iff.mp h |>.resolve_right (by simp)).left

theorem le_of_spells (h : Number token c) {n : Nat} (hn : Spells token n) : n ≤ 2147483647 := by
  cases h
  case int holds hd =>
    cases hd.unique hn
    exact Int.ofNat_le.mp holds.right
  case uint => exact absurd hn Spells.not_marked

end Number

-- What an expression is read as. A sum is read from its left: behind the first operand the rest
-- goes on with the value so far.
inductive Level where
  | primary
  | unary
  | sum
  | rest (left : Constant)

-- The value of tokens that are read on a level. A sign belongs to the operand behind it.
inductive Means : Level → List (List Char) → Constant → Prop
  | number {t c} : Number t c → Means .primary [t] c
  | paren {ts c} : Means .sum ts c → Means .primary (['('] :: ts ++ [[')']]) c
  | unary {ts c} : Means .primary ts c → Means .unary ts c
  | sign {ts a c} (s : Sign) : Means .unary ts a → c.type = a.type →
      c.value = s.apply a.value → Means .unary ([s.char] :: ts) c
  | sum {ts us a c} : Means .unary ts a → Means (.rest a) us c → Means .sum (ts ++ us) c
  | done {c} : Means (.rest c) [] c
  | more {ts us a b c d} (s : Sign) : Means .unary ts b → a.type = b.type → c.type = a.type →
      c.value = a.value + s.apply b.value → Means (.rest c) us d →
      Means (.rest a) ([s.char] :: ts ++ us) d

-- The value of a text that is a constant expression.
def Evaluates (text : String) (c : Constant) : Prop :=
  Means .sum (tokens text) c

-- Tokens that an expression cannot go on with.
def Level.Stops : Level → List (List Char) → Prop
  | primary, _ | unary, _ => True
  | sum, ts | rest _, ts => ∀ s : Sign, ts.head? ≠ some [s.char]

namespace Means

variable {level : Level} {ts ts' us us' : List (List Char)} {c c' : Constant}

theorem head?_primary (h : Means .primary ts c) (s : Sign) (us : List (List Char)) :
    (ts ++ us).head? ≠ some [s.char] := by
  cases h
  case number hn => simpa using hn.ne_symbol s.not_isDigit_char
  case paren => cases s <;> simp [Sign.char]

-- Reading takes the same tokens from the front of the same input, and finds the same value. The
-- induction is on one of the two ways to read it.
theorem unique_append (h : Means level ts c) (h' : Means level ts' c') (hs : level.Stops us)
    (hs' : level.Stops us') (he : ts ++ us = ts' ++ us') : c = c' ∧ us = us' := by
  induction h generalizing ts' us us' c'
  case number hn =>
    cases h'
    case number hn' =>
      cases he
      exact ⟨hn.unique hn', rfl⟩
    case paren => exact absurd (List.cons.inj he).left (hn.ne_symbol (by decide))
  case paren hi =>
    cases h'
    case number hn => exact absurd (List.cons.inj he).left.symm (hn.ne_symbol (by decide))
    case paren hm =>
      have hclose {us : List (List Char)} : Level.sum.Stops ([')'] :: us) := by
        intro s
        cases s <;> simp [Sign.char]
      obtain ⟨rfl, hus⟩ := hi hm hclose hclose (by simpa using he)
      exact ⟨rfl, (List.cons.inj hus).right⟩
  case unary hm hi =>
    cases h'
    case unary hm' => exact hi hm' trivial trivial he
    case sign s _ _ _ => exact absurd (congrArg List.head? he) (hm.head?_primary s us)
  case sign s _ ht hv hi =>
    cases h'
    case unary hm => exact absurd (congrArg List.head? he.symm) (hm.head?_primary s us')
    case sign s' hm ht' hv' =>
      obtain ⟨hchar, hts⟩ := List.cons.inj he
      cases Sign.char_inj (List.singleton_inj.mp hchar)
      obtain ⟨rfl, hus⟩ := hi hm trivial trivial hts
      exact ⟨Constant.ext (ht.trans ht'.symm) (hv.trans hv'.symm), hus⟩
  case sum hi hi' =>
    cases h'
    case sum hm hm' =>
      obtain ⟨rfl, hrest⟩ := hi hm trivial trivial (by simpa using he)
      exact hi' hm' hs hs' hrest
  case done =>
    cases h'
    case done => exact ⟨rfl, he⟩
    case more s _ _ _ _ _ => exact absurd (congrArg List.head? he) (hs s)
  case more s _ _ ht hv _ hi hi' =>
    cases h'
    case done => exact absurd (congrArg List.head? he.symm) (hs' s)
    case more s' hm _ ht' hv' hm' =>
      obtain ⟨hchar, hts⟩ := List.cons.inj he
      cases Sign.char_inj (List.singleton_inj.mp hchar)
      obtain ⟨rfl, hrest⟩ := hi hm trivial trivial (by simpa using hts)
      cases Constant.ext (ht.trans ht'.symm) (hv.trans hv'.symm)
      exact hi' hm' hs hs' hrest

-- Numbers without a mark are signed, and thus below the end of their type.
theorem le_of_spells (h : Means level ts c) {token : List Char} (ht : token ∈ ts) {n : Nat}
    (hn : Spells token n) : n ≤ 2147483647 := by
  induction h
  case number hnumber =>
    cases List.mem_singleton.mp ht
    exact hnumber.le_of_spells hn
  case paren hi =>
    have hopen : token ≠ ['('] := hn.ne_symbol (by decide)
    have hclose : token ≠ [')'] := hn.ne_symbol (by decide)
    exact hi (by simpa [hopen, hclose] using ht)
  case unary hi => exact hi ht
  case sign s _ _ _ hi =>
    exact hi ((List.mem_cons.mp ht).resolve_left (hn.ne_symbol s.not_isDigit_char))
  case sum hi hi' => exact (List.mem_append.mp ht).elim hi hi'
  case done => cases ht
  case more s _ _ _ _ _ hi hi' =>
    have hsign : token ≠ [s.char] := hn.ne_symbol s.not_isDigit_char
    exact (List.mem_append.mp ht).elim (fun ht => hi ((List.mem_cons.mp ht).resolve_left hsign)) hi'

end Means

theorem Evaluates.unique {text : String} {c c' : Constant} (h : Evaluates text c)
    (h' : Evaluates text c') : c = c' := by
  have hend : Level.sum.Stops [] := by simp [Level.Stops]
  exact (Means.unique_append h h' hend hend rfl).left

end Glsl

end ShaderLift
