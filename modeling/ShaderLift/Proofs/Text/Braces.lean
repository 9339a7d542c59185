import ShaderLift.Word

/-!
Braces in text: how deep they nest, when they are balanced, and text that has none. Such text does
not leave its line either.
-/

namespace ShaderLift

def openBrace : Char := '\x7b'

def closeBrace : Char := '\x7d'

-- As many braces are closed as are opened, and at no place more than have been opened before.
def Balanced (l : List Char) : Prop :=
  l.count openBrace = l.count closeBrace ∧
    ∀ front, front <+: l → front.count closeBrace ≤ front.count openBrace

-- How many braces are open behind a text that starts with `n` open ones. There is no answer if the
-- text closes one that is not open.
def braceDepth (n : Nat) : List Char → Option Nat
  | [] => some n
  | c :: l =>
    if c = openBrace then braceDepth (n + 1) l
    else if c = closeBrace then if n = 0 then none else braceDepth (n - 1) l
    else braceDepth n l

-- The braces of a text alone.
def braces (l : List Char) : List Char :=
  l.filter fun c => c = openBrace ∨ c = closeBrace

variable {l l' : List Char} {n m k : Nat} {s t : String}

theorem braceDepth_append :
    braceDepth n (l ++ l') = (braceDepth n l).bind (braceDepth · l') := by
  induction l generalizing n
  case nil => rfl
  case cons c l hi =>
    simp only [List.cons_append, braceDepth, hi]
    split
    case isTrue => rfl
    case isFalse =>
      split
      case isTrue => split <;> rfl
      case isFalse => rfl

theorem braceDepth_braces : braceDepth n (braces l) = braceDepth n l := by
  induction l generalizing n
  case nil => rfl
  case cons c l hi =>
    by_cases ho : c = openBrace
    case pos => simpa [braces, ho, braceDepth] using hi
    case neg =>
      by_cases hc : c = closeBrace
      case pos =>
        have hne : closeBrace ≠ openBrace := by decide
        simp only [braces, hc, decide_true, List.filter_cons_of_pos, or_true, braceDepth, hne,
          if_false, if_true]
        split
        case isTrue => rfl
        case isFalse => exact hi
      case neg => simpa [braces, ho, hc, braceDepth] using hi

theorem forall_prefix_cons {P : List Char → Prop} {c : Char} :
    (∀ front, front <+: c :: l → P front) ↔ P [] ∧ ∀ front, front <+: l → P (c :: front) := by
  constructor
  case mp =>
    exact fun h => ⟨h [] List.nil_prefix, fun _ hf => h _ (List.prefix_cons_inj c |>.mpr hf)⟩
  case mpr =>
    rintro ⟨hn, hc⟩ front hf
    obtain rfl | ⟨front, rfl, hl⟩ := List.prefix_cons_iff.mp hf
    case inl => exact hn
    case inr => exact hc front hl

theorem braceDepth_eq_some_iff :
    braceDepth n l = some m ↔
      n + l.count openBrace = m + l.count closeBrace ∧
        ∀ front, front <+: l → front.count closeBrace ≤ n + front.count openBrace := by
  have hne : openBrace ≠ closeBrace := by decide
  induction l generalizing n
  case nil => simp [braceDepth]
  case cons c l hi =>
    rw [forall_prefix_cons, braceDepth]
    by_cases ho : c = openBrace
    case pos =>
      simp only [ho, if_true, hi, List.count_cons_self, List.count_cons_of_ne hne, List.count_nil]
      grind
    case neg =>
      by_cases hc : c = closeBrace
      case pos =>
        subst hc
        simp only [hne.symm, if_true, if_false, List.count_cons_self,
          List.count_cons_of_ne hne.symm, List.count_nil]
        split
        case isTrue hn =>
          refine ⟨(nomatch ·), fun ⟨_, _, h⟩ => ?_⟩
          have := h [] List.nil_prefix
          simp [hn] at this
        case isFalse hn =>
          simp only [hi]
          grind
      case neg =>
        simp only [ho, hc, if_false, hi, List.count_cons_of_ne ho, List.count_cons_of_ne hc,
          List.count_nil]
        grind

theorem balanced_iff : Balanced l ↔ braceDepth 0 l = some 0 := by
  simp [Balanced, braceDepth_eq_some_iff]

namespace Balanced

theorem braceDepth (h : Balanced l) : braceDepth n l = some n := by
  refine braceDepth_eq_some_iff.mpr ⟨by rw [h.left], fun front hf => ?_⟩
  exact Nat.le_add_left_of_le (h.right front hf)

theorem append (h : Balanced l) (h' : Balanced l') : Balanced (l ++ l') := by
  simp [balanced_iff, braceDepth_append, h.braceDepth, h'.braceDepth]

theorem nil : Balanced [] :=
  balanced_iff.mpr rfl

theorem braces_iff : Balanced (braces l) ↔ Balanced l := by
  simp [balanced_iff, braceDepth_braces]

end Balanced

-- Text that stays on its line.
def Unbroken (s : String) : Prop :=
  ∀ c ∈ s.toList, c ∉ ['\n', '\r']

instance : Decidable (Unbroken s) :=
  List.decidableBAll (· ∉ ['\n', '\r']) s.toList

@[simp] theorem unbroken_append : Unbroken (s ++ t) ↔ Unbroken s ∧ Unbroken t := by
  simp only [Unbroken, String.toList_append, List.forall_mem_append]

-- Text on one line, without braces.
def Plain (s : String) : Prop :=
  ∀ c ∈ s.toList, c ∉ [openBrace, closeBrace, '\n', '\r']

instance : Decidable (Plain s) :=
  List.decidableBAll (· ∉ [openBrace, closeBrace, '\n', '\r']) s.toList

@[simp] theorem plain_append : Plain (s ++ t) ↔ Plain s ∧ Plain t := by
  simp only [Plain, String.toList_append, List.forall_mem_append]

theorem Plain.unbroken (h : Plain s) : Unbroken s :=
  fun c hc hm => h c hc (List.mem_cons_of_mem _ (List.mem_cons_of_mem _ hm))

theorem Plain.braces (h : Plain s) : braces s.toList = [] := by
  refine List.filter_eq_nil_iff.mpr fun c hc => ?_
  have := h c hc
  simp_all

theorem plain_joinWith {items : List String} (hs : Plain s) :
    Plain (joinWith s items) ↔ ∀ t ∈ items, Plain t := by
  fun_induction joinWith s items
  case case1 => simp +decide
  case case2 => simp
  case case3 item items _ hi => simp [hs, hi]

end ShaderLift
