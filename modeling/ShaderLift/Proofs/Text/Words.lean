import ShaderLift.Glsl.Identifier
import ShaderLift.Decimal.Binary32
import ShaderLift.Proofs.Text.Braces

/-!
Words: text of letters, digits and underscores. Identifiers and numbers are such text, up to the
signs, points and exponents of numbers.
-/

namespace ShaderLift

variable {n : Nat} {s t : String}

-- Text of letters, digits and underscores.
def IsWord (s : String) : Prop :=
  ∀ c ∈ s.toList, Identifier.isAllowed c

instance : Decidable (IsWord s) :=
  List.decidableBAll (Identifier.isAllowed ·) s.toList

@[simp] theorem isWord_append : IsWord (s ++ t) ↔ IsWord s ∧ IsWord t := by
  simp only [IsWord, String.toList_append, List.mem_append]
  grind

theorem IsWord.plain (h : IsWord s) : Plain s := by
  have hout : ∀ c ∈ [openBrace, closeBrace, '\n', '\r'], ¬Identifier.isAllowed c := by
    simp only [List.forall_mem_cons, List.not_mem_nil, false_imp_iff, implies_true, and_true]
    decide
  exact fun c hc hm => hout c hm (h c hc)

theorem isAllowed_of_mem_toDigits {c : Char} {base : Nat} (hb : 1 < base) (hb' : base ≤ 16)
    (h : c ∈ Nat.toDigits base n) : Identifier.isAllowed c := by
  have digit : ∀ n < 16, Identifier.isAllowed (Nat.digitChar n) := by decide
  induction n using Nat.strongRecOn
  case ind n hi =>
    rw [Nat.toDigits_eq_if hb] at h
    split at h
    case isTrue hn => exact List.mem_singleton.mp h ▸ digit n (by omega)
    case isFalse hn =>
      cases List.mem_append.mp h
      case inl h => exact hi _ (Nat.div_lt_self (by omega) hb) h
      case inr h =>
        have := Nat.mod_lt n (Nat.lt_of_succ_lt hb)
        exact List.mem_singleton.mp h ▸ digit _ (by omega)

@[simp] theorem isWord_repr : IsWord n.repr := by
  intro c hc
  have hc : c ∈ Nat.toDigits 10 n := by simpa [Nat.repr] using hc
  exact isAllowed_of_mem_toDigits (by decide) (by decide) hc

@[simp] theorem isWord_decimal {n : UInt32} : IsWord (decimal n) :=
  isWord_repr

@[simp] theorem isWord_hexDigits {width : Nat} : IsWord (hexDigits width n) := by
  intro c hc
  simp only [hexDigits, String.toList_ofList, List.mem_append] at hc
  cases hc
  case inl hc => exact List.eq_of_mem_replicate hc ▸ by decide
  case inr hc => exact isAllowed_of_mem_toDigits (by decide) (by decide) hc

@[simp] theorem plain_repr : Plain n.repr :=
  isWord_repr.plain

@[simp] theorem plain_decimal {n : UInt32} : Plain (decimal n) :=
  isWord_decimal.plain

theorem plain_toString_int {i : Int} : Plain (toString i) := by
  cases i
  case ofNat n => exact (isWord_repr (n := n)).plain
  case negSucc n => exact plain_append.mpr ⟨by decide, isWord_repr.plain⟩

namespace Identifier

theorem mem_of_mem_collapse {c : Char} {l : List Char} (h : c ∈ collapse l) : c ∈ l := by
  fun_induction collapse l
  case case1 => exact h
  case case2 cs rest hc hi => simp_all
  case case3 hi => exact List.mem_cons.mpr ((List.mem_cons.mp h).imp_right hi)

theorem mem_guardStart {c : Char} {l : List Char} (h : c ∈ guardStart l) : c = '_' ∨ c ∈ l := by
  unfold guardStart at h
  split at h
  case h_1 => exact .inl (List.mem_singleton.mp h)
  case h_2 => split at h <;> simp_all

theorem isWord_ofString : IsWord (ofString s) := by
  have hclean : ∀ c ∈ collapse (guardStart (s.toList.map fun c => if isAllowed c then c else '_')),
      isAllowed c := by
    intro c hc
    obtain rfl | hc := mem_guardStart (mem_of_mem_collapse hc)
    case inl => decide
    case inr =>
      obtain ⟨c, _, rfl⟩ := List.mem_map.mp hc
      split
      case isTrue h => exact h
      case isFalse => decide
  intro c hc
  simp only [ofString, ofChars, String.toList_ofList] at hc
  split at hc
  case isTrue =>
    obtain rfl | hc := List.mem_cons.mp hc
    case inl => decide
    case inr => exact hclean c hc
  case isFalse =>
    split at hc
    case isTrue =>
      cases List.mem_append.mp hc
      case inl hc => exact hclean c hc
      case inr hc => exact List.all_eq_true.mp (show ['_', '0'].all isAllowed by decide) c hc
    case isFalse => exact hclean c hc

theorem isWord_ofSemantic {index : UInt32} : IsWord (ofSemantic s index) := by
  simp [ofSemantic, isWord_ofString]

end Identifier

namespace Decimal

variable {digits : List Char}

theorem mem_withPoint {c : Char} {leading : Int} (h : c ∈ withPoint digits leading) :
    c ∈ digits ∨ c = '0' ∨ c = '.' := by
  simp only [withPoint] at h
  split at h
  case isTrue => grind
  case isFalse => grind [List.mem_of_mem_take, List.mem_of_mem_drop]

theorem mem_withExponent {c : Char} {leading : Int} (h : c ∈ withExponent digits leading) :
    c ∈ digits ∨ c = '.' ∨ c = 'e' ∨ c ∈ (toString leading).toList := by
  unfold withExponent at h
  split at h <;> grind

theorem plain_text {d : Decimal} {format : NumberFormat} : Plain (d.text format) := by
  have digit {c : Char} (h : c ∈ d.scientific.1) : Identifier.isAllowed c := by
    simp only [scientific, List.mem_reverse] at h
    have := List.mem_reverse.mp ((List.dropWhile_suffix _).mem h)
    exact isAllowed_of_mem_toDigits (by decide) (by decide) this
  have hout : ∀ c ∈ [openBrace, closeBrace, '\n', '\r'], ¬Identifier.isAllowed c ∧ c ≠ '.' := by
    simp only [List.forall_mem_cons, List.not_mem_nil, false_imp_iff, implies_true, and_true]
    decide
  intro c h hm
  obtain ⟨hc, hp⟩ := hout c hm
  simp only [text] at h
  split at h <;> rw [String.toList_ofList] at h
  case isTrue =>
    obtain h | rfl | h := mem_withPoint h
    case inl => exact hc (digit h)
    case inr.inl => exact hc (by decide)
    case inr.inr => exact hp h
  case isFalse =>
    obtain h | h | rfl | h := mem_withExponent h
    case inl => exact hc (digit h)
    case inr.inl => exact hp h
    case inr.inr.inl => exact hc (by decide)
    case inr.inr.inr => exact plain_toString_int c h hm

end Decimal

theorem Binary32.plain_text {word : UInt32} : Plain (text word) := by
  have hsign : Plain (if isNegative word then "-" else "") := by split <;> decide
  cases h : kind word <;> simp only [text, h]
  case zero => exact plain_append.mpr ⟨hsign, by decide⟩
  all_goals exact plain_append.mpr ⟨hsign, Decimal.plain_text⟩

end ShaderLift
