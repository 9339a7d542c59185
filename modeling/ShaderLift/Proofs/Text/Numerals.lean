import Mathlib
import ShaderLift.CommandLine.Basic
import ShaderLift.Proofs.Text.Words

/-!
Numbers at the front of text can be read back if the text does not go on with a digit, and so can
hexadecimal numbers that are the whole text.
-/

namespace ShaderLift

variable {a b : Nat} {m n : UInt32} {s t : String}

theorem append_cancel_left {u : String} (h : u ++ s = u ++ t) : s = t := by
  have h := congrArg String.toList h
  rw [String.toList_append, String.toList_append] at h
  exact String.toList_inj.mp (List.append_cancel_left h)

-- Text whose first character is no digit, if it has one.
def NoDigitFirst (s : String) : Prop :=
  ∀ c ∈ s.toList.head?, ¬c.isDigit

instance : Decidable (NoDigitFirst s) :=
  decidable_of_iff (s.toList.head?.all (!·.isDigit)) <| by
    cases h : s.toList.head? <;> simp [NoDigitFirst, h]

theorem isDigit_of_mem_repr {c : Char} (h : c ∈ a.repr.toList) : c.isDigit := by
  have h : c ∈ Nat.toDigits 10 a := by simpa [Nat.repr] using h
  exact Nat.isDigit_of_mem_toDigits (by decide) (by decide) h

theorem takeWhile_isDigit_repr (hs : NoDigitFirst s) :
    (a.repr ++ s).toList.takeWhile Char.isDigit = a.repr.toList := by
  have hdigits : ∀ c ∈ a.repr.toList, c.isDigit := fun _ => isDigit_of_mem_repr
  have hrest : s.toList.takeWhile Char.isDigit = [] := by
    cases h : s.toList
    case nil => rfl
    case cons c cs => exact List.takeWhile_cons_of_neg (hs c (by simp [h]))
  rw [String.toList_append, List.takeWhile_append_of_pos hdigits, hrest, List.append_nil]

theorem repr_append_inj (hs : NoDigitFirst s) (ht : NoDigitFirst t)
    (h : a.repr ++ s = b.repr ++ t) : a = b ∧ s = t := by
  have hab : a = b := by
    rw [← Nat.repr_inj, ← String.toList_inj, ← takeWhile_isDigit_repr hs, h,
      takeWhile_isDigit_repr ht]
  subst hab
  exact ⟨rfl, append_cancel_left h⟩

theorem decimal_append_inj (hs : NoDigitFirst s) (ht : NoDigitFirst t)
    (h : decimal m ++ s = decimal n ++ t) : m = n ∧ s = t :=
  (repr_append_inj hs ht h).imp_left UInt32.toNat_inj.mp

theorem decimal_inj : decimal m = decimal n ↔ m = n :=
  Nat.repr_inj.trans UInt32.toNat_inj

namespace CommandLine

theorem readDigits_append {cs ds : List Char} :
    readDigits a (cs ++ ds) = readDigits a cs >>= fun b => readDigits b ds := by
  induction cs generalizing a
  case nil => rfl
  case cons c cs hi =>
    rw [List.cons_append, readDigits, readDigits]
    split
    case h_1 => rfl
    case h_2 =>
      split
      case isTrue => exact hi
      case isFalse => rfl

theorem readDigits_toDigits (ha : a < UInt64.size) : readDigits 0 (Nat.toDigits 16 a) = .ok a := by
  have hdigit : ∀ n < 16, hexValue? (Nat.digitChar n) = some n := by decide
  induction a using Nat.strongRecOn
  case ind a hi =>
    rw [Nat.toDigits_eq_if (by decide)]
    split
    case isTrue h => simp [readDigits, hdigit a h, ha]
    case isFalse h =>
      have hlast : readDigits (a / 16) [Nat.digitChar (a % 16)] = .ok a := by
        simp [readDigits, hdigit (a % 16) (Nat.mod_lt _ (by decide)), Nat.div_add_mod, ha]
      rw [readDigits_append, hi _ (by omega) (by omega)]
      exact hlast

theorem readHex_hexDigits (ha : a < UInt64.size) : readHex (hexDigits 1 a).toList = .ok a := by
  have hpositive : 0 < (Nat.toDigits 16 a).length := List.length_pos_iff.mpr Nat.toDigits_ne_nil
  have hdigits : (hexDigits 1 a).toList = Nat.toDigits 16 a := by
    have : 1 - (Nat.toDigits 16 a).length = 0 := by omega
    simp [hexDigits, this]
  have hplus : '+' ∉ Nat.toDigits 16 a := fun hc =>
    absurd (isAllowed_of_mem_toDigits (by decide) (by decide) hc) (by decide)
  rw [hdigits, ← readDigits_toDigits ha]
  unfold readHex
  split
  case h_1 h => exact absurd h Nat.toDigits_ne_nil
  case h_2 h => simp [h] at hplus
  case h_3 h => simp [h] at hplus
  case h_4 => rfl

end CommandLine

end ShaderLift
