import Mathlib
import ShaderLift.Dialect.Version

/-!
Which texts are read as which version. A text without a dot is the number of the version. One with a
dot is its API version, or stands for no API version at all and is only counted like one.
-/

namespace ShaderLift

-- A decimal number, with an optional plus sign.
def Numeral (text : List Char) (n : Nat) : Prop :=
  ∃ digits, (text = digits ∨ text = '+' :: digits) ∧ digits ≠ [] ∧ (∀ c ∈ digits, c.isDigit) ∧
    n = Nat.ofDigits 10 (digits.reverse.map fun c => c.toNat - '0'.toNat)

-- Two numbers with a dot between them.
def Dotted (text : String) (major minor : Nat) : Prop :=
  ∃ front back, text.toList = front ++ '.' :: back ∧ Numeral front major ∧ Numeral back minor

-- Text without its sign.
def unsigned (text : List Char) : List Char :=
  match text with
  | '+' :: rest => rest
  | _ => text

theorem unsigned_of_digits {digits : List Char} (h : ∀ c ∈ digits, c.isDigit) :
    unsigned digits = digits := by
  unfold unsigned
  split
  case h_1 => exact absurd (h '+' List.mem_cons_self) (by decide)
  case h_2 => rfl

namespace Numeral

variable {text : List Char} {n m : Nat}

theorem ofDigits_eq_foldl {digits : List Char} :
    Nat.ofDigits 10 (digits.reverse.map fun c => c.toNat - '0'.toNat) =
      digits.foldl (fun n c => 10 * n + (c.toNat - '0'.toNat)) 0 := by
  rw [Nat.ofDigits_eq_foldr, List.foldr_map, List.foldr_reverse]
  simp only [Nat.cast_id, Nat.add_comm]

theorem iff_unsigned :
    Numeral text n ↔ unsigned text ≠ [] ∧ (∀ c ∈ unsigned text, c.isDigit) ∧
      n = (unsigned text).foldl (fun n c => 10 * n + (c.toNat - '0'.toNat)) 0 := by
  rw [← ofDigits_eq_foldl]
  constructor
  case mp =>
    rintro ⟨digits, ht, hne, hd, hn⟩
    have hunsigned : unsigned text = digits := by
      cases ht
      case inl ht => rw [ht, unsigned_of_digits hd]
      case inr ht => exact ht ▸ rfl
    rw [hunsigned]
    exact ⟨hne, hd, hn⟩
  case mpr =>
    rintro ⟨hne, hd, hn⟩
    refine ⟨unsigned text, ?_, hne, hd, hn⟩
    unfold unsigned
    split
    case h_1 => exact .inr rfl
    case h_2 => exact .inl rfl

theorem unique (h : Numeral text n) (h' : Numeral text m) : n = m := by
  have ⟨_, _, hn⟩ := iff_unsigned.mp h
  have ⟨_, _, hm⟩ := iff_unsigned.mp h'
  exact hn.trans hm.symm

theorem no_dot (h : Numeral text n) : '.' ∉ text := by
  have ⟨digits, ht, _, hd, _⟩ := h
  have hdot : '.' ∉ digits := fun hm => absurd (hd _ hm) (by decide)
  cases ht
  case inl ht => exact ht ▸ hdot
  case inr ht => simp [ht, hdot]

end Numeral

-- Text is cut at its first dot.
theorem span_dot {front back : List Char} (h : '.' ∉ front) :
    (front ++ '.' :: back).span (· ≠ '.') = (front, '.' :: back) := by
  have hfront : ∀ c ∈ front, decide (c ≠ '.') = true := by
    intro c hc
    exact decide_eq_true (ne_of_mem_of_not_mem hc h)
  rw [List.span_eq_takeWhile_dropWhile, List.takeWhile_append_of_pos hfront,
    List.dropWhile_append_of_pos hfront]
  simp

namespace Dotted

variable {text : String} {major minor major' minor' : Nat}

theorem unique (h : Dotted text major minor) (h' : Dotted text major' minor') :
    major = major' ∧ minor = minor' := by
  have ⟨front, back, ht, hf, hb⟩ := h
  have ⟨front', back', ht', hf', hb'⟩ := h'
  have he : (front, '.' :: back) = (front', '.' :: back') := by
    rw [← span_dot hf.no_dot, ← span_dot hf'.no_dot, ← ht, ht']
  cases he
  exact ⟨hf.unique hf', hb.unique hb'⟩

end Dotted

namespace Version

variable {es : Bool} {v w : Version} {major minor : Nat} {text : String}

-- The version of the programming interface that a version of the language belongs to.
def api : Version → Nat × Nat
  | gl20 | es20 => (2, 0)
  | gl21 => (2, 1)
  | gl30 | es30 => (3, 0)
  | gl31 | es31 => (3, 1)
  | gl32 | es32 => (3, 2)
  | gl33 => (3, 3)
  | gl40 => (4, 0)
  | gl41 => (4, 1)
  | gl42 => (4, 2)
  | gl43 => (4, 3)
  | gl44 => (4, 4)
  | gl45 => (4, 5)
  | gl46 => (4, 6)

-- Numbers that are no API version of the family, but are counted like one.
structure Misread (v : Version) (major minor : Nat) : Prop where
  fits   : major < UInt32.size ∧ minor < UInt32.size
  noApi  : ∀ w : Version, w.isEs = v.isEs → w.api ≠ (major, minor)
  number : 100 * major + 10 * minor ≡ v.number.toNat [MOD UInt32.size]

theorem api_lt : v.api.1 < UInt32.size ∧ v.api.2 < UInt32.size := by
  cases v <;> decide

-- What a text with a dot stands for.
def Stands (v : Version) (major minor : Nat) : Prop :=
  v.api = (major, minor) ∨ v.Misread major minor

theorem Stands.fits (h : v.Stands major minor) : major < UInt32.size ∧ minor < UInt32.size := by
  cases h
  case inl h =>
    have := v.api_lt
    rwa [h] at this
  case inr h => exact h.fits

end Version

end ShaderLift
