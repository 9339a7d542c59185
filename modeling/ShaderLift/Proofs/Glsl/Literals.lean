import ShaderLift.Glsl.Expr
import ShaderLift.Proofs.Glsl.Constants

/-!
Integer literals denote the words that they are made of, and different words have different
literals.
-/

namespace ShaderLift

namespace Word

variable {word : UInt32}

theorem holds_signed : ValueType.int.Holds (signed word) := by
  have := word.toNat_lt
  unfold signed
  split <;> simp only [ValueType.Holds] <;> omega

theorem holds_toNat : ValueType.uint.Holds word.toNat := by
  have := word.toNat_lt
  simp only [ValueType.Holds]
  omega

theorem signed_modEq : signed word ≡ word.toNat [ZMOD 2 ^ 32] := by
  unfold signed
  split
  case isTrue => exact .refl _
  case isFalse => exact Int.modEq_iff_dvd.mpr ⟨1, by omega⟩

end Word

theorem ValueType.lower_ne_float {d : Dialect} {t : ValueType} (h : t ≠ float) :
    t.lower d ≠ float := by
  cases t <;> simp_all [lower]
  split <;> simp

namespace Glsl

variable {word : UInt32}

theorem Evaluates.of_unary {text : String} {c : Constant} (h : Means .unary (tokens text) c) :
    Evaluates text c := by
  have h := Means.sum h .done
  rwa [List.append_nil] at h

theorem means_repr {n : Nat} (h : ValueType.int.Holds n) :
    Means .unary [n.repr.toList] ⟨.int, n, h⟩ :=
  .unary (.number (.int (Spells.repr n)))

theorem evaluates_toString {n : Int} (h : ValueType.int.Holds n) (hmin : n ≠ -2147483648) :
    Evaluates (toString n) ⟨.int, n, h⟩ := by
  apply Evaluates.of_unary
  cases n
  case ofNat n =>
    have htokens : tokens (toString (Int.ofNat n)) = [n.repr.toList] :=
      tokens_word isWord_repr (Spells.repr n).ne_nil
    rw [htokens]
    exact means_repr h
  case negSucc n =>
    have htokens : tokens (toString (Int.negSucc n)) = [['-'], (n + 1).repr.toList] :=
      tokens_minus_word isWord_repr (Spells.repr (n + 1)).ne_nil
    have hn : ValueType.int.Holds (n + 1 : Nat) := by
      simp only [ValueType.Holds] at h ⊢
      omega
    rw [htokens]
    exact .sign .minus (means_repr hn) rfl rfl

-- The smallest number is no number of the type with a sign, but one less than such a one.
theorem evaluates_intLiteral {n : Int} (h : ValueType.int.Holds n) :
    Evaluates (intLiteral n).text ⟨.int, n, h⟩ := by
  unfold intLiteral
  split
  case isFalse hmin => exact evaluates_toString h hmin
  case isTrue hmin =>
    subst hmin
    have htokens : tokens (Expr.op .sub (.int (-2147483647)) (.int 1)).text =
        [['('], ['-'], (Nat.repr 2147483647).toList, ['-'], (Nat.repr 1).toList, [')']] := by
      decide
    have hleft : Means .unary [['-'], (Nat.repr 2147483647).toList]
        ⟨.int, -2147483647, by decide⟩ :=
      .sign .minus (means_repr (by decide)) rfl rfl
    have hrest : Means (.rest ⟨.int, -2147483647, by decide⟩) [['-'], (Nat.repr 1).toList]
        ⟨.int, -2147483648, h⟩ :=
      .more (c := ⟨.int, -2147483648, h⟩) .minus (means_repr (by decide)) rfl rfl rfl .done
    apply Evaluates.of_unary
    rw [htokens]
    exact .unary (.paren (.sum hleft hrest))

theorem evaluates_uint :
    Evaluates (Literal.uint word).text ⟨.uint, word.toNat, Word.holds_toNat⟩ := by
  have hspells : Spells (decimal word).toList word.toNat := .repr _
  have htext : (Literal.uint word).text.toList = (decimal word).toList ++ ['u'] :=
    String.toList_append
  have htokens : tokens (Literal.uint word).text = [(decimal word).toList ++ ['u']] := by
    rw [← htext]
    exact tokens_word (isWord_append.mpr ⟨isWord_decimal, by decide⟩) (by simp [htext])
  apply Evaluates.of_unary
  rw [htokens]
  exact .unary (.number (.uint hspells))

-- Text that is an integer of a type, with the bits of a word.
structure Denotes (text : String) (t : ValueType) (word : UInt32) : Prop where
  value : ∃ c, (∀ c', Evaluates text c' ↔ c' = c) ∧ c.type = t ∧
    c.value ≡ word.toNat [ZMOD 2 ^ 32]
  int   : t = .int → ∀ token ∈ tokens text, ∀ n, Spells token n → n ≤ 2147483647
  uint  : t = .uint → ∃ digits n, text.toList = digits ++ ['u'] ∧ Spells digits n ∧ n < 2 ^ 32

namespace Denotes

variable {text : String} {t t' : ValueType} {word word' : UInt32}

theorem unique (h : Denotes text t word) (h' : Denotes text t' word') : word = word' := by
  obtain ⟨c, hc, _, hword⟩ := h.value
  obtain ⟨c', hc', _, hword'⟩ := h'.value
  cases (hc' c).mp ((hc c).mpr rfl)
  have hmod : word.toNat ≡ word'.toNat [MOD 2 ^ 32] :=
    Int.natCast_modEq_iff.mp (hword.symm.trans hword')
  exact UInt32.toNat_inj.mp (hmod.eq_of_lt_of_lt word.toNat_lt word'.toNat_lt)

theorem injective {write : UInt32 → String} (h : ∀ word, Denotes (write word) t word) :
    Function.Injective write := by
  intro word word' he
  exact (h word).unique (he ▸ h word')

theorem of_evaluates {c : Constant} (h : Evaluates text c) (ht : c.type = t)
    (hword : c.value ≡ word.toNat [ZMOD 2 ^ 32])
    (hmarked : t = .uint → ∃ digits n, text.toList = digits ++ ['u'] ∧ Spells digits n ∧
      n < 2 ^ 32) :
    Denotes text t word where
  value := by
    refine ⟨c, fun c' => ⟨fun h' => h'.unique h, ?_⟩, ht, hword⟩
    rintro rfl
    exact h
  int _ _ htoken _ hn := h.le_of_spells htoken hn
  uint := hmarked

end Denotes

theorem denotes_intLiteral : Denotes (intLiteral (Word.signed word)).text .int word :=
  .of_evaluates (evaluates_intLiteral Word.holds_signed) rfl Word.signed_modEq (by simp)

theorem denotes_uint : Denotes (Literal.uint word).text .uint word :=
  .of_evaluates evaluates_uint rfl (.refl _) fun _ =>
    ⟨(decimal word).toList, word.toNat, String.toList_append, .repr _, word.toNat_lt⟩

theorem denotes_literal {d : Dialect} {t : ValueType} (ht : t ≠ .float) :
    Denotes (literal d word t).text (t.lower d) word := by
  unfold literal
  split
  case h_1 h => exact absurd h (ValueType.lower_ne_float ht)
  case h_2 h => exact h ▸ denotes_intLiteral
  case h_3 h => exact h ▸ denotes_uint

theorem literal_denotes_bits (d : Dialect) (t : ValueType) (ht : t ≠ .float) :
    (∀ word, Denotes (literal d word t).text (t.lower d) word) ∧
    (∀ word, Denotes (intLiteral (Word.signed word)).text .int word) ∧
    (Function.Injective fun word => (literal d word t).text) ∧
    Function.Injective fun word => (intLiteral (Word.signed word)).text := by
  have hliteral (word : UInt32) : Denotes (literal d word t).text (t.lower d) word :=
    denotes_literal ht
  have hlabel (word : UInt32) : Denotes (intLiteral (Word.signed word)).text .int word :=
    denotes_intLiteral
  exact ⟨hliteral, hlabel, Denotes.injective hliteral, Denotes.injective hlabel⟩

theorem literal_denotes_bits_smallest :
    ValueType.uint.lower (.ofVersion .gl20) = .int ∧
    (literal (.ofVersion .gl20) 0x80000000 .uint).text = "(-2147483647 - 1)" ∧
    Denotes "(-2147483647 - 1)" .int 0x80000000 :=
  ⟨by decide, by decide,
    (literal_denotes_bits (.ofVersion .gl20) .uint (by decide)).left 0x80000000⟩

end Glsl

end ShaderLift
