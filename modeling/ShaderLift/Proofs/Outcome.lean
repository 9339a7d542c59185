import Mathlib
import ShaderLift.Options

/-!
Computations that may fail: when several of them in a row succeed, and with what.
-/

namespace ShaderLift

variable {ε α β : Type} {o : Options}

theorem bind_eq_ok_iff {x : Except ε α} {f : α → Except ε β} {b : β} :
    x >>= f = .ok b ↔ ∃ a, x = .ok a ∧ f a = .ok b := by
  cases x <;> simp [bind, Except.bind]

-- What a computation gives can be evaluated.
instance decidableOk {x : Except ε α} : Decidable (∃ a, x = .ok a) :=
  match x with
  | .ok a => isTrue ⟨a, rfl⟩
  | .error _ => isFalse (by simp)

instance decidableOkAnd {x : Except ε α} {P : α → Prop} [DecidablePred P] :
    Decidable (∃ a, x = .ok a ∧ P a) :=
  match x with
  | .ok a => decidable_of_iff (P a) (by simp)
  | .error _ => isFalse (by simp)

instance decidableError {x : Except ε α} {e : ε} [DecidableEq ε] : Decidable (x = .error e) :=
  match x with
  | .ok _ => isFalse (by simp)
  | .error e' => decidable_of_iff (e' = e) (by simp)

theorem mapError_eq_ok_iff {ε' : Type} {x : Except ε α} {f : ε → ε'} {a : α} :
    x.mapError f = .ok a ↔ x = .ok a := by
  cases x <;> simp [Except.mapError]

theorem mapM_eq_ok_iff {f : α → Except ε β} {l : List α} {bs : List β} :
    l.mapM f = .ok bs ↔ List.Forall₂ (fun a b => f a = .ok b) l bs := by
  induction l generalizing bs
  case nil => cases bs <;> simp [pure, Except.pure]
  case cons a l hi =>
    rw [List.mapM_cons, bind_eq_ok_iff, List.forall₂_cons_left_iff]
    refine exists_congr fun b => ?_
    rw [bind_eq_ok_iff]
    constructor
    case mp =>
      rintro ⟨hb, bs', hbs, h⟩
      exact ⟨bs', hb, hi.mp hbs, (Except.ok.inj h).symm⟩
    case mpr =>
      rintro ⟨bs', hb, hbs, rfl⟩
      exact ⟨hb, bs', hi.mpr hbs, rfl⟩

theorem Options.requireWords_eq_ok_iff {ns : List Nat} :
    o.requireWords ns = .ok () ↔ (o.checked → ∀ n ∈ ns, n < UInt32.size) := by
  unfold requireWords
  split
  case isTrue h => simp_all
  case isFalse h => simpa using h

theorem Options.requireWords_eq_error_iff {ns : List Nat} {e : LiftError} :
    o.requireWords ns = .error e ↔ e = .overflow ∧ o.checked ∧ ∃ n ∈ ns, UInt32.size ≤ n := by
  unfold requireWords
  split
  case isTrue h => grind
  case isFalse h => grind

theorem Options.requireWords_perm {l l' : List Nat} (h : l.Perm l') :
    o.requireWords l = o.requireWords l' := by
  unfold requireWords
  rw [h.any_eq]

end ShaderLift
