import Mathlib
import ShaderLift.Lift.Emit

/-!
Two computations agree: they have the same results. Where `strict` holds they also fail with the
same errors. Rules for the ways in which computations are put together.
-/

namespace ShaderLift

structure Agrees {α : Type} (strict : Prop) (x y : Except LiftError α) : Prop where
  ok_iff : ∀ a, x = .ok a ↔ y = .ok a
  eq     : strict → x = y

namespace Agrees

variable {strict : Prop} {α β : Type} {x y : Except LiftError α}
variable {f g : α → Except LiftError β}

theorem refl (x : Except LiftError α) : Agrees strict x x :=
  ⟨fun _ => .rfl, fun _ => rfl⟩

theorem of_eq (h : x = y) : Agrees strict x y :=
  h ▸ refl x

theorem error {e e' : LiftError} (h : strict → e = e') :
    Agrees strict (.error e : Except LiftError α) (.error e') :=
  ⟨fun _ => ⟨nofun, nofun⟩, fun hs => congrArg _ (h hs)⟩

-- Both succeed alike, or both fail.
theorem cases (h : Agrees strict x y) :
    (∃ a, x = .ok a ∧ y = .ok a) ∨ ∃ e e', x = .error e ∧ y = .error e' ∧ (strict → e = e') := by
  cases x
  case ok a => exact .inl ⟨a, rfl, (h.ok_iff a).mp rfl⟩
  case error e =>
    cases y
    case ok a => cases (h.ok_iff a).mpr rfl
    case error e' => exact .inr ⟨e, e', rfl, rfl, fun hs => Except.error.inj (h.eq hs)⟩

theorem bind (hx : Agrees strict x y) (hf : ∀ a, Agrees strict (f a) (g a)) :
    Agrees strict (x >>= f) (y >>= g) := by
  rcases hx.cases with ⟨a, rfl, rfl⟩ | ⟨e, e', rfl, rfl, he⟩
  case inl => exact hf a
  case inr => exact error he

-- Both begin alike.
theorem same (hf : ∀ a, Agrees strict (f a) (g a)) : Agrees strict (x >>= f) (x >>= g) :=
  bind (refl x) hf

theorem ite {p : Prop} [Decidable p] {x' y' : Except LiftError α} (h : Agrees strict x y)
    (h' : Agrees strict x' y') : Agrees strict (if p then x else x') (if p then y else y') := by
  split <;> assumption

theorem mapM {l : List α} (h : ∀ a, Agrees strict (f a) (g a)) :
    Agrees strict (l.mapM f) (l.mapM g) := by
  induction l
  case nil => exact refl _
  case cons a l hi =>
    simp only [List.mapM_cons]
    exact bind (h a) fun _ => bind hi fun _ => refl _

end Agrees

namespace Emit

-- From the same progress on, both make the same.
def Agrees {α : Type} (strict : Prop) (x y : Emit α) : Prop :=
  ∀ s, ShaderLift.Agrees strict (x.run s) (y.run s)

namespace Agrees

variable {strict : Prop} {α β : Type} {x y : Emit α} {f g : α → Emit β}

theorem refl (x : Emit α) : Agrees strict x x :=
  fun _ => .refl _

theorem throw {e e' : LiftError} (h : strict → e = e') :
    Agrees strict (throw e : Emit α) (throw e') :=
  fun _ => .error h

theorem lift {x y : Except LiftError α} (h : ShaderLift.Agrees strict x y) :
    Agrees strict (liftM x) (liftM y) :=
  fun _ => .bind h fun _ => .refl _

theorem bind (hx : Agrees strict x y) (hf : ∀ a, Agrees strict (f a) (g a)) :
    Agrees strict (x >>= f) (y >>= g) :=
  fun s => .bind (hx s) fun a => hf a.1 a.2

theorem same (hf : ∀ a, Agrees strict (f a) (g a)) : Agrees strict (x >>= f) (x >>= g) :=
  bind (refl x) hf

theorem ite {p : Prop} [Decidable p] {x' y' : Emit α} (h : Agrees strict x y)
    (h' : Agrees strict x' y') : Agrees strict (if p then x else x') (if p then y else y') := by
  split <;> assumption

theorem mapM {l : List α} (h : ∀ a, Agrees strict (f a) (g a)) :
    Agrees strict (l.mapM f) (l.mapM g) := by
  induction l
  case nil => exact refl _
  case cons a l hi =>
    simp only [List.mapM_cons]
    exact bind (h a) fun _ => bind hi fun _ => refl _

end Agrees

end Emit

end ShaderLift
