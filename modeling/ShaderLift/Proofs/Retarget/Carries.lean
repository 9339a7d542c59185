import Mathlib.Data.List.Forall2
import ShaderLift.Proofs.Lift.Lifted

/-!
One computation carries another: wherever the first one succeeds, so does the second one, and the
results are related. Rules for the ways in which computations are put together.
-/

namespace ShaderLift

def Carries {α β : Type} (R : α → β → Prop) (x : Except LiftError α) (y : Except LiftError β) :
    Prop :=
  ∀ a, x = .ok a → ∃ b, y = .ok b ∧ R a b

-- The results do not matter.
abbrev Allows {α β : Type} (x : Except LiftError α) (y : Except LiftError β) : Prop :=
  Carries (fun _ _ => True) x y

namespace Carries

variable {α β γ δ : Type} {R : α → β → Prop} {S : γ → δ → Prop}
variable {x : Except LiftError α} {y : Except LiftError β}
variable {f : α → Except LiftError γ} {g : β → Except LiftError δ}

theorem pure {a : α} {b : β} (h : R a b) : Carries R (.ok a) (.ok b) :=
  fun _ ha => ⟨b, rfl, Except.ok.inj ha ▸ h⟩

theorem error {e : LiftError} : Carries R (.error e) y :=
  nofun

theorem refl (x : Except LiftError α) : Carries Eq x x :=
  fun a ha => ⟨a, ha, rfl⟩

theorem mono {R' : α → β → Prop} (hx : Carries R x y) (h : ∀ a b, R a b → R' a b) :
    Carries R' x y :=
  fun a ha => have ⟨b, hb, hr⟩ := hx a ha; ⟨b, hb, h a b hr⟩

theorem bind_of_ok (hx : Carries R x y)
    (hf : ∀ a b, x = .ok a → y = .ok b → R a b → Carries S (f a) (g b)) :
    Carries S (x >>= f) (y >>= g) := by
  intro c hc
  have ⟨a, ha, hc⟩ := bind_eq_ok_iff.mp hc
  have ⟨b, hb, hr⟩ := hx a ha
  have ⟨d, hd, hs⟩ := hf a b ha hb hr c hc
  exact ⟨d, bind_eq_ok_iff.mpr ⟨b, hb, hd⟩, hs⟩

theorem bind (hx : Carries R x y) (hf : ∀ a b, R a b → Carries S (f a) (g b)) :
    Carries S (x >>= f) (y >>= g) :=
  bind_of_ok hx fun a b _ _ => hf a b

-- Both begin alike.
theorem same_of_ok {g : α → Except LiftError δ} (hf : ∀ a, x = .ok a → Carries S (f a) (g a)) :
    Carries S (x >>= f) (x >>= g) :=
  bind_of_ok (refl x) fun a _ ha _ h => h ▸ hf a ha

theorem same {g : α → Except LiftError δ} (hf : ∀ a, Carries S (f a) (g a)) :
    Carries S (x >>= f) (x >>= g) :=
  same_of_ok fun a _ => hf a

theorem ite {p : Prop} [Decidable p] {x' : Except LiftError α} {y' : Except LiftError β}
    (h : Carries R x y) (h' : Carries R x' y') :
    Carries R (if p then x else x') (if p then y else y') := by
  split <;> assumption

theorem mapM {g : α → Except LiftError δ} {l : List α} (h : ∀ a, Carries S (f a) (g a)) :
    Carries (List.Forall₂ S) (l.mapM f) (l.mapM g) := by
  induction l
  case nil => exact pure .nil
  case cons a l hi =>
    simp only [List.mapM_cons]
    exact bind (h a) fun _ _ hs => bind hi fun _ _ hl => pure (.cons hs hl)

theorem each {g : α → Except LiftError δ} {l : List α} (h : ∀ a, Allows (f a) (g a)) :
    Carries (List.Forall₂ fun _ _ => True) (l.mapM f) (l.mapM g) :=
  mapM h

end Carries

theorem Options.allows_requireWords {o o' : Options} {ns ns' : List Nat}
    (h : o'.checked = false) : Allows (o.requireWords ns) (o'.requireWords ns') :=
  fun _ _ => ⟨(), requireWords_eq_ok_iff.mpr (by simp [h]), trivial⟩

namespace Emit

-- What has been written before does not matter either.
def Carries {α β : Type} (R : α → β → Prop) (x : Emit α) (y : Emit β) : Prop :=
  ∀ s s', ShaderLift.Carries (fun a b => R a.1 b.1) (x.run s) (y.run s')

abbrev Allows {α β : Type} (x : Emit α) (y : Emit β) : Prop :=
  Carries (fun _ _ => True) x y

namespace Carries

variable {α β γ δ : Type} {R : α → β → Prop} {S : γ → δ → Prop}
variable {x : Emit α} {y : Emit β} {f : α → Emit γ} {g : β → Emit δ}

theorem pure {a : α} {b : β} (h : R a b) : Carries R (Pure.pure a) (Pure.pure b) :=
  fun _ _ => .pure h

theorem throw {e : LiftError} : Carries R (throw e) y :=
  fun _ _ => .error

theorem lift {x : Except LiftError α} {y : Except LiftError β} (h : ShaderLift.Carries R x y) :
    Carries R (liftM x) (liftM y) :=
  fun _ _ => .bind h fun _ _ h => .pure h

-- Steps that only look at what has been written, or add to it.
theorem step {f : Progress → α × Progress} {g : Progress → β × Progress} :
    Allows (modifyGet f) (modifyGet g) :=
  fun _ _ => .pure trivial

theorem bind (hx : Carries R x y) (hf : ∀ a b, R a b → Carries S (f a) (g b)) :
    Carries S (x >>= f) (y >>= g) :=
  fun s s' => .bind (hx s s') fun a b h => hf a.1 b.1 h a.2 b.2

theorem same {x : Except LiftError α} {g : α → Emit δ} (hf : ∀ a, Carries S (f a) (g a)) :
    Carries S (liftM x >>= f) (liftM x >>= g) :=
  bind (lift (.refl x)) fun a _ h => h ▸ hf a

theorem ite {p : Prop} [Decidable p] {x' : Emit α} {y' : Emit β} (h : Carries R x y)
    (h' : Carries R x' y') : Carries R (if p then x else x') (if p then y else y') := by
  split <;> assumption

theorem each {g : α → Emit δ} {l : List α} (h : ∀ a, Allows (f a) (g a)) :
    Carries (List.Forall₂ fun _ _ => True) (l.mapM f) (l.mapM g) := by
  induction l
  case nil => exact pure .nil
  case cons a l hi =>
    simp only [List.mapM_cons]
    exact bind (h a) fun _ _ hs => bind hi fun _ _ hl => pure (.cons hs hl)

end Carries

end Emit

end ShaderLift
