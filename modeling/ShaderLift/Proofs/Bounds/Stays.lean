import ShaderLift.Lift.Emit
import ShaderLift.Proofs.Outcome

/-!
Computations that stay in range: however they end, they refer to nothing that is not there, unless
there is an excuse for it, they leave the words only in builds that check for it, and what they
return satisfies a predicate. Rules for the ways in which computations are put together.
-/

namespace ShaderLift

-- A computation that gives something with a property, or ends with an error that is excused.
def Ends {α : Type} (excuse : LiftError → Prop) (P : α → Prop) : Except LiftError α → Prop
  | .ok a => P a
  | .error e => excuse e

-- The errors that stop a program are excused, each for its own reason.
def Options.Excuses (o : Options) (excuse : Prop) : LiftError → Prop
  | .outOfRange => excuse
  | .overflow => o.checked
  | _ => True

abbrev Options.Stays (o : Options) {α : Type} (P : α → Prop) (x : Except LiftError α) : Prop :=
  Ends (o.Excuses False) P x

-- The result does not matter.
abbrev Options.InRange (o : Options) {α : Type} (x : Except LiftError α) : Prop :=
  o.Stays (fun _ => True) x

namespace Ends

variable {α β : Type} {E : LiftError → Prop} {P Q : α → Prop} {R : β → Prop} {o : Options}
variable {x : Except LiftError α} {f : α → Except LiftError β} {excuse excuse' : Prop}

theorem pure {a : α} (h : P a) : Ends E P (.ok a) :=
  h

theorem mono (hx : Ends E P x) (h : ∀ a, P a → Q a) : Ends E Q x := by
  cases x
  case ok a => exact h a hx
  case error => exact hx

theorem imp (hx : Ends (o.Excuses excuse) P x) (h : excuse → excuse') :
    Ends (o.Excuses excuse') P x := by
  cases x
  case ok => exact hx
  case error e =>
    cases e
    case outOfRange => exact h hx
    all_goals exact hx

theorem excused (hx : o.Stays P x) : Ends (o.Excuses excuse) P x :=
  hx.imp False.elim

theorem inRange (hx : o.Stays P x) : o.InRange x :=
  hx.mono fun _ _ => trivial

theorem bind_of_ok (hx : Ends E P x) (hf : ∀ a, x = .ok a → P a → Ends E R (f a)) :
    Ends E R (x >>= f) := by
  cases x
  case ok a => exact hf a rfl hx
  case error => exact hx

theorem bind (hx : Ends E P x) (hf : ∀ a, P a → Ends E R (f a)) : Ends E R (x >>= f) :=
  bind_of_ok hx fun a _ => hf a

theorem ite {p : Prop} [Decidable p] {y : Except LiftError α} (hx : p → Ends E P x)
    (hy : ¬p → Ends E P y) : Ends E P (if p then x else y) := by
  split
  case isTrue h => exact hx h
  case isFalse h => exact hy h

theorem mapM {l : List α} (h : ∀ a ∈ l, Ends E R (f a)) :
    Ends E (fun bs => bs.length = l.length ∧ ∀ b ∈ bs, R b) (l.mapM f) := by
  induction l
  case nil => exact ⟨rfl, List.forall_mem_nil _⟩
  case cons a l hi =>
    have ⟨ha, hl⟩ := List.forall_mem_cons.mp h
    rw [List.mapM_cons]
    refine bind ha fun b hb => bind (hi hl) fun bs ⟨hlength, hbs⟩ => ?_
    exact ⟨congrArg Nat.succ hlength, List.forall_mem_cons.mpr ⟨hb, hbs⟩⟩

end Ends

theorem Options.inRange_requireWords {o : Options} {ns : List Nat} :
    o.InRange (o.requireWords ns) := by
  unfold requireWords
  exact .ite (fun h => (Bool.and_eq_true _ _ ▸ h).left) fun _ => .pure trivial

namespace Emit

-- What has been written before does not matter.
def Ends {α : Type} (excuse : LiftError → Prop) (P : α → Prop) (x : Emit α) : Prop :=
  ∀ s, ShaderLift.Ends excuse (fun r => P r.1) (x.run s)

namespace Ends

variable {α β : Type} {E : LiftError → Prop} {P Q : α → Prop} {R : β → Prop}
variable {x : Emit α} {f : α → Emit β}

theorem pure {a : α} (h : P a) : Ends E P (Pure.pure a) :=
  fun _ => h

theorem throw {e : LiftError} (h : E e) : Ends E P (throw e) :=
  fun _ => h

theorem excused {o : Options} {excuse : Prop} (hx : Ends (o.Excuses False) P x) :
    Ends (o.Excuses excuse) P x :=
  fun s => (hx s).excused

theorem lift {x : Except LiftError α} (h : ShaderLift.Ends E P x) : Ends E P (liftM x : Emit α) :=
  fun _ => .bind h fun _ h => h

-- Steps that only look at what has been written, or add to it.
theorem step {f : Progress → α × Progress} : Ends E (fun _ => True) (modifyGet f) :=
  fun _ => trivial

theorem bind (hx : Ends E P x) (hf : ∀ a, P a → Ends E R (f a)) : Ends E R (x >>= f) :=
  fun s => .bind (hx s) fun (a, s') h => hf a h s'

theorem ite {p : Prop} [Decidable p] {y : Emit α} (hx : p → Ends E P x) (hy : ¬p → Ends E P y) :
    Ends E P (if p then x else y) := by
  split
  case isTrue h => exact hx h
  case isFalse h => exact hy h

theorem mapM {l : List α} (h : ∀ a ∈ l, Ends E R (f a)) :
    Ends E (fun bs => bs.length = l.length ∧ ∀ b ∈ bs, R b) (l.mapM f) := by
  induction l
  case nil => exact pure ⟨rfl, List.forall_mem_nil _⟩
  case cons a l hi =>
    have ⟨ha, hl⟩ := List.forall_mem_cons.mp h
    rw [List.mapM_cons]
    refine bind ha fun b hb => bind (hi hl) fun bs ⟨hlength, hbs⟩ => ?_
    exact pure ⟨congrArg Nat.succ hlength, List.forall_mem_cons.mpr ⟨hb, hbs⟩⟩

end Ends

end Emit

end ShaderLift
