import Mathlib
import ShaderLift.Glsl.Source

/-!
What statements read and write: variables, and elements of arrays, of which a subscript that is no
number may name any. Statements read first if none of them reads a register that one before it has
written.
-/

namespace ShaderLift.Glsl

-- A variable, or an element of an array. There is no number if the element is not known.
structure Location where
  name    : Name
  element : Option Int := none
  deriving DecidableEq, Repr

-- The locations may be the same.
def Location.Meets (a b : Location) : Prop :=
  a.name = b.name ∧ (a.element = none ∨ b.element = none ∨ a.element = b.element)

instance {a b : Location} : Decidable (a.Meets b) :=
  inferInstanceAs (Decidable (_ ∧ _))

-- Names of a block are not registers.
def Name.isScratch : Name → Bool
  | scratch _ => true
  | _ => false

-- Instructions may set all variables but those of a block and the immediate constants.
def Name.isTarget : Name → Bool
  | scratch _ | immediates => false
  | _ => true

theorem Name.not_isScratch {name : Name} (h : name.isTarget) : ¬name.isScratch := by
  cases name <;> simp_all [isTarget, isScratch]

namespace Expr

def constant? : Expr → Option Int
  | lit (.int n) => some n
  | _ => none

mutual

def reads : Expr → List Location
  | var name => [⟨name, none⟩]
  | lit _ => []
  | call _ args => readsOf args
  | index (var name) subscript => ⟨name, subscript.constant?⟩ :: reads subscript
  | index array subscript => reads array ++ reads subscript
  | select value _ | field value _ | length value | neg value | complement value | paren value =>
    reads value
  | binary _ left right => reads left ++ reads right
  | cond test yes no => reads test ++ reads yes ++ reads no

def readsOf : List Expr → List Location
  | [] => []
  | e :: es => reads e ++ readsOf es

end

-- What an assignment to an expression writes.
def written : Expr → List Location
  | var name => [⟨name, none⟩]
  | index (var name) subscript => [⟨name, subscript.constant?⟩]
  | select value _ => written value
  | _ => []

-- What it reads to find out where to write.
def locates : Expr → List Location
  | index (var _) subscript => reads subscript
  | select value _ => locates value
  | var _ => []
  | e => reads e

variable {e : Expr} {location : Location}

@[simp] theorem written_pick {components : List Nat} : (e.pick components).written = e.written := by
  unfold pick
  split <;> rfl

@[simp] theorem locates_pick {components : List Nat} : (e.pick components).locates = e.locates := by
  unfold pick
  split <;> rfl

end Expr

@[simp] theorem reads_cast {d : Dialect} {e : Expr} {t t' : ValueType} {n : Nat} :
    (cast d e t t' n).reads = e.reads := by
  have hcall {f : String} : (Expr.call f [e]).reads = e.reads := by
    simp [Expr.reads, Expr.readsOf]
  simp only [cast]
  split
  case isTrue => rfl
  case isFalse =>
    split
    case isTrue => split <;> exact hcall
    case isFalse => exact hcall

-- Functions that write to their last arguments.
def writesArguments (function : String) : Bool :=
  ["imulExtended", "umulExtended", "uaddCarry", "usubBorrow"].contains function

namespace Stmt

def reads : Stmt → List Location
  | assign target value => target.locates ++ value.reads
  | eval (.call function args) =>
    Expr.readsOf (if writesArguments function then args.take 2 else args)
  | eval value | define _ _ value | jumpIf value _ => value.reads
  | declare _ _ | jump _ | flush => []

def writes : Stmt → List Location
  | assign target _ => target.written
  | eval (.call function args) =>
    if writesArguments function then (args.drop 2).flatMap Expr.written else []
  | define _ name _ => [⟨name, none⟩]
  | eval _ | declare _ _ | jump _ | jumpIf _ _ | flush => []

-- Nothing but names of a block is written.
def KeepsRegisters (s : Stmt) : Prop :=
  ∀ location ∈ s.writes, location.name.isScratch

-- The statement may come after one that has written locations.
def ReadsApart (written : List Location) (s : Stmt) : Prop :=
  ∀ location ∈ written, ¬location.name.isScratch → ∀ read ∈ s.reads, ¬location.Meets read

instance {written : List Location} {s : Stmt} : Decidable (s.ReadsApart written) :=
  inferInstanceAs (Decidable (∀ location ∈ written, ¬location.name.isScratch → ∀ _ ∈ s.reads, _))

end Stmt

-- No register is read after a statement that has written it.
def ReadsFirst (ss : List Stmt) : Prop :=
  ss.Pairwise fun s t => t.ReadsApart s.writes

instance {ss : List Stmt} : Decidable (ReadsFirst ss) :=
  inferInstanceAs (Decidable (ss.Pairwise _))

theorem Stmt.KeepsRegisters.readsApart {s t : Stmt} (h : s.KeepsRegisters) :
    t.ReadsApart s.writes :=
  fun location hp hregister => absurd (h location hp) hregister

-- Statements that write no register may come first.
theorem readsFirst_append {ss ts : List Stmt} (h : ∀ s ∈ ss, s.KeepsRegisters) :
    ReadsFirst (ss ++ ts) ↔ ReadsFirst ts := by
  have hss : ReadsFirst ss :=
    List.Pairwise.imp_of_mem (R := fun _ _ => True) (fun hs _ _ => (h _ hs).readsApart)
      (List.pairwise_of_forall fun _ _ => trivial)
  refine ⟨fun hr => (List.pairwise_append.mp hr).2.1, fun hr => ?_⟩
  exact List.pairwise_append.mpr ⟨hss, hr, fun s hs _ _ => (h s hs).readsApart⟩

def Line.statements : Line → List Stmt
  | stmts ss => ss
  | enter _ | otherwise | caseLabel _ | endCase | leave => []

-- The assignments to a variable or to elements of it, each with its target and value.
def Stmt.assignment? (name : Name) : Stmt → Option (Expr × Expr)
  | assign target value =>
    if name ∈ target.written.map Location.name then some (target, value) else none
  | eval _ | declare _ _ | define _ _ _ | jump _ | jumpIf _ _ | flush => none

def Line.assignments (name : Name) (line : Line) : List (Expr × Expr) :=
  line.statements.filterMap (Stmt.assignment? name)

theorem Line.assignments_eq_nil {line : Line} {name : Name}
    (h : ∀ target value, .assign target value ∈ line.statements →
      ∀ location ∈ target.written, location.name ≠ name) : line.assignments name = [] := by
  refine List.filterMap_eq_nil_iff.mpr fun s hs => ?_
  cases s
  case assign target value =>
    refine if_neg fun hmem => ?_
    obtain ⟨location, hl, hname⟩ := List.mem_map.mp hmem
    exact h target value hs location hl hname
  all_goals rfl

end ShaderLift.Glsl
