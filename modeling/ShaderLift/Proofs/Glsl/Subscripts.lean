import Mathlib
import ShaderLift.Glsl.Source
import ShaderLift.Lift.Terminal

/-!
The numbers that subscript register files in expressions, statements and lines.
-/

namespace ShaderLift.Glsl

namespace Expr

mutual

-- All numbers that subscript a register file satisfy `A`.
@[simp] def Subscripts (A : RegisterFile → UInt32 → Prop) : Expr → Prop
  | var _ | lit _ => True
  | call _ args => EachSubscripts A args
  | index array subscript =>
    (∀ file k, array = var (.file file) → subscript = number k → A file k) ∧
      Subscripts A array ∧ Subscripts A subscript
  | select value _ | field value _ | length value | neg value | complement value | paren value =>
    Subscripts A value
  | binary _ left right => Subscripts A left ∧ Subscripts A right
  | cond test yes no => Subscripts A test ∧ Subscripts A yes ∧ Subscripts A no

def EachSubscripts (A : RegisterFile → UInt32 → Prop) : List Expr → Prop
  | [] => True
  | e :: es => Subscripts A e ∧ EachSubscripts A es

end

variable {A : RegisterFile → UInt32 → Prop} {e a b : Expr} {es : List Expr}

@[simp] theorem eachSubscripts_iff : EachSubscripts A es ↔ ∀ e ∈ es, e.Subscripts A := by
  induction es <;> simp [EachSubscripts, *]

theorem number_inj {m n : UInt32} (h : number m = number n) : m = n := by
  simp only [number, int, lit.injEq, Literal.int.injEq, Int.natCast_inj] at h
  exact UInt32.toNat_inj.mp h

@[simp] theorem subscripts_int {n : Int} : (int n).Subscripts A := by
  simp [int]

@[simp] theorem subscripts_number {n : UInt32} : (number n).Subscripts A :=
  subscripts_int

@[simp] theorem subscripts_floatZero : floatZero.Subscripts A := by
  simp [floatZero]

@[simp] theorem subscripts_floatOne : floatOne.Subscripts A := by
  simp [floatOne]

@[simp] theorem subscripts_builtin {name : String} : (builtin name).Subscripts A := by
  simp [builtin]

@[simp] theorem subscripts_op {o : BinaryOp} :
    (op o a b).Subscripts A ↔ a.Subscripts A ∧ b.Subscripts A := by
  simp [op]

@[simp] theorem subscripts_ifNonZero {test : Expr} :
    (ifNonZero test a b).Subscripts A ↔
      test.Subscripts A ∧ a.Subscripts A ∧ b.Subscripts A := by
  simp [ifNonZero]

@[simp] theorem subscripts_pick {components : List Nat} :
    (e.pick components).Subscripts A ↔ e.Subscripts A := by
  unfold pick
  split <;> simp

theorem eq_number_of_pick {components : List Nat} {k : UInt32} (h : e.pick components = number k) :
    e = number k := by
  unfold pick at h
  split at h
  case isTrue => exact h
  case isFalse => cases h

@[simp] theorem builtin_ne_file {name : String} {file : RegisterFile} :
    builtin name ≠ var (.file file) := by
  simp [builtin]

end Expr

variable {A : RegisterFile → UInt32 → Prop} {d : Dialect} {t t' : ValueType} {e : Expr} {n : Nat}
variable {k : UInt32}

@[simp] theorem subscripts_intLiteral {i : Int} : (intLiteral i).Subscripts A := by
  unfold intLiteral
  split <;> simp

@[simp] theorem subscripts_floatLiteral {word : UInt32} : (floatLiteral d word).Subscripts A := by
  unfold floatLiteral
  split
  case h_1 | h_2 => simp
  case h_3 =>
    split
    case isTrue => simp
    case isFalse => split <;> simp

@[simp] theorem subscripts_literal {word : UInt32} : (literal d word t).Subscripts A := by
  unfold literal
  split <;> simp

theorem eq_of_literal_eq_number {word : UInt32} (h : literal d word t = .number k) : word = k := by
  have hint {n : Int} (h : intLiteral n = .number k) : n = k.toNat := by
    unfold intLiteral at h
    split at h <;> cases h
    rfl
  unfold literal at h
  split at h
  case h_1 =>
    unfold floatLiteral at h
    split at h
    case h_1 | h_2 => cases h
    case h_3 =>
      split at h
      case isTrue => cases h
      case isFalse => split at h <;> cases h
  case h_2 =>
    have hsigned := hint h
    unfold Word.signed at hsigned
    refine UInt32.toNat_inj.mp ?_
    have := word.toNat_lt
    split at hsigned <;> omega
  case h_3 => cases h

theorem eq_zero_of_zero_eq_number (h : zero d t = .number k) : k = 0 := by
  unfold zero at h
  split at h
  case h_1 | h_3 => cases h
  case h_2 => exact (Expr.number_inj (m := 0) h).symm

@[simp] theorem subscripts_zero : (zero d t).Subscripts A := by
  unfold zero
  split <;> simp

@[simp] theorem subscripts_cast : (cast d e t t' n).Subscripts A ↔ e.Subscripts A := by
  simp only [cast]
  split
  case isTrue => rfl
  case isFalse =>
    split
    case isTrue => split <;> simp
    case isFalse => simp

theorem eq_number_of_cast (h : cast d e t t' n = .number k) : e = .number k := by
  simp only [cast] at h
  split at h
  case isTrue => exact h
  case isFalse =>
    split at h
    case isTrue => split at h <;> cases h
    case isFalse => cases h

theorem eq_number_of_modify {m : Modifier} (h : modify m t e = .number k) : e = .number k := by
  unfold modify at h
  split at h
  case h_1 | h_3 => exact h
  all_goals cases h

@[simp] theorem subscripts_modify {m : Modifier} :
    (modify m t e).Subscripts A ↔ e.Subscripts A := by
  unfold modify
  split <;> simp

@[simp] theorem subscripts_splat : (splat d t n e).Subscripts A ↔ e.Subscripts A := by
  unfold splat
  split <;> simp

theorem subscripts_construct {lanes : List Expr} (h : ∀ e ∈ lanes, e.Subscripts A) :
    (construct d t lanes).Subscripts A := by
  unfold construct
  split
  case h_1 => simp
  case h_2 lane => exact h lane List.mem_cons_self
  case h_3 lane rest _ =>
    dsimp only
    split <;> simp_all

def Stmt.Subscripts (A : RegisterFile → UInt32 → Prop) : Stmt → Prop
  | assign target value => target.Subscripts A ∧ value.Subscripts A
  | eval value | define _ _ value | jumpIf value _ => value.Subscripts A
  | declare .. | jump _ | flush => True

namespace Stmt

variable {target value test : Expr} {type : String} {name : Name} {names : List Name} {j : Jump}

@[simp] theorem subscripts_assign :
    (assign target value).Subscripts A ↔ target.Subscripts A ∧ value.Subscripts A :=
  .rfl

@[simp] theorem subscripts_eval : (eval value).Subscripts A ↔ value.Subscripts A :=
  .rfl

@[simp] theorem subscripts_define : (define type name value).Subscripts A ↔ value.Subscripts A :=
  .rfl

@[simp] theorem subscripts_declare : (declare type names).Subscripts A :=
  trivial

@[simp] theorem subscripts_jump : (jump j).Subscripts A :=
  trivial

@[simp] theorem subscripts_jumpIf : (jumpIf test j).Subscripts A ↔ test.Subscripts A :=
  .rfl

@[simp] theorem subscripts_flush : flush.Subscripts A :=
  trivial

end Stmt

def Line.Subscripts (A : RegisterFile → UInt32 → Prop) : Line → Prop
  | stmts ss => ∀ s ∈ ss, s.Subscripts A
  | enter (.when value) | enter (.choice value) | caseLabel (.value value) => value.Subscripts A
  | _ => True

@[simp] theorem Line.subscripts_stmt {s : Stmt} : (stmt s).Subscripts A ↔ s.Subscripts A := by
  simp [stmt, Line.Subscripts]

-- All numbers that subscript a register file in some lines satisfy `A`.
def EachLine (A : RegisterFile → UInt32 → Prop) (lines : List Line) : Prop :=
  ∀ line ∈ lines, line.Subscripts A

namespace EachLine

variable {lines lines' : List Line} {line : Line}

@[simp] theorem nil : EachLine A [] :=
  List.forall_mem_nil _

@[simp] theorem singleton : EachLine A [line] ↔ line.Subscripts A :=
  List.forall_mem_singleton

@[simp] theorem append_iff : EachLine A (lines ++ lines') ↔ EachLine A lines ∧ EachLine A lines' :=
  List.forall_mem_append

theorem block {head : Head} (hh : (Line.enter head).Subscripts A) (hb : EachLine A lines) :
    EachLine A (block head lines) :=
  have hleave := List.forall_mem_singleton.mpr trivial
  List.forall_mem_cons.mpr ⟨hh, List.forall_mem_append.mpr ⟨hb, hleave⟩⟩

end EachLine

section Mono

/-! What holds of all numbers may be weakened. -/

variable {B : RegisterFile → UInt32 → Prop}

namespace Expr

mutual

theorem Subscripts.mono (hB : ∀ file k, A file k → B file k) :
    {e : Expr} → e.Subscripts A → e.Subscripts B
  | var _, _ | lit _, _ => trivial
  | call _ _, h => EachSubscripts.mono hB h
  | index _ _, ⟨hk, ha, hs⟩ =>
    ⟨fun file k hfile hnumber => hB file k (hk file k hfile hnumber), ha.mono hB, hs.mono hB⟩
  | select value _, h | field value _, h | length value, h | neg value, h | complement value, h
  | paren value, h => Subscripts.mono hB (e := value) h
  | binary _ _ _, ⟨hl, hr⟩ => ⟨hl.mono hB, hr.mono hB⟩
  | cond _ _ _, ⟨ht, hy, hn⟩ => ⟨ht.mono hB, hy.mono hB, hn.mono hB⟩

theorem EachSubscripts.mono (hB : ∀ file k, A file k → B file k) :
    {es : List Expr} → EachSubscripts A es → EachSubscripts B es
  | [], _ => trivial
  | _ :: _, ⟨he, hes⟩ => ⟨he.mono hB, hes.mono hB⟩

end

end Expr

variable (hB : ∀ file k, A file k → B file k)

include hB

theorem Stmt.Subscripts.mono {s : Stmt} (h : s.Subscripts A) : s.Subscripts B := by
  cases s
  case assign => exact ⟨h.left.mono hB, h.right.mono hB⟩
  case eval | define | jumpIf => exact Expr.Subscripts.mono hB h
  all_goals trivial

theorem EachLine.mono {lines : List Line} (h : EachLine A lines) : EachLine B lines := by
  intro line hl
  have h := h line hl
  cases line
  case stmts => exact fun s hs => (h s hs).mono hB
  case enter head =>
    cases head
    case when | choice => exact Expr.Subscripts.mono hB h
    all_goals trivial
  case caseLabel label =>
    cases label
    case value => exact Expr.Subscripts.mono hB h
    case default => trivial
  all_goals trivial

end Mono

end ShaderLift.Glsl
