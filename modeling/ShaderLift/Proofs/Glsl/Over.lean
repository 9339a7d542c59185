import ShaderLift.Proofs.Text.Words
import ShaderLift.Glsl.Source

/-!
Which names stand in expressions, statements and lines. All other identifiers in them, those of
functions, fields and types, are words.
-/

namespace ShaderLift

theorem ValueType.isWord_vecName {d : Dialect} {t : ValueType} {n : Nat} :
    IsWord (t.vecName d n) := by
  unfold vecName scalarName letter
  cases t.lower d <;> split <;> simp <;> decide

theorem ValueType.isWord_scalarName {d : Dialect} {t : ValueType} : IsWord (t.scalarName d) := by
  unfold scalarName
  cases t.lower d <;> decide

namespace Glsl

namespace Expr

mutual

-- All variables of an expression satisfy `N`.
@[simp] def Over (N : Name → Prop) : Expr → Prop
  | var name => N name
  | lit _ => True
  | call function args => IsWord function ∧ Overs N args
  | index array subscript => Over N array ∧ Over N subscript
  | select value _ | length value | neg value | complement value | paren value => Over N value
  | field value name => Over N value ∧ IsWord name
  | binary _ left right => Over N left ∧ Over N right
  | cond test yes no => Over N test ∧ Over N yes ∧ Over N no

def Overs (N : Name → Prop) : List Expr → Prop
  | [] => True
  | e :: es => Over N e ∧ Overs N es

end

variable {N : Name → Prop} {d : Dialect} {e a b : Expr} {es : List Expr}

@[simp] theorem overs_iff : Overs N es ↔ ∀ e ∈ es, Over N e := by
  induction es <;> simp [Overs, *]

@[simp] theorem over_int {n : Int} : (int n).Over N :=
  trivial

@[simp] theorem over_number {n : UInt32} : (number n).Over N :=
  trivial

@[simp] theorem over_floatZero : floatZero.Over N :=
  trivial

@[simp] theorem over_floatOne : floatOne.Over N :=
  trivial

@[simp] theorem over_builtin {name : String} : (builtin name).Over N ↔ N (.builtin name) :=
  .rfl

@[simp] theorem over_op {o : BinaryOp} : (op o a b).Over N ↔ a.Over N ∧ b.Over N :=
  .rfl

@[simp] theorem over_ifNonZero {test : Expr} :
    (ifNonZero test a b).Over N ↔ test.Over N ∧ a.Over N ∧ b.Over N := by
  simp [ifNonZero]

@[simp] theorem over_pick {components : List Nat} : (e.pick components).Over N ↔ e.Over N := by
  unfold pick
  split <;> rfl

end Expr

variable {N : Name → Prop} {d : Dialect} {t t' : ValueType} {e : Expr} {n : Nat}

@[simp] theorem over_intLiteral {i : Int} : (intLiteral i).Over N := by
  unfold intLiteral
  split <;> simp

@[simp] theorem over_floatLiteral {word : UInt32} : (floatLiteral d word).Over N := by
  unfold floatLiteral
  split
  case h_1 | h_2 => trivial
  case h_3 =>
    split
    case isTrue => simp +decide
    case isFalse => split <;> simp

@[simp] theorem over_literal {word : UInt32} : (literal d word t).Over N := by
  unfold literal
  split <;> simp

@[simp] theorem over_zero : (zero d t).Over N := by
  unfold zero
  split <;> simp

@[simp] theorem over_cast : (cast d e t t' n).Over N ↔ e.Over N := by
  simp only [cast]
  split
  case isTrue => rfl
  case isFalse =>
    split
    case isTrue => split <;> simp +decide [ValueType.isWord_vecName]
    case isFalse => simp [ValueType.isWord_vecName]

@[simp] theorem over_modify {m : Modifier} : (modify m t e).Over N ↔ e.Over N := by
  unfold modify
  split <;> simp +decide

@[simp] theorem over_splat : (splat d t n e).Over N ↔ e.Over N := by
  unfold splat
  split <;> simp [ValueType.isWord_vecName]

@[simp] theorem over_construct {lanes : List Expr} (h : ∀ e ∈ lanes, e.Over N) :
    (construct d t lanes).Over N := by
  unfold construct
  split
  case h_1 => simp
  case h_2 lane => exact h lane List.mem_cons_self
  case h_3 lane rest _ =>
    simp only
    split <;> simp_all [ValueType.isWord_vecName]

-- The function that is called counts as a name.
def Jump.Over (N : Name → Prop) : Jump → Prop
  | call label => N (.verbatim (subroutineName label))
  | breakOut | continueLoop | discard | ret | flushRet => True

namespace Jump

@[simp] theorem over_breakOut : breakOut.Over N :=
  trivial

@[simp] theorem over_continueLoop : continueLoop.Over N :=
  trivial

@[simp] theorem over_discard : discard.Over N :=
  trivial

end Jump

def Stmt.Over (N : Name → Prop) : Stmt → Prop
  | assign target value => target.Over N ∧ value.Over N
  | eval value => value.Over N
  | declare type names => IsWord type ∧ ∀ name ∈ names, N name
  | define type name value => IsWord type ∧ N name ∧ value.Over N
  | jump j => j.Over N
  | jumpIf test j => test.Over N ∧ j.Over N
  | flush => True

namespace Stmt

variable {target value test : Expr} {type : String} {name : Name} {names : List Name} {j : Jump}

@[simp] theorem over_assign : (assign target value).Over N ↔ target.Over N ∧ value.Over N :=
  .rfl

@[simp] theorem over_eval : (eval value).Over N ↔ value.Over N :=
  .rfl

@[simp] theorem over_declare : (declare type names).Over N ↔ IsWord type ∧ ∀ name ∈ names, N name :=
  .rfl

@[simp] theorem over_define :
    (define type name value).Over N ↔ IsWord type ∧ N name ∧ value.Over N :=
  .rfl

@[simp] theorem over_jump : (jump j).Over N ↔ j.Over N :=
  .rfl

@[simp] theorem over_flush : flush.Over N :=
  trivial

@[simp] theorem over_jumpIf : (jumpIf test j).Over N ↔ test.Over N ∧ j.Over N :=
  .rfl

end Stmt

def Head.Over (N : Name → Prop) : Head → Prop
  | function signature => Plain signature
  | when test => test.Over N
  | choice selector => selector.Over N
  | forever | times _ | bare => True

def CaseLabel.Over (N : Name → Prop) : CaseLabel → Prop
  | value v => v.Over N
  | default => True

def Line.Over (N : Name → Prop) : Line → Prop
  | stmts ss => ∀ s ∈ ss, s.Over N
  | enter head => head.Over N
  | caseLabel label => label.Over N
  | otherwise | endCase | leave => True

@[simp] theorem Line.over_stmt {s : Stmt} : (stmt s).Over N ↔ s.Over N := by
  simp [stmt, Line.Over]

theorem over_block {head : Head} {body : List Line} (hh : head.Over N)
    (hb : ∀ line ∈ body, line.Over N) : ∀ line ∈ block head body, line.Over N :=
  List.forall_mem_cons.mpr
    ⟨hh, List.forall_mem_append.mpr ⟨hb, List.forall_mem_singleton.mpr trivial⟩⟩

structure Function.Over (N : Name → Prop) (f : Function) : Prop where
  signature : Plain f.signature
  body      : ∀ line ∈ f.body, line.Over N

theorem Function.over_mk {signature : String} {body : List Line} (hs : Plain signature)
    (hb : ∀ line ∈ body, line.Over N) : Over N ⟨signature, body⟩ :=
  ⟨hs, hb⟩

section Mono

/-! What holds of all variables may be weakened. -/

variable {M : Name → Prop}

namespace Expr

mutual

theorem Over.mono (hM : ∀ name, N name → M name) : {e : Expr} → e.Over N → e.Over M
  | var _, h => hM _ h
  | lit _, _ => trivial
  | call _ _, ⟨hf, ha⟩ => ⟨hf, Overs.mono hM ha⟩
  | index _ _, ⟨ha, hs⟩ => ⟨ha.mono hM, hs.mono hM⟩
  | select value _, h | length value, h | neg value, h | complement value, h | paren value, h =>
    Over.mono hM (e := value) h
  | field _ _, ⟨hv, hn⟩ => ⟨hv.mono hM, hn⟩
  | binary _ _ _, ⟨hl, hr⟩ => ⟨hl.mono hM, hr.mono hM⟩
  | cond _ _ _, ⟨ht, hy, hn⟩ => ⟨ht.mono hM, hy.mono hM, hn.mono hM⟩

theorem Overs.mono (hM : ∀ name, N name → M name) : {es : List Expr} → Overs N es → Overs M es
  | [], _ => trivial
  | _ :: _, ⟨he, hes⟩ => ⟨he.mono hM, hes.mono hM⟩

end

end Expr

variable (hM : ∀ name, N name → M name)

include hM

theorem Jump.Over.mono {j : Jump} (h : j.Over N) : j.Over M := by
  cases j
  case call => exact hM _ h
  all_goals trivial

theorem Stmt.Over.mono {s : Stmt} (h : s.Over N) : s.Over M := by
  cases s
  case assign => exact ⟨h.left.mono hM, h.right.mono hM⟩
  case eval => exact Expr.Over.mono hM h
  case declare => exact ⟨h.left, fun name hn => hM name (h.right name hn)⟩
  case define => exact ⟨h.left, hM _ h.right.left, h.right.right.mono hM⟩
  case jump => exact Jump.Over.mono hM h
  case jumpIf => exact ⟨h.left.mono hM, h.right.mono hM⟩
  case flush => trivial

theorem Head.Over.mono {head : Head} (h : head.Over N) : head.Over M := by
  cases head
  case when | choice => exact Expr.Over.mono hM h
  all_goals exact h

theorem CaseLabel.Over.mono {label : CaseLabel} (h : label.Over N) : label.Over M := by
  cases label
  case value => exact Expr.Over.mono hM h
  case default => trivial

theorem Line.Over.mono {line : Line} (h : line.Over N) : line.Over M := by
  cases line
  case stmts => exact fun s hs => (h s hs).mono hM
  case enter => exact Head.Over.mono hM h
  case caseLabel => exact CaseLabel.Over.mono hM h
  all_goals trivial

theorem Function.Over.mono {f : Function} (h : f.Over N) : f.Over M :=
  ⟨h.signature, fun line hl => (h.body line hl).mono hM⟩

end Mono

end Glsl

end ShaderLift
