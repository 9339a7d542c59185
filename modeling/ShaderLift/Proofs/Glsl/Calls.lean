import ShaderLift.Proofs.Effects.Events
import ShaderLift.Proofs.Glsl.Reads

/-!
The calls in expressions, statements and lines, with their arguments, and the names that statements
declare and set. A vocabulary says which there may be. Most functions may be called with any
arguments, but not those that access single texels of a texture or an image.
-/

namespace ShaderLift

namespace Glsl

-- Neither of two words is the beginning of the other.
def Incomparable (a b : String) : Prop :=
  ¬a.toList <+: b.toList ∧ ¬b.toList <+: a.toList

instance {a b : String} : Decidable (Incomparable a b) :=
  inferInstanceAs (Decidable (_ ∧ _))

theorem Incomparable.append {a b c : String} (h : Incomparable a b) : Incomparable a (b ++ c) := by
  have hb : b.toList <+: (b ++ c).toList := by simp
  refine ⟨fun ha => ?_, fun ha => h.right (hb.trans ha)⟩
  cases List.prefix_or_prefix_of_prefix ha hb
  case inl ha => exact h.left ha
  case inr ha => exact h.right ha

-- How the names of functions start that access single texels.
def accessStems : List String :=
  ["texelFetch", "imageLoad", "imageStore", "imageAtomic"]

def AccessFree (function : String) : Prop :=
  ∀ stem ∈ accessStems, Incomparable stem function

instance {function : String} : Decidable (AccessFree function) :=
  inferInstanceAs (Decidable (∀ _ ∈ _, _))

def Common (function : String) : Prop :=
  Ordinary function ∧ AccessFree function

instance {function : String} : Decidable (Common function) :=
  inferInstanceAs (Decidable (_ ∧ _))

theorem AccessFree.append {f g : String} (h : AccessFree f) : AccessFree (f ++ g) :=
  fun stem hs => (h stem hs).append

theorem Common.append {f g : String} (h : Common f) (hg : Ordinary g) : Common (f ++ g) :=
  ⟨ordinary_append.mpr ⟨h.left, hg⟩, h.right.append⟩

section Names

variable {d : Dialect} {t : ValueType} {n : Nat}

@[simp] theorem common_scalarName : Common (t.scalarName d) := by
  unfold ValueType.scalarName
  cases t.lower d <;> decide

@[simp] theorem common_vecName : Common (t.vecName d n) := by
  unfold ValueType.vecName
  split
  case isTrue => exact common_scalarName
  case isFalse =>
    have hvec : Common ((t.lower d).letter ++ "vec") := by cases t.lower d <;> decide
    exact hvec.append ordinary_repr

end Names

-- Which functions may be called with which arguments, whether names may be declared, and which
-- variables may be set.
structure Vocabulary where
  Says     : String → List Expr → Prop
  common   : ∀ {function args}, Common function → Says function args
  Declares : Prop
  Sets     : Name → Prop
  sets     : ∀ {name}, name.isTarget → Sets name

attribute [simp] Vocabulary.common

namespace Vocabulary

-- All that is said calculates.
def Quiet (V : Vocabulary) : Prop :=
  ∀ {function args}, V.Says function args → Ordinary function

-- Nothing but what may be said everywhere, about any variable.
def least : Vocabulary where
  Says function _ := Common function
  common h := h
  Declares := False
  Sets _ := True
  sets _ := trivial

@[simp] theorem sets_least {name : Name} : least.Sets name :=
  trivial

theorem quiet_least : least.Quiet :=
  fun h => h.left

end Vocabulary

variable {V : Vocabulary} {d : Dialect} {t t' : ValueType} {e a b : Expr} {es : List Expr}
variable {f : String} {n : Nat}

namespace Expr

mutual

def calls : Expr → List (String × List Expr)
  | var _ | lit _ => []
  | call function args => callsOf args ++ [(function, args)]
  | index array subscript => calls array ++ calls subscript
  | select value _ | field value _ | length value | neg value | complement value | paren value =>
    calls value
  | binary _ left right => calls left ++ calls right
  | cond test yes no => calls test ++ calls yes ++ calls no

def callsOf : List Expr → List (String × List Expr)
  | [] => []
  | e :: es => calls e ++ callsOf es

end

theorem callsOf_eq : callsOf es = es.flatMap calls := by
  induction es <;> simp [callsOf, *]

def Calls (V : Vocabulary) (e : Expr) : Prop :=
  ∀ call ∈ e.calls, V.Says call.1 call.2

@[simp] theorem calls_var {name : Name} : (var name).Calls V :=
  List.forall_mem_nil _

@[simp] theorem calls_lit {literal : Literal} : (lit literal).Calls V :=
  List.forall_mem_nil _

@[simp] theorem calls_call : (call f es).Calls V ↔ V.Says f es ∧ ∀ e ∈ es, e.Calls V := by
  simp only [Calls, calls, callsOf_eq, List.forall_mem_append, List.forall_mem_flatMap,
    List.forall_mem_singleton]
  exact and_comm

@[simp] theorem calls_index : (index a b).Calls V ↔ a.Calls V ∧ b.Calls V :=
  List.forall_mem_append

@[simp] theorem calls_select {components : List Nat} : (select e components).Calls V ↔ e.Calls V :=
  .rfl

@[simp] theorem calls_field {name : String} : (field e name).Calls V ↔ e.Calls V :=
  .rfl

@[simp] theorem calls_length : (length e).Calls V ↔ e.Calls V :=
  .rfl

@[simp] theorem calls_neg : (neg e).Calls V ↔ e.Calls V :=
  .rfl

@[simp] theorem calls_complement : (complement e).Calls V ↔ e.Calls V :=
  .rfl

@[simp] theorem calls_paren : (paren e).Calls V ↔ e.Calls V :=
  .rfl

@[simp] theorem calls_binary {o : BinaryOp} : (binary o a b).Calls V ↔ a.Calls V ∧ b.Calls V :=
  List.forall_mem_append

@[simp] theorem calls_cond {test : Expr} :
    (cond test a b).Calls V ↔ test.Calls V ∧ a.Calls V ∧ b.Calls V := by
  simp only [Calls, calls, List.forall_mem_append, and_assoc]

@[simp] theorem calls_int {i : Int} : (int i).Calls V :=
  calls_lit

@[simp] theorem calls_number {i : UInt32} : (number i).Calls V :=
  calls_lit

@[simp] theorem calls_floatZero : floatZero.Calls V :=
  calls_lit

@[simp] theorem calls_floatOne : floatOne.Calls V :=
  calls_lit

@[simp] theorem calls_builtin {name : String} : (builtin name).Calls V :=
  calls_var

@[simp] theorem calls_op {o : BinaryOp} : (op o a b).Calls V ↔ a.Calls V ∧ b.Calls V :=
  calls_binary (o := o)

@[simp] theorem calls_ifNonZero {test : Expr} :
    (ifNonZero test a b).Calls V ↔ test.Calls V ∧ a.Calls V ∧ b.Calls V := by
  simp [ifNonZero]

@[simp] theorem calls_pick {components : List Nat} : (e.pick components).Calls V ↔ e.Calls V := by
  unfold pick
  split <;> rfl

mutual

theorem functions_eq : (e : Expr) → e.functions = e.calls.map Prod.fst
  | var _ | lit _ => rfl
  | call _ args => by simp [functions, calls, functionsOf_eq args]
  | index a b | binary _ a b => by simp [functions, calls, functions_eq a, functions_eq b]
  | select value _ | field value _ | length value | neg value | complement value | paren value =>
    functions_eq value
  | cond test a b => by
    simp [functions, calls, functions_eq test, functions_eq a, functions_eq b]

theorem functionsOf_eq : (es : List Expr) → functionsOf es = (callsOf es).map Prod.fst
  | [] => rfl
  | e :: es => by simp [functionsOf, callsOf, functions_eq e, functionsOf_eq es]

end

theorem Calls.quiet (h : e.Calls V) (hv : V.Quiet) : e.Quiet := by
  rw [Quiet, functions_eq]
  exact List.forall_mem_map.mpr fun call hc => hv (h call hc)

end Expr

@[simp] theorem calls_intLiteral {i : Int} : (intLiteral i).Calls V := by
  unfold intLiteral
  split <;> simp

@[simp] theorem calls_literal {word : UInt32} : (literal d word t).Calls V := by
  have hbits : Common "uintBitsToFloat" := by decide
  unfold literal floatLiteral
  split
  case h_1 =>
    split
    case h_3 => split_ifs <;> (try split) <;> simp [hbits]
    all_goals simp
  all_goals simp

@[simp] theorem calls_zero : (zero d t).Calls V := by
  unfold zero
  split <;> simp

@[simp] theorem calls_cast : (cast d e t t' n).Calls V ↔ e.Calls V := by
  simp only [cast]
  split
  case isTrue => rfl
  case isFalse =>
    split
    case isTrue => split <;> simp +decide
    case isFalse => simp

@[simp] theorem calls_modify {m : Modifier} : (modify m t e).Calls V ↔ e.Calls V := by
  unfold modify
  split <;> simp +decide

@[simp] theorem calls_splat : (splat d t n e).Calls V ↔ e.Calls V := by
  unfold splat
  split <;> simp

@[simp] theorem calls_construct {lanes : List Expr} (h : ∀ e ∈ lanes, e.Calls V) :
    (construct d t lanes).Calls V := by
  unfold construct
  split
  case h_1 => exact calls_zero
  case h_2 lane => exact h lane List.mem_cons_self
  case h_3 lane rest _ =>
    simp only
    split
    case isTrue => simp [h lane List.mem_cons_self]
    case isFalse => exact Expr.calls_call.mpr ⟨V.common common_vecName, h⟩

-- An expression that may be assigned to.
@[mk_iff] structure Expr.Targets (V : Vocabulary) (e : Expr) : Prop where
  sets  : ∀ location ∈ e.written, V.Sets location.name
  calls : e.Calls V

@[simp] theorem Expr.targets_least : e.Targets .least ↔ e.Calls .least := by
  simp [targets_iff]

-- Statements that calculate, with calls from a vocabulary.
def Stmt.Calls (V : Vocabulary) : Stmt → Prop
  | assign target value => target.Targets V ∧ value.Calls V
  | eval value => value.Calls V
  | declare _ _ => V.Declares
  | define _ _ value => V.Declares ∧ value.Calls V
  | jump _ | jumpIf _ _ | flush => False

namespace Stmt

variable {s : Stmt} {target value : Expr} {type : String} {name : Name} {names : List Name}

@[simp] theorem calls_assign : (assign target value).Calls V ↔ target.Targets V ∧ value.Calls V :=
  .rfl

@[simp] theorem calls_eval : (eval value).Calls V ↔ value.Calls V :=
  .rfl

@[simp] theorem calls_declare : (declare type names).Calls V ↔ V.Declares :=
  .rfl

@[simp] theorem calls_define : (define type name value).Calls V ↔ V.Declares ∧ value.Calls V :=
  .rfl

theorem Calls.quiet (h : s.Calls V) (hv : V.Quiet) : s.Quiet := by
  cases s
  case assign => exact ⟨h.left.calls.quiet hv, h.right.quiet hv⟩
  case eval => exact Expr.Calls.quiet h hv
  case declare => trivial
  case define => exact h.right.quiet hv
  all_goals cases h

end Stmt

def Head.Calls (V : Vocabulary) : Head → Prop
  | when test => test.Calls V
  | choice selector => selector.Calls V
  | function _ | forever | times _ | bare => True

def Line.Calls (V : Vocabulary) : Line → Prop
  | stmts ss => ∀ s ∈ ss, s.Calls V
  | enter head => head.Calls V
  | otherwise | leave => True
  | caseLabel _ | endCase => False

@[simp] theorem Line.calls_stmt {s : Stmt} : (stmt s).Calls V ↔ s.Calls V := by
  simp [stmt, Line.Calls]

theorem Line.Calls.quiet {line : Line} (h : line.Calls V) (hv : V.Quiet) : line.Quiet := by
  cases line
  case stmts => exact fun s hs => (h s hs).quiet hv
  case enter head =>
    cases head
    case when | choice => exact Expr.Calls.quiet h hv
    all_goals trivial
  case caseLabel | endCase => cases h
  all_goals trivial

section Said

variable {line : Line}

/-! All calls that stand in a text, whatever it does. -/

def Jump.calls : Jump → List (String × List Expr)
  | breakOut | continueLoop | discard | ret => []
  | flushRet => [("store_outputs", [])]
  | call label => [(subroutineName label, [])]

def Stmt.calls : Stmt → List (String × List Expr)
  | assign target value => target.calls ++ value.calls
  | eval value => value.calls
  | declare _ _ => []
  | define _ _ value => value.calls
  | jump j => j.calls
  | jumpIf test j => test.calls ++ j.calls
  | flush => [("store_outputs", [])]

def Head.calls : Head → List (String × List Expr)
  | when test => test.calls
  | choice selector => selector.calls
  | function _ | forever | times _ | bare => []

def Line.calls : Line → List (String × List Expr)
  | stmts ss => ss.flatMap Stmt.calls
  | enter head => head.calls
  | caseLabel (.value v) => v.calls
  | otherwise | caseLabel .default | endCase | leave => []

def Function.calls (f : Function) : List (String × List Expr) :=
  f.body.flatMap Line.calls

theorem Stmt.Calls.said {s : Stmt} (h : s.Calls V) : ∀ call ∈ s.calls, V.Says call.1 call.2 := by
  cases s
  case assign => exact List.forall_mem_append.mpr ⟨h.left.calls, h.right⟩
  case eval => exact h
  case declare => exact List.forall_mem_nil _
  case define => exact h.right
  all_goals cases h

theorem Line.Calls.said (h : line.Calls V) : ∀ call ∈ line.calls, V.Says call.1 call.2 := by
  cases line
  case stmts => exact List.forall_mem_flatMap.mpr fun s hs => (h s hs).said
  case enter head =>
    cases head
    case when | choice => exact h
    all_goals exact List.forall_mem_nil _
  case caseLabel | endCase => cases h
  all_goals exact List.forall_mem_nil _

def Stmt.declared : Stmt → List Name
  | declare _ names => names
  | define _ name _ => [name]
  | assign _ _ | eval _ | jump _ | jumpIf _ _ | flush => []

def Line.declared : Line → List Name
  | stmts ss => ss.flatMap Stmt.declared
  | enter _ | otherwise | caseLabel _ | endCase | leave => []

def Function.declared (f : Function) : List Name :=
  f.body.flatMap Line.declared

theorem Line.Calls.declared (h : line.Calls V) (hv : ¬V.Declares) : line.declared = [] := by
  cases line
  case stmts =>
    refine List.flatMap_eq_nil_iff.mpr fun s hs => ?_
    have h := h s hs
    cases s
    case declare => exact absurd h hv
    case define => exact absurd h.left hv
    all_goals rfl
  all_goals rfl

theorem Line.Calls.assignments {name : Name} (h : line.Calls V) (hn : ¬V.Sets name) :
    line.assignments name = [] := by
  cases line
  case stmts =>
    refine assignments_eq_nil fun target value hs location hl hname => hn (hname ▸ ?_)
    exact (h _ hs).left.sets location hl
  all_goals rfl

end Said

end Glsl

end ShaderLift
