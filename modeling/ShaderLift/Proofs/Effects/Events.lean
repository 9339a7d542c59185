import ShaderLift.Glsl.Source
import ShaderLift.Proofs.Text.Numerals

/-!
What stands in the text of a function, as far as the outputs of its stage are concerned: its braces,
the calls that write the outputs, those that emit vertices, and its returns, in their order. Quiet
expressions and statements calculate and do nothing else.
-/

namespace ShaderLift

namespace Glsl

inductive Event where
  | opens
  | closes
  -- A call of `store_outputs`.
  | flush
  -- A call of `EmitVertex` or `EmitStreamVertex`.
  | emission
  | ret
  | other
  deriving DecidableEq, Repr

def Event.ofCall (function : String) : Event :=
  if function = "store_outputs" then flush
  else if function = "EmitVertex" ∨ function = "EmitStreamVertex" then emission
  else other

namespace Expr

mutual

-- The functions that are called where an expression stands.
def functions : Expr → List String
  | var _ | lit _ => []
  | call function args => functionsOf args ++ [function]
  | index array subscript => functions array ++ functions subscript
  | select value _ | field value _ | length value | neg value | complement value | paren value =>
    functions value
  | binary _ left right => functions left ++ functions right
  | cond test yes no => functions test ++ functions yes ++ functions no

def functionsOf : List Expr → List String
  | [] => []
  | e :: es => functions e ++ functionsOf es

end

def events (e : Expr) : List Event :=
  e.functions.map .ofCall

end Expr

def Jump.events : Jump → List Event
  | ret => [.ret]
  | flushRet => [.opens, .flush, .ret, .closes]
  | breakOut | continueLoop | discard | call _ => [.other]

-- The text of `flushRet` is that of a block.
example : Jump.flushRet.text =
    "\x7b " ++ Stmt.flush.text ++ " " ++ Jump.ret.text ++ " \x7d" :=
  rfl

-- A statement that is no call adds an event of its own behind those of its expressions.
def Stmt.events : Stmt → List Event
  | assign target value => target.events ++ value.events ++ [.other]
  | eval (.call function args) => Expr.events (.call function args)
  | eval value => value.events ++ [.other]
  | declare _ _ => [.other]
  | define _ _ value => value.events ++ [.other]
  | jump j => j.events
  | jumpIf test j => test.events ++ .other :: j.events
  | flush => [.flush]

def Head.events : Head → List Event
  | when test => test.events
  | choice selector => selector.events
  | function _ | forever | times _ | bare => []

def CaseLabel.events : CaseLabel → List Event
  | value v => v.events
  | default => []

def Line.events : Line → List Event
  | stmts ss => ss.flatMap Stmt.events
  | enter head => head.events ++ [.opens]
  | otherwise => [.closes, .opens]
  | caseLabel label => label.events ++ [.other]
  | endCase => []
  | leave => [.closes]

def events (lines : List Line) : List Event :=
  lines.flatMap Line.events

@[simp] theorem events_singleton {line : Line} : events [line] = line.events :=
  List.flatMap_singleton ..

@[simp] theorem events_append {lines lines' : List Line} :
    events (lines ++ lines') = events lines ++ events lines' :=
  List.flatMap_append

theorem events_stmts {ss : List Stmt} : events (ss.map .stmt) = ss.flatMap Stmt.events := by
  simp [events, List.flatMap_map, Line.stmt, Line.events]

section Quiet

-- The functions of the language that calculate have no underscore and no capital V in their names.
def Ordinary (function : String) : Prop :=
  '_' ∉ function.toList ∧ 'V' ∉ function.toList

instance {function : String} : Decidable (Ordinary function) :=
  inferInstanceAs (Decidable (_ ∧ _))

variable {d : Dialect} {t t' : ValueType} {e a b : Expr} {es : List Expr} {f g : String} {n : Nat}

@[simp] theorem ordinary_append : Ordinary (f ++ g) ↔ Ordinary f ∧ Ordinary g := by
  simp only [Ordinary, String.toList_append, List.mem_append, not_or]
  tauto

theorem Ordinary.ofCall_eq (h : Ordinary f) : Event.ofCall f = .other := by
  have hne {g : String} (hg : ¬Ordinary g) : f ≠ g := fun he => hg (he ▸ h)
  have hflush := hne (g := "store_outputs") (by decide)
  have hvertex := hne (g := "EmitVertex") (by decide)
  have hstream := hne (g := "EmitStreamVertex") (by decide)
  simp [Event.ofCall, hflush, hvertex, hstream]

@[simp] theorem ordinary_repr : Ordinary n.repr :=
  ⟨fun h => absurd (isDigit_of_mem_repr h) (by decide),
    fun h => absurd (isDigit_of_mem_repr h) (by decide)⟩

@[simp] theorem ordinary_scalarName : Ordinary (t.scalarName d) := by
  unfold ValueType.scalarName
  cases t.lower d <;> decide

@[simp] theorem ordinary_vecName : Ordinary (t.vecName d n) := by
  unfold ValueType.vecName
  split
  case isTrue => exact ordinary_scalarName
  case isFalse =>
    have hletter : Ordinary (t.lower d).letter := by cases t.lower d <;> decide
    have hvec : Ordinary "vec" := by decide
    simp [hletter, hvec, toString]

namespace Expr

def Quiet (e : Expr) : Prop :=
  ∀ f ∈ e.functions, Ordinary f

theorem Quiet.events (h : e.Quiet) : ∀ event ∈ e.events, event = .other :=
  List.forall_mem_map.mpr fun f hf => (h f hf).ofCall_eq

end Expr

-- Statements that calculate. They neither jump nor write outputs.
def Stmt.Quiet : Stmt → Prop
  | assign target value => target.Quiet ∧ value.Quiet
  | eval value => value.Quiet
  | declare _ _ => True
  | define _ _ value => value.Quiet
  | jump _ | jumpIf _ _ | flush => False

def Head.Quiet : Head → Prop
  | when test => test.Quiet
  | choice selector => selector.Quiet
  | function _ | forever | times _ | bare => True

-- Lines that calculate, and those around blocks of them.
def Line.Quiet : Line → Prop
  | stmts ss => ∀ s ∈ ss, s.Quiet
  | enter head => head.Quiet
  | otherwise | leave => True
  | caseLabel _ | endCase => False

namespace Stmt

variable {s : Stmt} {target value : Expr} {type : String} {name : Name} {names : List Name}

@[simp] theorem quiet_assign : (assign target value).Quiet ↔ target.Quiet ∧ value.Quiet :=
  .rfl

@[simp] theorem quiet_eval : (eval value).Quiet ↔ value.Quiet :=
  .rfl

@[simp] theorem quiet_declare : (declare type names).Quiet :=
  trivial

@[simp] theorem quiet_define : (define type name value).Quiet ↔ value.Quiet :=
  .rfl

theorem Quiet.events (h : s.Quiet) : ∀ event ∈ s.events, event = .other := by
  cases s
  case assign =>
    have h := List.forall_mem_append.mpr ⟨h.left.events, h.right.events⟩
    exact List.forall_mem_append.mpr ⟨h, List.forall_mem_singleton.mpr rfl⟩
  case eval value =>
    have hv := Expr.Quiet.events h
    cases value
    case call => exact hv
    all_goals exact List.forall_mem_append.mpr ⟨hv, List.forall_mem_singleton.mpr rfl⟩
  case declare => exact List.forall_mem_singleton.mpr rfl
  case define =>
    exact List.forall_mem_append.mpr ⟨Expr.Quiet.events h, List.forall_mem_singleton.mpr rfl⟩
  all_goals cases h

end Stmt

@[simp] theorem Line.quiet_stmt {s : Stmt} : (stmt s).Quiet ↔ s.Quiet := by
  simp [stmt, Line.Quiet]

theorem Head.Quiet.events {head : Head} (h : head.Quiet) :
    ∀ event ∈ head.events, event = .other := by
  cases head
  case when | choice => exact Expr.Quiet.events h
  all_goals exact List.forall_mem_nil _

-- Braces are all that quiet lines show.
theorem Line.Quiet.events {line : Line} (h : line.Quiet) :
    ∀ event ∈ line.events, event ∈ [.opens, .closes, .other] := by
  cases line
  case stmts =>
    refine List.forall_mem_flatMap.mpr fun s hs event he => ?_
    simp [(h s hs).events event he]
  case enter =>
    refine List.forall_mem_append.mpr ⟨fun event he => ?_, by simp⟩
    simp [Head.Quiet.events h event he]
  case caseLabel | endCase => cases h
  all_goals simp [Line.events]

end Quiet

end Glsl

end ShaderLift
