import ShaderLift.Glsl.Expr

/-!
Statements and lines of function bodies. Lines open and close blocks, and printing them indents what
stands inside.
-/

namespace ShaderLift.Glsl

inductive Jump where
  | breakOut
  | continueLoop
  | discard
  | ret
  -- Writes the outputs and returns.
  | flushRet
  | call (label : UInt32)
  deriving DecidableEq, Repr

def subroutineName (label : UInt32) : String :=
  "sub_l" ++ decimal label

def Jump.text : Jump → String
  | breakOut => "break;"
  | continueLoop => "continue;"
  | discard => "discard;"
  | ret => "return;"
  | flushRet => "\x7b store_outputs(); return; \x7d"
  | call label => subroutineName label ++ "();"

inductive Stmt where
  | assign (target value : Expr)
  | eval (value : Expr)
  | declare (type : String) (names : List Name)
  | define (type : String) (name : Name) (value : Expr)
  | jump (jump : Jump)
  | jumpIf (test : Expr) (jump : Jump)
  | flush
  deriving Repr

def Stmt.text : Stmt → String
  | assign target value => target.text ++ " = " ++ value.text ++ ";"
  | eval value => value.text ++ ";"
  | declare type names => type ++ " " ++ joinWith ", " (names.map Name.text) ++ ";"
  | define type name value => type ++ " " ++ name.text ++ " = " ++ value.text ++ ";"
  | jump j => j.text
  | jumpIf test j => "if (" ++ test.text ++ ") " ++ j.text
  | flush => "store_outputs();"

inductive Head where
  | function (signature : String)
  | when (test : Expr)
  | forever
  | choice (selector : Expr)
  | times (count : UInt32)
  | bare
  deriving Repr

def Head.text : Head → String
  | function signature => signature ++ " \x7b"
  | when test => "if (" ++ test.text ++ ") \x7b"
  | forever => "while (true) \x7b"
  | choice selector => "switch (" ++ selector.text ++ ") \x7b"
  | times count => "for (int i = 0; i < " ++ decimal count ++ "; i++) \x7b"
  | bare => "\x7b"

inductive CaseLabel where
  | value (value : Expr)
  | default
  deriving Repr

def CaseLabel.text : CaseLabel → String
  | value v => "case " ++ v.text ++ ":"
  | default => "default:"

inductive Line where
  | stmts (stmts : List Stmt)
  | enter (head : Head)
  | otherwise
  | caseLabel (label : CaseLabel)
  -- Ends what stands under a case label; nothing is written.
  | endCase
  | leave
  deriving Repr

namespace Line

def stmt (s : Stmt) : Line :=
  stmts [s]

def text? : Line → Option String
  | stmts ss => some (joinWith " " (ss.map Stmt.text))
  | enter head => some head.text
  | otherwise => some "\x7d else \x7b"
  | caseLabel label => some label.text
  | endCase => none
  | leave => some "\x7d"

-- The level that a line stands on, after lines that lead to level `n`.
def levelBefore (n : Nat) : Line → Nat
  | stmts _ | enter _ | caseLabel _ => n
  | otherwise | endCase | leave => n - 1

def levelAfter (n : Nat) : Line → Nat
  | stmts _ => n
  | enter _ | caseLabel _ => n + 1
  | otherwise => n - 1 + 1
  | endCase | leave => n - 1

end Line

def indent (level : Nat) (text : String) : String :=
  .ofList (List.replicate (4 * level) ' ') ++ text

def renderLines (level : Nat) : List Line → List String
  | [] => []
  | line :: lines =>
    let rest := renderLines (line.levelAfter level) lines
    match line.text? with
    | some text => indent (line.levelBefore level) text :: rest
    | none => rest

def block (head : Head) (body : List Line) : List Line :=
  .enter head :: body ++ [.leave]

def unlines (lines : List String) : String :=
  String.join (lines.map (· ++ "\n"))

-- Cuts text into lines, of which the first starts with `line` in reverse. A carriage return in
-- front of a line feed goes with it.
def cutLines (line : List Char) : List Char → List (List Char)
  | [] => if line.isEmpty then [] else [line.reverse]
  | c :: rest =>
    if c = '\n' then
      (if line.head? = some '\r' then line.tail else line).reverse :: cutLines [] rest
    else cutLines (c :: line) rest

def takeOver (text : String) : List String :=
  (cutLines [] text.toList).map .ofList

end ShaderLift.Glsl
