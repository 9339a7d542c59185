import ShaderLift.Glsl.Declaration

/-!
The parts of a shader's text, and how they are put together.
-/

namespace ShaderLift.Glsl

structure Function where
  signature : String
  body      : List Line
  deriving Repr

namespace Function

def lines (f : Function) : List Line :=
  block (.function f.signature) f.body

def text (f : Function) : List String :=
  renderLines 0 f.lines

end Function

def joinSections : List (List String) → List String
  | [] => []
  | [lines] => lines
  | lines :: sections => lines ++ "" :: joinSections sections

-- The functions of phases, which are taken over from texts of their own, and the one behind them
-- that runs them.
def phasesLines : List Function → List String
  | [] => []
  | [driver] => driver.text
  | f :: fs => takeOver (unlines f.text) ++ "" :: phasesLines fs

def phasesText (fs : List Function) : String :=
  unlines (phasesLines fs)

inductive Functions where
  -- Main, the function that writes the outputs before it, and subroutines behind it.
  | single (store : Option Function) (labels : List UInt32) (main : Function)
      (subroutines : List Function)
  | phased (controlPoint forks joins : List Function) (main : Function)
  deriving Repr

namespace Functions

def prototype (label : UInt32) : String :=
  "void " ++ subroutineName label ++ "();"

def sections : Functions → List (List String)
  | single store labels main subroutines =>
    store.toList.map Function.text ++
      (if labels.isEmpty then [] else [labels.map prototype]) ++
      (main :: subroutines).map fun f => takeOver (unlines f.text)
  | phased controlPoint forks joins main =>
    [phasesText controlPoint, phasesText forks, phasesText joins, unlines main.text].map takeOver

end Functions

structure Source where
  preamble  : List String
  decls     : List Decl
  functions : Functions
  deriving Repr

namespace Source

def text (s : Source) : String :=
  unlines (joinSections
    (s.preamble :: takeOver (unlines (s.decls.flatMap Decl.lines)) :: s.functions.sections))

end Source

end ShaderLift.Glsl
