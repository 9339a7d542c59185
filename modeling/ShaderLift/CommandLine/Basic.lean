import ShaderLift.Text.Quoted
import ShaderLift.Options

/-!
The command line: its arguments, and what may be wrong with them.
-/

namespace ShaderLift.CommandLine

def usage : String :=
  "dxbc-to-glsl: translate a DXBC shader (SM4/SM5) into GLSL

USAGE:
    dxbc-to-glsl <input.dxbc> [--glsl <ver>] [--es] [--has-gs] [--no-ps] [--rules <hex>] [-o <out>]

FLAGS:
    --glsl <ver>     Target version: a #version number (330) or API version (3.3). Default 330
    --es             Target GLSL ES instead of desktop GLSL
    --has-gs         A geometry shader feeds the pixel shader
    --no-ps          No pixel shader consumes this stage's varyings
    --rules <hex>    Override the capability bitmask of the target version
    -o <out>         Write GLSL to <out> instead of stdout

Set RUST_LOG (e.g. RUST_LOG=dxbc_glsl=debug) for diagnostics on stderr.
"

inductive NumberFault where
  | empty
  | badDigit
  | tooLarge
  deriving DecidableEq, Repr

def NumberFault.message : NumberFault → String
  | empty => "cannot parse integer from empty string"
  | badDigit => "invalid digit found in string"
  | tooLarge => "number too large to fit in target type"

def hexValue? (c : Char) : Option Nat :=
  if '0' ≤ c ∧ c ≤ '9' then some (c.toNat - '0'.toNat)
  else if 'a' ≤ c ∧ c ≤ 'f' then some (c.toNat - 'a'.toNat + 10)
  else if 'A' ≤ c ∧ c ≤ 'F' then some (c.toNat - 'A'.toNat + 10)
  else none

-- Reads hexadecimal digits behind the number `n`, which may not grow beyond 64 bits.
def readDigits (n : Nat) : List Char → Except NumberFault Nat
  | [] => .ok n
  | c :: cs =>
    match hexValue? c with
    | none => .error .badDigit
    | some d => if 16 * n + d < UInt64.size then readDigits (16 * n + d) cs else .error .tooLarge

def readHex : List Char → Except NumberFault Nat
  | [] => .error .empty
  | ['+'] => .error .badDigit
  | '+' :: cs | cs => readDigits 0 cs

-- Drops every `0x` in front of a number.
def dropMarks : List Char → List Char
  | '0' :: 'x' :: cs => dropMarks cs
  | cs => cs

inductive Failure where
  | missingValue (option : String)
  | badCapabilities (text : String) (fault : NumberFault)
  | unknownOption (arg : String)
  | extraArgument (arg : String)
  | missingInput
  | unknownVersion (es : Bool) (text : String)
  | unreadable (path cause : String)
  | notLifted (path : String) (error : LiftError)
  | unwritable (path cause : String)
  deriving DecidableEq, Repr

namespace Failure

-- The cause within an error, which is told once more behind the error itself.
def innerMessage : LiftError → String
  | .malformed error => ": " ++ error.message
  | .unbalanced error => ": " ++ error.message
  | _ => ""

def message : Failure → String
  | missingValue option => option ++ " requires a value"
  | badCapabilities text fault =>
    "invalid --rules value " ++ quoted text ++ ": " ++ fault.message
  | unknownOption arg => "unknown option " ++ quoted arg ++ "\n\n" ++ usage
  | extraArgument arg => "unexpected positional argument " ++ quoted arg ++ "\n\n" ++ usage
  | missingInput => "missing DXBC input path\n\n" ++ usage
  | unknownVersion es text =>
    "unknown GLSL" ++ (if es then " ES" else "") ++ " version " ++ quoted text
  | unreadable path cause => "failed to read " ++ path ++ ": " ++ cause
  | notLifted path error =>
    "failed to translate " ++ path ++ ": " ++ error.message ++ innerMessage error
  | unwritable path cause => "failed to write " ++ path ++ ": " ++ cause

end Failure

structure Arguments where
  input        : Option String := none
  output       : Option String := none
  version      : String := "330"
  es           : Bool := false
  capabilities : Option Nat := none
  hasGeometry  : Bool := false
  hasPixel     : Bool := true
  deriving DecidableEq, Repr

structure Job where
  input   : String
  -- Without a file to write to, the text goes to the standard output.
  output  : Option String
  options : Options

inductive Command where
  | help
  | lift (job : Job)

namespace Arguments

-- Takes in arguments one after the other. A request for help ends them, and has no value.
def read (a : Arguments) : List String → Except Failure (Option Arguments)
  | [] => return some a
  | "-h" :: _ | "--help" :: _ => return none
  | "--glsl" :: version :: args => { a with version }.read args
  | "--es" :: args => { a with es := true }.read args
  | "--has-gs" :: args => { a with hasGeometry := true }.read args
  | "--no-ps" :: args => { a with hasPixel := false }.read args
  | "--rules" :: text :: args =>
    match readHex (dropMarks text.toList) with
    | .ok bits => { a with capabilities := some bits }.read args
    | .error fault => throw (.badCapabilities text fault)
  | "-o" :: output :: args => { a with output := some output }.read args
  | arg :: args => do
    if arg = "--glsl" ∨ arg = "--rules" ∨ arg = "-o" then
      throw (.missingValue arg)
    if arg.toList.head? = some '-' then
      throw (.unknownOption arg)
    if a.input.isSome then
      throw (.extraArgument arg)
    { a with input := some arg }.read args

-- The version that is aimed at. The desktop default stands for the first ES version like it.
def versionText (a : Arguments) : String :=
  if a.es ∧ a.version = "330" then "300" else a.version

def job (a : Arguments) : Except Failure Job := do
  let some input := a.input | throw .missingInput
  let some version := Version.parse a.versionText a.es | throw (.unknownVersion a.es a.versionText)
  return {
    input
    output := a.output
    options := {
      version
      rules := a.capabilities.map fun bits => ⟨version, .ofBits bits⟩
      hasGeometry := a.hasGeometry
      hasPixel := a.hasPixel } }

end Arguments

def Command.parse (args : List String) : Except Failure Command := do
  match ← ({} : Arguments).read args with
  | none => return .help
  | some a => return .lift (← a.job)

end ShaderLift.CommandLine
