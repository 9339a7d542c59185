import ShaderLift.Word
import ShaderLift.Text.Visible

/-!
Text in quotes, as messages show what a user has typed.
-/

namespace ShaderLift

def quotedChar (c : Char) : String :=
  match c with
  | '"' => "\\\""
  | '\\' => "\\\\"
  | '\n' => "\\n"
  | '\r' => "\\r"
  | '\t' => "\\t"
  | '\x00' => "\\0"
  | c =>
    if isVisible c then String.singleton c
    else "\\u\x7b" ++ hexDigits 1 c.toNat ++ "\x7d"

def quoted (text : String) : String :=
  "\"" ++ .join (text.toList.map quotedChar) ++ "\""

end ShaderLift
