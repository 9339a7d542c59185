/-!
Identifiers of the shading language. Names from reflection data may be any text, and are bent into
shape.
-/

namespace ShaderLift.Identifier

def reserved : List String :=
  ["active", "attribute", "buffer", "centroid", "coherent", "common", "const", "filter", "flat",
    "in", "inout", "input", "invariant", "layout", "out", "output", "patch", "precise", "precision",
    "readonly", "restrict", "sample", "shared", "smooth", "subroutine", "texture", "uniform",
    "varying", "volatile", "writeonly", "main", "bool", "int", "uint", "float", "double", "void",
    "true", "false"]

def isAllowed (c : Char) : Bool :=
  c.isAlphanum || c = '_'

def collapse : List Char → List Char
  | [] => []
  | c :: cs =>
    match c, collapse cs with
    | '_', '_' :: rest => '_' :: rest
    | c, rest => c :: rest

-- Puts an underscore in front of nothing and of a digit.
def guardStart : List Char → List Char
  | [] => ['_']
  | c :: cs => if c.isDigit then '_' :: c :: cs else c :: cs

def ofChars (name : List Char) : List Char :=
  let clean := collapse (guardStart (name.map fun c => if isAllowed c then c else '_'))
  if ['g', 'l', '_'].isPrefixOf clean then '_' :: clean
  else if reserved.contains (String.ofList clean) then clean ++ ['_', '0']
  else clean

def ofString (name : String) : String :=
  .ofList (ofChars name.toList)

-- Semantics do not distinguish case, so they are written in capitals.
def ofSemantic (semantic : String) (index : UInt32) : String :=
  ofString (.ofList (semantic.toList.map Char.toUpper)) ++ toString index.toNat

end ShaderLift.Identifier
