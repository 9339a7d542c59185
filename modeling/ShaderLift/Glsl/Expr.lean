import ShaderLift.SortedMap
import ShaderLift.Decimal.Binary32
import ShaderLift.Glsl.ValueType

/-!
Expressions of the shading language. They are built as trees and written out last.
-/

namespace ShaderLift.Glsl

-- A texture together with the sampler that it is read through. Textures that are only fetched from
-- have none.
structure SamplerKey where
  texture : UInt32
  sampler : Option UInt32
  shadow  : Bool
  deriving DecidableEq, Repr

namespace SamplerKey

def samplerRank : Option UInt32 → Nat
  | none => 0
  | some s => s.toNat + 1

theorem samplerRank_lt : (s : Option UInt32) → samplerRank s < UInt32.size + 1
  | none => Nat.succ_pos _
  | some s => Nat.succ_lt_succ s.toNat_lt

theorem samplerRank_inj : {s t : Option UInt32} → samplerRank s = samplerRank t → s = t
  | none, none, _ => rfl
  | some _, some _, h => congrArg some (UInt32.toNat_inj.mp (Nat.succ.inj h))

-- Orders keys by texture, then by sampler with the missing one first, then by kind.
def rank (k : SamplerKey) : Nat :=
  (k.texture.toNat * (UInt32.size + 1) + samplerRank k.sampler) * 2 + k.shadow.toNat

theorem rank_inj {a b : SamplerKey} (h : a.rank = b.rank) : a = b := by
  obtain ⟨h, hk⟩ := digits_inj (Nat.lt_succ_of_le (Bool.toNat_le _))
    (Nat.lt_succ_of_le (Bool.toNat_le _)) h
  obtain ⟨ht, hs⟩ := digits_inj (samplerRank_lt _) (samplerRank_lt _) h
  obtain ⟨t, s, k⟩ := a
  obtain ⟨t', s', k'⟩ := b
  simp only [mk.injEq]
  exact ⟨UInt32.toNat_inj.mp ht, samplerRank_inj hs, by cases k <;> cases k' <;> simp_all⟩

instance : Ranked SamplerKey where
  rank := rank
  rank_inj := rank_inj

def name (k : SamplerKey) : String :=
  match k.sampler with
  | none => "t" ++ decimal k.texture
  | some s =>
    "t" ++ decimal k.texture ++ "_s" ++ decimal s ++ if k.shadow then "_cmp" else ""

end SamplerKey

inductive RegisterFile where
  | inputs
  | outputs
  | inputPoints
  | outputPoints
  | patchInputs
  | patchOutputs
  deriving DecidableEq, Repr

def RegisterFile.name : RegisterFile → String
  | inputs => "v"
  | outputs => "o"
  | inputPoints => "vicp"
  | outputPoints => "vocp"
  | patchInputs => "vpc"
  | patchOutputs => "opc"

inductive Name where
  | temp (register : UInt32)
  | indexableTemp (register : UInt32)
  | file (file : RegisterFile)
  | constants (slot : UInt32)
  | member (name : String)
  | immediates
  | sampler (key : SamplerKey)
  | resourceData (slot : UInt32)
  | uavData (slot : UInt32)
  | counter (slot : UInt32)
  | image (slot : UInt32)
  | shared (slot : UInt32)
  | varying (name : String)
  -- A variable of the language itself, less its `gl_`.
  | builtin (name : String)
  | scratch (n : Nat)
  | phaseInstance
  | loopIndex
  -- A piece of text that counts as one name.
  | verbatim (text : String)
  deriving DecidableEq, Repr

def Name.text : Name → String
  | temp r => "r" ++ decimal r
  | indexableTemp r => "x" ++ decimal r
  | file f => f.name
  | constants slot => "cb" ++ decimal slot
  | member name | varying name | verbatim name => name
  | immediates => "icb"
  | sampler key => key.name
  | resourceData slot => "t" ++ decimal slot ++ "_data"
  | uavData slot => "u" ++ decimal slot ++ "_data"
  | counter slot => "u" ++ decimal slot ++ "_counter"
  | image slot => "u" ++ decimal slot
  | shared slot => "g" ++ decimal slot
  | builtin name => "gl_" ++ name
  | scratch n => "tmp" ++ toString n
  | phaseInstance => "phase_instance"
  | loopIndex => "i"

inductive Literal where
  | int (value : Int)
  | uint (value : UInt32)
  | hex (value : UInt32) (digits : Nat)
  | long (value : UInt64)
  | float (word : UInt32)
  deriving DecidableEq, Repr

def Literal.text : Literal → String
  | int value => toString value
  | uint value => decimal value ++ "u"
  | hex value digits => "0x" ++ hexDigits digits value.toNat ++ "u"
  | long value => toString value.toNat ++ "l"
  | float word => Binary32.text word

inductive BinaryOp where
  | add
  | sub
  | mul
  | div
  | mod
  | shl
  | shr
  | and
  | or
  | xor
  | eq
  | ne
  | lt
  | ge
  deriving DecidableEq, Repr

def BinaryOp.symbol : BinaryOp → String
  | add => "+"
  | sub => "-"
  | mul => "*"
  | div => "/"
  | mod => "%"
  | shl => "<<"
  | shr => ">>"
  | and => "&"
  | or => "|"
  | xor => "^"
  | eq => "=="
  | ne => "!="
  | lt => "<"
  | ge => ">="

-- An expression as it is written: parentheses are nodes of their own.
inductive Expr where
  | var (name : Name)
  | lit (literal : Literal)
  | call (function : String) (args : List Expr)
  | index (array subscript : Expr)
  | select (value : Expr) (components : List Nat)
  | field (value : Expr) (name : String)
  | length (array : Expr)
  | neg (value : Expr)
  | complement (value : Expr)
  | paren (value : Expr)
  | binary (op : BinaryOp) (left right : Expr)
  | cond (test yes no : Expr)
  deriving Repr

-- The letter of a component, of whose number the two low bits count.
def componentLetter (c : Nat) : Char :=
  (⟨'x', 'y', 'z', 'w'⟩ : Quad Char).get c

def componentText (components : List Nat) : String :=
  "." ++ .ofList (components.map componentLetter)

namespace Expr

mutual

def text : Expr → String
  | var name => name.text
  | lit literal => literal.text
  | call function args => function ++ "(" ++ joinWith ", " (texts args) ++ ")"
  | index array subscript => array.text ++ "[" ++ subscript.text ++ "]"
  | select value components => value.text ++ componentText components
  | field value name => value.text ++ "." ++ name
  | length array => array.text ++ ".length()"
  | neg value => "-" ++ value.text
  | complement value => "~" ++ value.text
  | paren value => "(" ++ value.text ++ ")"
  | binary op left right => left.text ++ " " ++ op.symbol ++ " " ++ right.text
  | cond test yes no => test.text ++ " ? " ++ yes.text ++ " : " ++ no.text

def texts : List Expr → List String
  | [] => []
  | e :: es => e.text :: texts es

end

theorem texts_eq_map (es : List Expr) : texts es = es.map text := by
  induction es with
  | nil => rfl
  | cons e es ih => simp [texts, ih]

def int (n : Int) : Expr :=
  lit (.int n)

def number (n : UInt32) : Expr :=
  int n.toNat

def floatZero : Expr :=
  lit (.float 0)

def floatOne : Expr :=
  lit (.float 0x3f800000)

def builtin (name : String) : Expr :=
  var (.builtin name)

def op (op : BinaryOp) (left right : Expr) : Expr :=
  paren (binary op left right)

def ifNonZero (test yes no : Expr) : Expr :=
  paren (cond (binary .ne test (int 0)) yes no)

-- Picks components, in their own order all four by the bare value.
def pick (value : Expr) (components : List Nat) : Expr :=
  if components = [0, 1, 2, 3] then value else select value components

end Expr

-- A signed literal. The smallest number has no literal of its own.
def intLiteral (n : Int) : Expr :=
  if n = -2147483648 then .op .sub (.int (-2147483647)) (.int 1) else .int n

-- A float literal. What has no decimal text is built from its bits where the dialect can do that,
-- and else by a division, but for numbers below the normal range, which count as zero.
def floatLiteral (d : Dialect) (word : UInt32) : Expr :=
  match Binary32.kind word with
  | .zero | .normal => .lit (.float word)
  | kind =>
    if d.has .bitCasts then .call "uintBitsToFloat" [.lit (.hex word 8)]
    else
      match kind with
      | .nan => .op .div .floatZero .floatZero
      | .infinite =>
        .op .div (.lit (.float (if Binary32.isNegative word then 0xbf800000 else 0x3f800000)))
          .floatZero
      | _ => .floatZero

def literal (d : Dialect) (word : UInt32) (t : ValueType) : Expr :=
  match t.lower d with
  | .float => floatLiteral d word
  | .int => intLiteral (Word.signed word)
  | .uint => .lit (.uint word)

def zero (d : Dialect) (t : ValueType) : Expr :=
  match t.lower d with
  | .float => .floatZero
  | .int => .int 0
  | .uint => .lit (.uint 0)

-- Reads `n` lanes of one type as another. The bits are kept where the dialect can do that, and
-- else the numbers are converted.
def cast (d : Dialect) (e : Expr) (source target : ValueType) (n : Nat) : Expr :=
  let source := source.lower d
  let target := target.lower d
  if source = target then e
  else
    let convert := Expr.call (target.vecName d n) [e]
    if d.has .bitCasts then
      match source, target with
      | .float, .int => .call "floatBitsToInt" [e]
      | .float, .uint => .call "floatBitsToUint" [e]
      | .int, .float => .call "intBitsToFloat" [e]
      | .uint, .float => .call "uintBitsToFloat" [e]
      | _, _ => convert
    else convert

-- Applies a source modifier. Unsigned numbers have no sign to drop.
def modify (m : Modifier) (t : ValueType) (e : Expr) : Expr :=
  match m, t with
  | .plain, _ => e
  | .neg, _ => .neg (.paren e)
  | .abs, .uint => e
  | .abs, _ => .call "abs" [e]
  | .absNeg, .uint => .neg (.paren e)
  | .absNeg, _ => .neg (.call "abs" [e])

-- A vector of lanes. One lane is left as it is, and equal lanes are written once.
def construct (d : Dialect) (t : ValueType) (lanes : List Expr) : Expr :=
  match lanes with
  | [] => zero d t
  | [lane] => lane
  | lane :: rest =>
    let make := Expr.call (t.vecName d lanes.length)
    if rest.all (·.text = lane.text) then make [lane] else make lanes

def splat (d : Dialect) (t : ValueType) (n : Nat) (e : Expr) : Expr :=
  if n = 1 then e else .call (t.vecName d n) [e]

end ShaderLift.Glsl
