import ShaderLift.Dialect.Basic
import ShaderLift.Signature

/-!
The types of register lanes in the shading language.
-/

namespace ShaderLift

inductive ValueType where
  | float
  | int
  | uint
  deriving DecidableEq, Repr

namespace ValueType

-- Signed integers stand in where a dialect has no unsigned ones.
def lower (d : Dialect) : ValueType → ValueType
  | uint => if d.has .unsignedIntegers then uint else int
  | t => t

theorem lower_lower (d : Dialect) (t : ValueType) : (t.lower d).lower d = t.lower d := by
  cases t <;> simp only [lower]
  split <;> simp_all

def letter : ValueType → String
  | float => ""
  | int => "i"
  | uint => "u"

def scalarName (d : Dialect) (t : ValueType) : String :=
  match t.lower d with
  | float => "float"
  | int => "int"
  | uint => "uint"

def vecName (d : Dialect) (t : ValueType) (n : Nat) : String :=
  if n ≤ 1 then t.scalarName d else (t.lower d).letter ++ "vec" ++ toString n

def ofComponentType : ComponentType → ValueType
  | .float32 => float
  | .uint32 => uint
  | .sint32 => int

def ofReturnType : ReturnType → ValueType
  | .sint => int
  | .uint => uint
  | _ => float

-- How an immediate of unknown type is meant: as floats if all of them look like ordinary ones,
-- which are zeros and those of medium size, and else as integers.
def guess (words : List UInt32) : ValueType :=
  if words.all looksFloat then float else int
where
  looksFloat (word : UInt32) : Bool :=
    let exponent := Word.bits word 23 8
    Word.bits word 0 31 = 0 || 100 ≤ exponent && exponent ≤ 154

end ValueType

structure AluTypes where
  source : ValueType
  result : ValueType
  deriving DecidableEq, Repr

-- The types of opcodes that have fixed ones. Moves, samples and memory accesses do not.
def Opcode.aluTypes? : Opcode → Option AluTypes
  | add | mul | mad | div | min | max | frc | exp | log | sqrt | rsq | rcp | roundNe | roundNi
  | roundPi | roundZ | derivRtx | derivRty | derivRtxCoarse | derivRtxFine | derivRtyCoarse
  | derivRtyFine | dp2 | dp3 | dp4 | sinCos | evalSnapped | evalSampleIndex | evalCentroid =>
    some ⟨.float, .float⟩
  | eq | ne | lt | ge | ftoi => some ⟨.float, .int⟩
  | iadd | imad | imax | imin | ineg | ishl | ishr | imul | ibfe | ieq | ine | ilt | ige
  | firstBitShi => some ⟨.int, .int⟩
  | ult | uge | countBits | firstBitHi | firstBitLo | deq | dge | dlt | dne | dtoi =>
    some ⟨.uint, .int⟩
  | umul | umad | umax | umin | ushr | udiv | ubfe | bfi | bfrev | and | or | xor | not | uaddc
  | usubb | dtou | dadd | dmax | dmin | dmul | dmov | dmovc | ddiv | dfma | drcp | ftod | itod
  | utod => some ⟨.uint, .uint⟩
  | itof => some ⟨.int, .float⟩
  | utof | f16ToF32 | dtof => some ⟨.uint, .float⟩
  | ftou | f32ToF16 => some ⟨.float, .uint⟩
  | _ => none

end ShaderLift
