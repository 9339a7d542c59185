import ShaderLift.Decimal.Shortest

/-!
Words read as single-precision numbers: their class, their shortest decimal text, and the nearest
single-precision number to an integer.
-/

namespace ShaderLift

namespace Binary32

inductive Kind where
  | zero
  | normal
  | subnormal
  | infinite
  | nan
  deriving DecidableEq, Repr

def exponentField (word : UInt32) : Nat :=
  Word.bits word 23 8

def fraction (word : UInt32) : Nat :=
  Word.bits word 0 23

def isNegative (word : UInt32) : Bool :=
  Word.bit word 31

def kind (word : UInt32) : Kind :=
  match exponentField word, fraction word with
  | 0, 0 => .zero
  | 0, _ => .subnormal
  | 255, 0 => .infinite
  | 255, _ => .nan
  | _, _ => .normal

-- The bit of a normal significand that is not stored, and the weight of the exponent.
def hiddenBit : Nat := 0x800000

-- The significand `m` and the exponent `q` of a finite number `m * 2 ^ q`.
def finite (word : UInt32) : Nat × Int :=
  match exponentField word with
  | 0 => (fraction word, -149)
  | e => (hiddenBit + fraction word, e - 150)

-- The numbers that round to a finite non-zero number: half a unit of the last place to each side,
-- a quarter of it below a power of two, with the ends if the significand is even.
def neighbourhood (word : UInt32) : Neighbourhood :=
  let (m, q) := finite word
  let scale := 1 <<< q.toNat
  { unit   := 4 <<< (-q).toNat
    low    := (4 * m - if m = hiddenBit then 1 else 2) * scale
    value  := 4 * m * scale
    high   := (4 * m + 2) * scale
    closed := m % 2 = 0 }

-- Numbers are positional from `0.0001` up to below `1e16`.
def format : NumberFormat := ⟨-4, 16⟩

def text (word : UInt32) : String :=
  let sign := if isNegative word then "-" else ""
  match kind word with
  | .zero => sign ++ "0.0"
  | _ => sign ++ (neighbourhood word).shortest.text format

-- `n / 2 ^ shift`, rounded to the nearest integer, a half to the even one.
def roundShift (n shift : Nat) : Nat :=
  let quotient := n >>> shift
  let unit := 1 <<< shift
  let twice := 2 * (n % unit)
  if unit < twice || twice = unit && quotient % 2 = 1 then quotient + 1 else quotient

def ofInt (i : Int) : UInt32 :=
  let n := i.natAbs
  if n = 0 then 0
  else
    let e := n.log2
    let m := if e ≤ 23 then n <<< (23 - e) else roundShift n (e - 23)
    -- A significand that rounds up to the next power of two carries into the exponent.
    .ofNat ((if i < 0 then 0x80000000 else 0) + (e + 127) * hiddenBit + (m - hiddenBit))

end Binary32

end ShaderLift
