import ShaderLift.Word

/-!
The shortest decimal inside an interval of rationals, and how a decimal is laid out as text.
-/

namespace ShaderLift

structure Decimal where
  digits   : Nat
  exponent : Int
  deriving DecidableEq, Repr

structure Neighbourhood where
  unit   : Nat
  low    : Nat
  value  : Nat
  high   : Nat
  closed : Bool
  deriving Repr

namespace Neighbourhood

def magnitude (n : Neighbourhood) : Int :=
  if n.unit ≤ n.value then
    (Nat.toDigits 10 (n.value / n.unit)).length - 1
  else
    -(((List.range 64).find? (n.unit ≤ n.value * Nat.pow 10 ·)).getD 0 : Int)

def holds (n : Neighbourhood) (numerator unit : Nat) : Bool :=
  if n.closed then
    n.low * unit ≤ numerator * n.unit && numerator * n.unit ≤ n.high * unit
  else
    n.low * unit < numerator * n.unit && numerator * n.unit < n.high * unit

-- The multiple of `10 ^ k` inside the neighbourhood that is nearest to the value. Only the two
-- multiples around the value are looked at: if any multiple lies inside, one of these does. A
-- value halfway between the two goes to the upper one.
def onGrid (n : Neighbourhood) (k : Int) : Option Decimal :=
  let step := Nat.pow 10 k.toNat
  let unit := Nat.pow 10 (-k).toNat
  let below := n.value * unit / (n.unit * step)
  let above := below + 1
  match n.holds (below * step) unit, n.holds (above * step) unit with
  | true, true =>
    if 2 * (n.value * unit - below * (n.unit * step)) < n.unit * step then
      some ⟨below, k⟩
    else
      some ⟨above, k⟩
  | true, false => some ⟨below, k⟩
  | false, true => some ⟨above, k⟩
  | false, false => none

-- The decimal with the fewest digits inside the neighbourhood: the first grid that has one. Twenty
-- digits suffice for the neighbourhoods of all binary numbers with at most 64 bits.
def shortest (n : Neighbourhood) : Decimal :=
  ((List.range 20).findSome? fun (i : Nat) => n.onGrid (n.magnitude - i)).getD ⟨0, 0⟩

end Neighbourhood

-- How numbers are laid out: positionally if the exponent of the leading digit is at least `least`
-- and below `most`, otherwise with an exponent.
structure NumberFormat where
  least : Int
  most  : Int

namespace Decimal

def scientific (d : Decimal) : List Char × Int :=
  let digits := Nat.toDigits 10 d.digits
  let kept := (digits.reverse.dropWhile (· = '0')).reverse
  (kept, d.exponent + digits.length - 1)

def withPoint (digits : List Char) (leading : Int) : List Char :=
  if leading < 0 then
    '0' :: '.' :: List.replicate (-leading - 1).toNat '0' ++ digits
  else
    let whole := leading.toNat + 1
    let fraction := digits.drop whole
    digits.take whole ++ List.replicate (whole - digits.length) '0' ++
      '.' :: if fraction.isEmpty then ['0'] else fraction

def withExponent (digits : List Char) (leading : Int) : List Char :=
  let mantissa :=
    match digits with
    | first :: second :: rest => first :: '.' :: second :: rest
    | few => few
  mantissa ++ 'e' :: (toString leading).toList

def text (d : Decimal) (format : NumberFormat) : String :=
  let (digits, leading) := d.scientific
  if format.least ≤ leading && leading < format.most then
    .ofList (withPoint digits leading)
  else
    .ofList (withExponent digits leading)

end Decimal

end ShaderLift
