import ShaderLift.DecodeError
import ShaderLift.Bytecode.Operand

/-!
A reader over a window of the token stream. Words are taken from the front one after the other, and
operands are pushed to the arena as they are met. A failed step leaves the reader where it failed.
-/

namespace ShaderLift

structure Reader where
  base     : Nat
  consumed : Nat := 0
  rest     : List UInt32
  operands : Arena := #[]
  deriving DecidableEq, Repr

namespace Reader

def position (r : Reader) : Nat :=
  r.base + r.consumed

def windowLength (r : Reader) : Nat :=
  r.consumed + r.rest.length

def isAtEnd (r : Reader) : Bool :=
  r.rest.isEmpty

end Reader

abbrev Decoder := EStateM DecodeError Reader

namespace Decoder

def position : Decoder Nat :=
  return (← get).position

def word : Decoder UInt32 := fun r =>
  match r.rest with
  | [] => .error ⟨r.position, .endOfStream⟩ r
  | w :: ws => .ok w { r with consumed := r.consumed + 1, rest := ws }

-- Takes two words as one value, the high one first.
def long : Decoder UInt64 :=
  return Word.join (← word) (← word)

def words : Nat → Decoder (List UInt32)
  | 0 => return []
  | n + 1 => return (← word) :: (← words n)

-- Takes `n` pairs of words as values, the low one of each first.
def longs : Nat → Decoder (List UInt64)
  | 0 => return []
  | n + 1 => do
    let low ← word
    let high ← word
    return Word.join high low :: (← longs n)

-- Takes `n` words at once, or none if there are too few.
def slice (n : Nat) : Decoder (List UInt32) := fun r =>
  if n ≤ r.rest.length then
    .ok (r.rest.take n) { r with consumed := r.consumed + n, rest := r.rest.drop n }
  else
    .error ⟨r.position, .endOfStream⟩ r

def expectEnd : Decoder Unit := fun r =>
  if r.isAtEnd then .ok () r
  else .error ⟨r.position, .lengthMismatch r.windowLength r.consumed⟩ r

-- Takes extension words up to the first one whose top bit is clear, and folds them.
def extensions (step : σ → UInt32 → Except DecodeError σ) (init : σ) : Decoder σ := fun r =>
  go r.rest r init
where
  go : List UInt32 → Reader → σ → EStateM.Result DecodeError Reader σ
    | [], r, _ => .error ⟨r.position, .endOfStream⟩ r
    | w :: ws, r, s =>
      let r := { r with consumed := r.consumed + 1, rest := ws }
      match step s w with
      | .error e => .error e r
      | .ok s => if Word.bit w 31 then go ws r s else .ok s r

def push (op : Operand) : Decoder OperandId := fun r =>
  .ok r.operands.size { r with operands := r.operands.push op }

end Decoder

end ShaderLift
