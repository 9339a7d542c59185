/-!
Words of a token stream: bit fields, little-endian bytes, and the digits of their text.
-/

namespace ShaderLift

namespace Word

def bits (word : UInt32) (offset width : Nat) : Nat :=
  (word.toNat >>> offset) % (1 <<< width)

theorem bits_lt (word : UInt32) (offset width : Nat) : bits word offset width < 1 <<< width :=
  Nat.mod_lt _ (Nat.one_shiftLeft width ▸ Nat.two_pow_pos width)

def bit (word : UInt32) (offset : Nat) : Bool :=
  word.toNat.testBit offset

def ofBytes (a b c d : UInt8) : UInt32 :=
  .ofNat (a.toNat + 0x100 * b.toNat + 0x10000 * c.toNat + 0x1000000 * d.toNat)

def bytes (word : UInt32) : List UInt8 :=
  [0, 8, 16, 24].map (.ofNat <| bits word · 8)

theorem length_bytes (word : UInt32) : (bytes word).length = 4 := rfl

-- The words stored in a byte string. Up to three bytes at the end that fill no word are left out.
def ofByteList : List UInt8 → List UInt32
  | a :: b :: c :: d :: rest => ofBytes a b c d :: ofByteList rest
  | _ => []

def signed (word : UInt32) : Int :=
  if word.toNat < 0x80000000 then word.toNat else (word.toNat : Int) - 0x100000000

def join (high low : UInt32) : UInt64 :=
  .ofNat (high.toNat * UInt32.size + low.toNat)

def low (value : UInt64) : UInt32 :=
  .ofNat value.toNat

def high (value : UInt64) : UInt32 :=
  .ofNat (value.toNat / UInt32.size)

end Word

def hexDigits (width n : Nat) : String :=
  let digits := Nat.toDigits 16 n
  .ofList (List.replicate (width - digits.length) '0' ++ digits)

def hexText (n : Nat) : String :=
  "0x" ++ hexDigits 1 n

def decimal (n : UInt32) : String :=
  toString n.toNat

def joinWith (separator : String) : List String → String
  | [] => ""
  | [item] => item
  | item :: items => item ++ separator ++ joinWith separator items

structure Quad (α : Type) where
  x : α
  y : α
  z : α
  w : α
  deriving DecidableEq, Repr

namespace Quad

def toList (q : Quad α) : List α :=
  [q.x, q.y, q.z, q.w]

def ofList (rest : α) (l : List α) : Quad α :=
  ⟨l[0]?.getD rest, l[1]?.getD rest, l[2]?.getD rest, l[3]?.getD rest⟩

-- The component that a lane number names; only its two low bits count.
def get (q : Quad α) (lane : Nat) : α :=
  match lane % 4 with
  | 0 => q.x
  | 1 => q.y
  | 2 => q.z
  | _ => q.w

end Quad

structure Triple (α : Type) where
  x : α
  y : α
  z : α
  deriving DecidableEq, Repr

def Triple.toList (t : Triple α) : List α :=
  [t.x, t.y, t.z]

end ShaderLift
