import ShaderLift.DecodeError

/-!
Checked reads in a stretch of bytes. Numbers are stored with their lowest byte first.
-/

namespace ShaderLift

structure Window where
  base  : Nat
  bytes : List UInt8
  deriving DecidableEq, Repr

namespace Window

def fail (w : Window) (start : Nat) (fault : ContainerFault) : Except DecodeError α :=
  .error ⟨w.base + start, .container fault⟩

def cut? (w : Window) (start length : Nat) : Option (List UInt8) :=
  if start + length ≤ w.bytes.length then some ((w.bytes.drop start).take length) else none

theorem length_cut? {w : Window} {start length : Nat} {bytes : List UInt8}
    (h : w.cut? start length = some bytes) : bytes.length = length := by
  unfold cut? at h
  split at h
  case isTrue fits =>
    rw [← Option.some.inj h, List.length_take, List.length_drop]
    omega
  case isFalse => nomatch h

def byte (w : Window) (start : Nat) (what : String) : Except DecodeError UInt8 :=
  match w.cut? start 1 with
  | some [a] => .ok a
  | _ => w.fail start (.pastEnd what)

def half (w : Window) (start : Nat) (what : String) : Except DecodeError UInt32 :=
  match w.cut? start 2 with
  | some [a, b] => .ok (Word.ofBytes a b 0 0)
  | _ => w.fail start (.pastEnd what)

def word (w : Window) (start : Nat) (what : String) : Except DecodeError UInt32 :=
  match w.cut? start 4 with
  | some [a, b, c, d] => .ok (Word.ofBytes a b c d)
  | _ => w.fail start (.pastEnd what)

def number (w : Window) (start : Nat) (what : String) : Except DecodeError Nat :=
  UInt32.toNat <$> w.word start what

-- The text from `start` up to the next zero byte.
def text (w : Window) (start : Nat) (what : String) : Except DecodeError String :=
  if w.bytes.length < start then
    w.fail start (.textOutside what)
  else
    match (w.bytes.drop start).span (· ≠ 0) with
    | (_, []) => w.fail start (.unterminated what)
    | (bytes, _ :: _) =>
      match String.fromUTF8? ⟨bytes.toArray⟩ with
      | some text => .ok text
      | none => w.fail start (.notUtf8 what)

def textAt (w : Window) (start : Nat) (what : String) : Except DecodeError String := do
  w.text (← w.number start (what ++ " offset")) what

-- The starts of `count` records of `size` bytes each, if all of them lie in the window.
def table (w : Window) (start count size : Nat) (what : String) : Except DecodeError (List Nat) :=
  let stop := start + count * size
  if stop ≤ w.bytes.length then .ok ((List.range count).map fun i => start + i * size)
  else w.fail start (.tableOverrun what stop w.bytes.length)

end Window

end ShaderLift
