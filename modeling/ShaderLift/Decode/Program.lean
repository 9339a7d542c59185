import ShaderLift.Decode.Declaration
import ShaderLift.Program

/-!
Reading whole programs: a version word, a length word, then frames. A frame is an opcode token with
the words that belong to it; each is cut from the stream first and read second.
-/

namespace ShaderLift

structure Frame where
  position : Nat
  opcode   : Opcode
  token    : UInt32
  words    : List UInt32
  deriving DecidableEq, Repr

namespace Frame

def length (f : Frame) : Nat :=
  f.words.length + 1

-- Cuts the frame at the front of a stream. A data block gives its length in its second word, and
-- every other frame in bits 24 to 30 of its token.
def cut (position : Nat) (token : UInt32) (rest : List UInt32) : Except DecodeError Frame :=
  let available := rest.length + 1
  match Opcode.ofRaw? (Word.bits token 0 11) with
  | none => throw ⟨position, .unknownOpcode (Word.bits token 0 11)⟩
  | some .customData =>
    match rest with
    | [] => throw ⟨position + 1, .endOfStream⟩
    | length :: _ =>
      let length := length.toNat
      if length < 2 ∨ length > available then
        throw ⟨position, .lengthMismatch length available⟩
      else
        return ⟨position, .customData, token, rest.take (length - 1)⟩
  | some op =>
    let length := Word.bits token 24 7
    if length = 0 ∨ length > available then
      throw ⟨position, .lengthMismatch length (min available (max length 1))⟩
    else
      return ⟨position, op, token, rest.take (length - 1)⟩

end Frame

inductive Element where
  | declaration (declared : Declared) (position : Nat)
  | instruction (inst : Instruction)
  | skipped
  deriving DecidableEq, Repr

namespace Element

def instruction? : Element → Option Instruction
  | instruction inst => some inst
  | _ => none

def declarations (before : Nat) : List Element → List Declaration
  | [] => []
  | declaration declared position :: es => ⟨declared, position, before⟩ :: declarations before es
  | instruction _ :: es => declarations (before + 1) es
  | skipped :: es => declarations before es

end Element

namespace Frame

-- Reads a data block. Those of class 3 are the immediate constant buffer.
def readData (f : Frame) : Element :=
  if f.token >>> 11 = 3 then
    .declaration (.immediateConstantBuffer ((f.words.drop 1).flatMap Word.bytes)) f.position
  else
    .skipped

def readBody (stage : Stage) (f : Frame) : Decoder Element :=
  if f.opcode.isDeclaration then
    return .declaration (← Decoder.declaration stage f.position f.opcode f.token) f.position
  else
    return .instruction (← Decoder.instruction f.position f.opcode f.token)

-- Reads a frame and pushes its operands to the arena. A frame that is too short for what it
-- announces has the wrong length, and so has one with words left over.
def read (stage : Stage) (f : Frame) (arena : Arena) : Except DecodeError (Element × Arena) :=
  if f.opcode = .customData then
    .ok (f.readData, arena)
  else
    match f.readBody stage
        { base := f.position, consumed := 1, rest := f.words, operands := arena } with
    | .error ⟨_, .endOfStream⟩ _ => .error ⟨f.position, .lengthMismatch f.length (f.length + 1)⟩
    | .error e _ => .error e
    | .ok element r =>
      match Decoder.expectEnd r with
      | .error e _ => .error e
      | .ok _ r => .ok (element, r.operands)

end Frame

def readFrames (stage : Stage) :
    (bound position : Nat) → List UInt32 → Arena → Except DecodeError (List Element × Arena)
  | _, _, [], arena => return ([], arena)
  | 0, _, _ :: _, arena => return ([], arena)
  | bound + 1, position, token :: rest, arena => do
    let frame ← Frame.cut position token rest
    let (element, arena) ← frame.read stage arena
    let (elements, arena) ←
      readFrames stage bound (position + frame.length) (rest.drop frame.words.length) arena
    return (element :: elements, arena)

-- Reads a program. Words past the length that it declares are ignored.
def Program.decode (tokens : List UInt32) : Except DecodeError Program :=
  match tokens with
  | version :: length :: rest => do
    let some (stage, model) := readVersion version | throw ⟨0, .header .programType⟩
    let length := length.toNat
    if length < 2 then
      throw ⟨1, .header .declaredLength⟩
    if length > tokens.length then
      throw ⟨1, .lengthMismatch length tokens.length⟩
    let body := rest.take (length - 2)
    let (elements, operands) ← readFrames stage body.length 2 body #[]
    return {
      stage, model, operands
      declarations := Element.declarations 0 elements
      instructions := elements.filterMap Element.instruction? }
  | _ => throw ⟨0, .header .missingTokens⟩

end ShaderLift
