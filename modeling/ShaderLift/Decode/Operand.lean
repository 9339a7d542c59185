import ShaderLift.Decode.Reader

/-!
Reading operands. An operand is a token, extension words, an index for each dimension and, for
immediates, values. An index may itself hold an operand, which is pushed before the one that uses
it.
-/

namespace ShaderLift

structure OperandToken where
  components : ComponentCount
  selection  : Selection
  register   : RegisterKind
  forms      : List Nat
  isExtended : Bool
  deriving DecidableEq, Repr

namespace OperandToken

def readComponents (token : UInt32) : Except OperandFault ComponentCount :=
  match Word.bits token 0 2 with
  | 0 => return .zero
  | 1 => return .one
  | 2 => return .four
  | _ => throw .componentCount

def readSelection (token : UInt32) : ComponentCount → Except OperandFault Selection
  | .four =>
    match Word.bits token 2 2 with
    | 0 => return .mask ⟨.ofNat (Word.bits token 4 4)⟩
    | 1 =>
      return .swizzle ⟨Word.bits token 4 2, Word.bits token 6 2, Word.bits token 8 2,
        Word.bits token 10 2⟩
    | 2 => return .select (Word.bits token 4 2)
    | mode => throw (.selectionMode mode)
  | .zero | .one => return .nothing

def readRegister (token : UInt32) : Except OperandFault RegisterKind :=
  let raw := Word.bits token 12 8
  match RegisterKind.ofRaw? raw with
  | some kind => return kind
  | none => throw (.registerKind raw)

def read (token : UInt32) : Except OperandFault OperandToken := do
  let components ← readComponents token
  let selection ← readSelection token components
  let register ← readRegister token
  let dimensions := Word.bits token 20 2
  return {
    components, selection, register
    forms := ([22, 25, 28].take dimensions).map (Word.bits token · 3)
    isExtended := Word.bit token 31 }

end OperandToken

structure OperandExtension where
  modifier     : Modifier := .plain
  minPrecision : Nat := 0
  nonUniform   : Bool := false
  deriving DecidableEq, Repr

def OperandExtension.add (e : OperandExtension) (word : UInt32) :
    Except OperandFault OperandExtension :=
  let full (modifier : Modifier) : OperandExtension :=
    { modifier, minPrecision := Word.bits word 14 3, nonUniform := Word.bit word 17 }
  match Word.bits word 0 6 with
  | 0 => return e
  | 1 =>
    match Word.bits word 6 8 with
    | 0 => return full .plain
    | 1 => return full .neg
    | 2 => return full .abs
    | 3 => return full .absNeg
    | raw => throw (.modifier raw)
  | raw => throw (.extension raw)

namespace Decoder

def operandFault (start : Nat) : Except OperandFault α → Except DecodeError α
  | .ok a => .ok a
  | .error fault => .error ⟨start, .operand fault⟩

def index (nested : Decoder OperandId) (start form : Nat) : Decoder Index :=
  match form with
  | 0 => return .imm (← word)
  | 1 => return .wide (← long)
  | 2 => return .relative (← nested)
  | 3 => return .immRelative (← word) (← nested)
  | 4 => return .wideRelative (← long) (← nested)
  | form => throw ⟨start, .operand (.indexForm form)⟩

def indices (nested : Decoder OperandId) (start : Nat) : List Nat → Decoder (List Index)
  | [] => return []
  | form :: forms => return (← index nested start form) :: (← indices nested start forms)

def immediate (start : Nat) (token : OperandToken) : Decoder (Option Immediate) :=
  match token.register, token.components with
  | .immediate32, .zero | .immediate64, .zero => throw ⟨start, .operand .emptyImmediate⟩
  | .immediate32, count => return some (.words (.ofList 0 (← words count.toNat)) count.toNat)
  | .immediate64, .one => do
    let values ← longs 1
    return some (.longs (values[0]?.getD 0) 0 1)
  | .immediate64, .four => do
    let values ← longs 2
    return some (.longs (values[0]?.getD 0) (values[1]?.getD 0) 2)
  | _, _ => return none

def operandWith (nested : Decoder OperandId) : Decoder OperandId := do
  let start ← position
  let word ← word
  let token ← liftExcept (operandFault start (OperandToken.read word))
  let extension ←
    if token.isExtended then
      extensions (fun e word => operandFault start (e.add word)) ({} : OperandExtension)
    else
      pure {}
  let indices ← indices nested start token.forms
  let immediate ← immediate start token
  push {
    register := token.register
    components := token.components
    selection := token.selection
    indices
    modifier := extension.modifier
    nonUniform := extension.nonUniform
    minPrecision := extension.minPrecision
    immediate }
where
  liftExcept {α : Type} : Except DecodeError α → Decoder α
    | .ok a => return a
    | .error e => throw e

-- Reads an operand from a window with at most `bound` words left. Each operand takes a word before
-- it looks for another one inside, so a bound of zero means that the window is used up.
def operandWithin : (bound : Nat) → Decoder OperandId
  | 0 => fun r => .error ⟨r.position, .endOfStream⟩ r
  | bound + 1 => operandWith (operandWithin bound)

-- Reads an operand and pushes it, after all operands inside it, to the arena.
def operand : Decoder OperandId := fun r =>
  operandWithin r.rest.length r

end Decoder

end ShaderLift
