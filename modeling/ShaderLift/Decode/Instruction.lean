import ShaderLift.Decode.Operand
import ShaderLift.Bytecode.Instruction

/-!
Reading instructions: fields of the opcode token, extension words, and operands up to the end of the
instruction's window.
-/

namespace ShaderLift

def signedNibble (n : Nat) : Int :=
  if n < 8 then n else (n : Int) - 16

-- Takes in one extension word of an opcode. Kinds that carry no sampling controls say nothing.
def SampleControls.add (c : SampleControls) (word : UInt32) : SampleControls :=
  match Word.bits word 0 6 with
  | 1 =>
    let offset (shift : Nat) := signedNibble (Word.bits word shift 4)
    { c with offsets := some ⟨offset 9, offset 13, offset 17⟩ }
  | 2 =>
    let stride := Word.bits word 11 12
    { c with
      dimension := ResourceDimension.ofRaw? (Word.bits word 6 5)
      structureStride := if stride = 0 then none else some stride }
  | 3 =>
    let lane (shift : Nat) := (ReturnType.ofRaw? (Word.bits word shift 4)).getD .float
    { c with returnType := some ⟨lane 6, lane 10, lane 14, lane 18⟩ }
  | _ => c

namespace Decoder

def sampleControls (token : UInt32) : Decoder SampleControls :=
  if Word.bit token 31 then extensions (fun c word => .ok (c.add word)) {} else pure {}

def controls (start : Nat) (op : Opcode) (token : UInt32) (sample : SampleControls) :
    Decoder Controls :=
  let saturate := Word.bit token 13
  match op.kind with
  | .alu => return .alu saturate (Word.bits token 19 4)
  | .conditional => return .conditional (if Word.bit token 18 then .nonZero else .zero)
  | .sample => return .sample { sample with saturate }
  | .resInfo =>
    let raw := Word.bits token 11 2
    match SizeFormat.ofRaw? raw with
    | some format => return .resInfo format saturate
    | none => throw ⟨start, .operand (.sizeFormat raw)⟩
  | .sampleInfo => return .sampleInfo (Word.bit token 11) saturate
  | .sync => return .sync (.ofBits (Word.bits token 11 4))
  | .interfaceCall => return .interfaceCall (← word)
  | .flow => return .flow
  | .phaseMarker => return .phaseMarker
  | .declaration => throw ⟨start, .declaration (.notInstruction op)⟩

-- Reads the operands of an instruction up to the end of a window of at most `bound` words, after
-- `count` others. One that is over the limit is read before it is refused.
def operandsWithin (start : Nat) : (bound count : Nat) → Decoder (List OperandId)
  | 0, _ => return []
  | bound + 1, count => do
    if (← get).isAtEnd then
      return []
    let id ← operand
    if count ≥ Instruction.maxOperands then
      throw ⟨start, .tooManyOperands Instruction.maxOperands⟩
    return id :: (← operandsWithin start bound (count + 1))

def instruction (start : Nat) (op : Opcode) (token : UInt32) : Decoder Instruction := do
  let sample ← sampleControls token
  let controls ← controls start op token sample
  let operands ← operandsWithin start (← get).rest.length 0
  if let some expected := op.operandCount then
    if operands.length ≠ expected then
      throw ⟨start, .operand (.operandCount op expected operands.length)⟩
  return { opcode := op, controls, operands, position := start }

end Decoder

end ShaderLift
