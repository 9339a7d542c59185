import ShaderLift.Bytecode.Opcode
import ShaderLift.Bytecode.Operand
import ShaderLift.Bytecode.Resource

/-!
Instructions: an opcode, the fields that its class of opcodes has, and operands.
-/

namespace ShaderLift

inductive Test where
  | zero
  | nonZero
  deriving DecidableEq, Repr

structure SampleControls where
  saturate        : Bool := false
  offsets         : Option (Triple Int) := none
  dimension       : Option ResourceDimension := none
  structureStride : Option Nat := none
  returnType      : Option (Quad ReturnType) := none
  deriving DecidableEq, Repr

structure SyncFlags where
  threadsInGroup : Bool
  sharedMemory   : Bool
  uavGroup       : Bool
  uavGlobal      : Bool
  deriving DecidableEq, Repr

namespace SyncFlags

def ofBits (bits : Nat) : SyncFlags :=
  ⟨bits.testBit 0, bits.testBit 1, bits.testBit 2, bits.testBit 3⟩

def bits (f : SyncFlags) : Nat :=
  f.threadsInGroup.toNat + 2 * f.sharedMemory.toNat + 4 * f.uavGroup.toNat + 8 * f.uavGlobal.toNat

theorem ofBits_bits (f : SyncFlags) : ofBits f.bits = f := by
  obtain ⟨a, b, c, d⟩ := f
  cases a <;> cases b <;> cases c <;> cases d <;> rfl

end SyncFlags

inductive Controls where
  | alu (saturate : Bool) (preciseMask : Nat)
  | conditional (test : Test)
  | sample (controls : SampleControls)
  | resInfo (format : SizeFormat) (saturate : Bool)
  | sampleInfo (uintResult : Bool) (saturate : Bool)
  | sync (flags : SyncFlags)
  | interfaceCall (functionIndex : UInt32)
  | flow
  | phaseMarker
  deriving DecidableEq, Repr

namespace Controls

def saturate : Controls → Bool
  | alu s _ | resInfo _ s | sampleInfo _ s => s
  | sample c => c.saturate
  | _ => false

def test? : Controls → Option Test
  | conditional t => some t
  | _ => none

def kind : Controls → OpcodeClass
  | alu _ _ => .alu
  | conditional _ => .conditional
  | sample _ => .sample
  | resInfo _ _ => .resInfo
  | sampleInfo _ _ => .sampleInfo
  | sync _ => .sync
  | interfaceCall _ => .interfaceCall
  | flow => .flow
  | phaseMarker => .phaseMarker

end Controls

structure Instruction where
  opcode   : Opcode
  controls : Controls
  operands : List OperandId := []
  position : Nat
  deriving DecidableEq, Repr

def Instruction.maxOperands : Nat := 6

end ShaderLift
