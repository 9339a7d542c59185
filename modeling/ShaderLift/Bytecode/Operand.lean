import ShaderLift.Word
import ShaderLift.Bytecode.Register

/-!
Operands: which register they name, which of its components they select, and how they are indexed.
All operands of a program stand in one arena and refer to each other by their position in it.
-/

namespace ShaderLift

inductive ComponentCount where
  | zero
  | one
  | four
  deriving DecidableEq, Repr

def ComponentCount.toNat : ComponentCount → Nat
  | zero => 0
  | one => 1
  | four => 4

-- A set of components; bit `i` stands for component `i`.
structure WriteMask where
  bits : UInt8
  deriving DecidableEq, Repr

namespace WriteMask

def none : WriteMask := ⟨0⟩
def x : WriteMask := ⟨1⟩
def xyzw : WriteMask := ⟨15⟩

def contains (m : WriteMask) (component : Nat) : Bool :=
  component < 4 && m.bits.toNat.testBit component

def components (m : WriteMask) : List Nat :=
  [0, 1, 2, 3].filter m.contains

theorem mem_components {m : WriteMask} {c : Nat} : c ∈ m.components ↔ m.contains c := by
  simp only [components, List.mem_filter, contains, Bool.and_eq_true, decide_eq_true_eq,
    List.mem_cons, List.not_mem_nil, or_false]
  exact ⟨And.right, fun h => ⟨by omega, h⟩⟩

def count (m : WriteMask) : Nat :=
  m.components.length

def isEmpty (m : WriteMask) : Bool :=
  m.components.isEmpty

def union (a b : WriteMask) : WriteMask :=
  ⟨a.bits ||| b.bits⟩

end WriteMask

inductive Selection where
  -- Operands that do not have four components pick none.
  | nothing
  | mask (mask : WriteMask)
  | swizzle (lanes : Quad Nat)
  | select (component : Nat)
  deriving DecidableEq, Repr

namespace Selection

-- The component that lane `i` reads. A mask lists its components in ascending order.
def component (s : Selection) (i : Nat) : Nat :=
  match s with
  | nothing => 0
  | mask m => m.components[i]?.getD (i % 4)
  | swizzle lanes => lanes.get i
  | select c => c

def writeMask : Selection → WriteMask
  | mask m => m
  | select c => ⟨1 <<< UInt8.ofNat c⟩
  | swizzle _ | nothing => .xyzw

end Selection

inductive Modifier where
  | plain
  | neg
  | abs
  | absNeg
  deriving DecidableEq, Repr

abbrev OperandId := Nat

inductive Index where
  | imm (n : UInt32)
  | wide (n : UInt64)
  | relative (id : OperandId)
  | immRelative (n : UInt32) (id : OperandId)
  | wideRelative (n : UInt64) (id : OperandId)
  deriving DecidableEq, Repr

namespace Index

def static? : Index → Option UInt32
  | imm n => some n
  | _ => none

def relative? : Index → Option OperandId
  | relative id | immRelative _ id | wideRelative _ id => some id
  | imm _ | wide _ => none

def isSimple : Index → Bool
  | imm n => n.toNat < 0x80000000
  | _ => false

def isWide : Index → Bool
  | wide _ | wideRelative _ _ => true
  | _ => false

end Index

-- The value of an immediate operand, as words or as 64-bit values. Only the first `count` lanes
-- are given.
inductive Immediate where
  | words (lanes : Quad UInt32) (count : Nat)
  | longs (xy zw : UInt64) (count : Nat)
  deriving DecidableEq, Repr

structure Operand where
  register     : RegisterKind
  components   : ComponentCount := .four
  selection    : Selection := .nothing
  indices      : List Index := []
  modifier     : Modifier := .plain
  nonUniform   : Bool := false
  minPrecision : Nat := 0
  immediate    : Option Immediate := none
  deriving DecidableEq, Repr

namespace Operand

def component (op : Operand) (i : Nat) : Nat :=
  op.selection.component i

def slot? (op : Operand) : Option UInt32 :=
  op.indices.head?.bind Index.static?

-- The last index, if it is a plain number: the register within its file.
def lastIndex? (op : Operand) : Option UInt32 :=
  op.indices.getLast?.bind Index.static?

def writeMask (op : Operand) : WriteMask :=
  match op.components with
  | .zero => .none
  | .one => .x
  | .four => op.selection.writeMask

end Operand

abbrev Arena := Array Operand

end ShaderLift
