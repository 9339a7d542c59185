import ShaderLift.Bytecode.Instruction

/-!
The block structure of an instruction list: which instructions open, divide and close the same
block, and where the main function and the subroutines lie.
-/

namespace ShaderLift

inductive FlowCause where
  | unmatchedClose (op : Opcode)
  | unterminated (op : Opcode)
  | misplacedBranch (op : Opcode)
  | unknownLabel (label : UInt32)
  | duplicateLabel (label : UInt32)
  | labelInsideBlock
  | danglingOperand (id : OperandId)
  deriving DecidableEq, Repr

def FlowCause.message : FlowCause → String
  | unmatchedClose op => s!"`{op.mnemonic}` has no matching opener"
  | unterminated op => s!"`{op.mnemonic}` is never closed"
  | misplacedBranch op => s!"`{op.mnemonic}` outside of a loop or switch"
  | unknownLabel label => s!"call to undefined label l{decimal label}"
  | duplicateLabel label => s!"label l{decimal label} is defined twice"
  | labelInsideBlock => "label inside an open flow-control block"
  | danglingOperand id => s!"operand {id} does not exist"

structure FlowError where
  index : Nat
  cause : FlowCause
  deriving DecidableEq, Repr

def FlowError.message (e : FlowError) : String :=
  s!"instruction {e.index}: " ++ e.cause.message

structure Subroutine where
  label : UInt32
  start : Nat
  stop  : Nat
  deriving DecidableEq, Repr

structure Flow where
  -- For each instruction the next one of the same block: an `if` leads to its `else` or `endif`, a
  -- `switch` through its cases to its `endswitch`, a `loop` to its `endloop`. A closing
  -- instruction leads back to the opening one.
  links       : List (Option Nat)
  subroutines : List Subroutine
  mainEnd     : Nat
  mainReturns : Bool
  deriving DecidableEq, Repr

namespace Flow

def link? (flow : Flow) (i : Nat) : Option Nat :=
  flow.links[i]?.join

def subroutine? (flow : Flow) (label : UInt32) : Option Subroutine :=
  flow.subroutines.find? (·.label == label)

inductive BlockKind where
  | conditional
  | loop
  | choice
  deriving DecidableEq, Repr

structure OpenBlock where
  kind    : BlockKind
  opcode  : Opcode
  opener  : Nat
  -- The instruction of the block that waits for the next one.
  last    : Nat
  hasElse : Bool := false
  deriving DecidableEq, Repr

structure Scan where
  -- Open blocks, innermost first.
  stack       : List OpenBlock := []
  links       : List (Nat × Nat) := []
  done        : List Subroutine := []
  current     : Option (UInt32 × Nat) := none
  mainEnd     : Option Nat := none
  mainReturns : Bool := false
  calls       : List (Nat × UInt32) := []
  deriving DecidableEq, Repr

def labelOf (arena : Arena) (i : Nat) (inst : Instruction) (slot : Nat) :
    Except FlowError (Option UInt32) :=
  match inst.operands[slot]? with
  | none => .ok none
  | some id =>
    match arena[id]? with
    | none => .error ⟨i, .danglingOperand id⟩
    | some op => .ok (if op.register = .label then op.slot? else none)

-- A label that does not name one counts as this.
def noLabel : UInt32 := 0xffffffff

namespace Scan

def isOpen (s : Scan) (kinds : List BlockKind) : Bool :=
  s.stack.any (kinds.contains ·.kind)

def hasLabel (s : Scan) (label : UInt32) : Bool :=
  s.done.any (·.label == label) || s.current.any (·.1 == label)

def openBlock (s : Scan) (kind : BlockKind) (op : Opcode) (i : Nat) : Scan :=
  { s with stack := { kind, opcode := op, opener := i, last := i } :: s.stack }

def endSubroutine (s : Scan) (i : Nat) : Scan :=
  match s.current with
  | none => s
  | some (label, start) => { s with done := s.done ++ [⟨label, start, i⟩], current := none }

def expectClosed (s : Scan) : Except FlowError Unit :=
  match s.stack with
  | [] => .ok ()
  | block :: _ => .error ⟨block.opener, .unterminated block.opcode⟩

def divide (s : Scan) (i : Nat) (op : Opcode) (fits : OpenBlock → Bool) : Except FlowError Scan :=
  match s.stack with
  | block :: rest =>
    if fits block then
      .ok { s with
        stack := { block with last := i, hasElse := block.hasElse || op == .orElse } :: rest
        links := (block.last, i) :: s.links }
    else
      .error ⟨i, .misplacedBranch op⟩
  | [] => .error ⟨i, .misplacedBranch op⟩

def close (s : Scan) (i : Nat) (op : Opcode) (kind : BlockKind) : Except FlowError Scan :=
  match s.stack with
  | block :: rest =>
    if block.kind = kind then
      .ok { s with stack := rest, links := (i, block.opener) :: (block.last, i) :: s.links }
    else
      .error ⟨i, .unmatchedClose op⟩
  | [] => .error ⟨i, .unmatchedClose op⟩

def branch (s : Scan) (i : Nat) (op : Opcode) (kinds : List BlockKind) : Except FlowError Scan :=
  if s.isOpen kinds then .ok s else .error ⟨i, .misplacedBranch op⟩

def label (s : Scan) (i : Nat) (label : UInt32) : Except FlowError Scan :=
  if s.hasLabel label then
    .error ⟨i, .duplicateLabel label⟩
  else
    let s := s.endSubroutine i
    .ok { s with current := some (label, i), mainEnd := s.mainEnd.or (some i) }

def ret (s : Scan) (i : Nat) : Scan :=
  if ¬ s.stack.isEmpty then
    s
  else if s.current.isSome then
    s.endSubroutine i
  else if s.mainEnd.isNone then
    { s with mainEnd := some i, mainReturns := true }
  else
    s

def call (s : Scan) (i : Nat) : Option UInt32 → Scan
  | some label => { s with calls := s.calls ++ [(i, label)] }
  | none => s

def step (arena : Arena) (s : Scan) (i : Nat) (inst : Instruction) : Except FlowError Scan :=
  let op := inst.opcode
  match op with
  | .beginIf => .ok (s.openBlock .conditional op i)
  | .beginLoop => .ok (s.openBlock .loop op i)
  | .beginSwitch => .ok (s.openBlock .choice op i)
  | .orElse => s.divide i op fun block => block.kind == .conditional && !block.hasElse
  | .caseLabel | .defaultLabel => s.divide i op (·.kind == .choice)
  | .endIf => s.close i op .conditional
  | .endLoop => s.close i op .loop
  | .endSwitch => s.close i op .choice
  | .breakOut | .breakIf => s.branch i op [.loop, .choice]
  | .continueLoop | .continueIf => s.branch i op [.loop]
  | .label =>
    if s.stack.isEmpty then do s.label i ((← labelOf arena i inst 0).getD noLabel)
    else .error ⟨i, .labelInsideBlock⟩
  | .ret => .ok (s.ret i)
  | .call => s.call i <$> labelOf arena i inst 0
  | .callIf => s.call i <$> labelOf arena i inst 1
  | _ => if op.kind = .phaseMarker then (fun _ => s) <$> s.expectClosed else .ok s

def run (arena : Arena) (s : Scan) (i : Nat) : List Instruction → Except FlowError Scan
  | [] => .ok s
  | inst :: insts => do (← s.step arena i inst).run arena (i + 1) insts

end Scan

def ofInstructions (insts : List Instruction) (arena : Arena) : Except FlowError Flow := do
  let n := insts.length
  let s ← Scan.run arena {} 0 insts
  s.expectClosed
  let s := s.endSubroutine n
  match s.calls.find? (fun call => !s.hasLabel call.2) with
  | some (i, label) => throw ⟨i, .unknownLabel label⟩
  | none =>
    return {
      links := (List.range n).map fun i => List.lookup i s.links
      subroutines := s.done
      mainEnd := s.mainEnd.getD n
      mainReturns := s.mainReturns }

end Flow

end ShaderLift
