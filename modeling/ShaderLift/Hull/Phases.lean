import ShaderLift.Program
import ShaderLift.LiftError

/-!
The phases of a hull shader. A marker instruction opens a phase, which owns the declarations and
instructions up to the next marker; what stands before the first marker is shared.
-/

namespace ShaderLift

inductive PhaseKind where
  | controlPoint
  | fork
  | join
  deriving DecidableEq, Repr

def Opcode.phaseKind? : Opcode → Option PhaseKind
  | hsControlPointPhase => some .controlPoint
  | hsForkPhase => some .fork
  | hsJoinPhase => some .join
  | _ => none

structure Phase where
  kind         : PhaseKind
  start        : Nat
  stop         : Nat
  -- Positions in the declarations of the program.
  declarations : List Nat
  instances    : UInt32
  deriving DecidableEq, Repr

structure Phases where
  -- Positions of the declarations before the first marker.
  shared       : List Nat
  controlPoint : Option Phase
  forks        : List Phase
  joins        : List Phase
  deriving DecidableEq, Repr

namespace Phases

def toList (ps : Phases) : List Phase :=
  ps.controlPoint.toList ++ ps.forks ++ ps.joins

def markers (insts : List Instruction) : List (Nat × PhaseKind) :=
  insts.zipIdx.filterMap fun (inst, i) => inst.opcode.phaseKind?.map (i, ·)

def declarationsAt (p : Program) (before : Nat → Bool) : List Nat :=
  p.declarations.zipIdx.filterMap fun (d, i) => if before d.instructionsBefore then some i else none

def instanceCount (p : Program) (declarations : List Nat) : UInt32 :=
  (declarations.findSome? fun i =>
    match p.declarations[i]?.map Declaration.declared with
    | some (Declared.hsForkPhaseInstanceCount n)
    | some (Declared.hsJoinPhaseInstanceCount n) => some n
    | _ => none).getD 1

def phase (p : Program) (kind : PhaseKind) (marker stop : Nat) : Phase :=
  let declarations := declarationsAt p fun before => marker < before && before ≤ stop
  { kind, declarations, stop
    start := marker + 1
    instances := instanceCount p declarations }

def ofMarkers (p : Program) : List (Nat × PhaseKind) → List Phase
  | [] => []
  | [(marker, kind)] => [phase p kind marker p.instructions.length]
  | (marker, kind) :: (next, kind') :: rest =>
    phase p kind marker next :: ofMarkers p ((next, kind') :: rest)

-- Splits a program into its phases. One without markers is a single control-point phase.
def split (p : Program) : Except LiftError Phases :=
  match markers p.instructions with
  | [] =>
    return {
      shared := List.range p.declarations.length
      controlPoint := some ⟨.controlPoint, 0, p.instructions.length, [], 1⟩
      forks := []
      joins := [] }
  | (first, kind) :: rest => do
    let leading := p.instructions.zipIdx.take first
    if let some (inst, i) := leading.find? fun (inst, _) => inst.opcode ≠ .nop then
      throw (.unsupported i inst.opcode .outsidePhase)
    let phases := ofMarkers p ((first, kind) :: rest)
    let ofKind (kind : PhaseKind) := phases.filter (·.kind = kind)
    if let _ :: second :: _ := ofKind .controlPoint then
      throw (.unsupported (second.start - 1) .hsControlPointPhase .secondControlPointPhase)
    return {
      shared := declarationsAt p (· ≤ first)
      controlPoint := (ofKind .controlPoint).head?
      forks := ofKind .fork
      joins := ofKind .join }

end Phases

end ShaderLift
