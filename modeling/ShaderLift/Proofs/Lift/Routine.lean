import Mathlib
import ShaderLift.Lift.Body

/-!
Which of the lifting functions takes an instruction, by its opcode.
-/

namespace ShaderLift

open Glsl

inductive Comparison
  | equal
  | notEqual
  | less
  | greaterEqual

namespace Comparison

-- The function that compares vectors.
def function : Comparison → String
  | equal => "equal"
  | notEqual => "notEqual"
  | less => "lessThan"
  | greaterEqual => "greaterThanEqual"

-- The operator that compares scalars.
def operator : Comparison → BinaryOp
  | equal => .eq
  | notEqual => .ne
  | less => .lt
  | greaterEqual => .ge

end Comparison

inductive Routine
  | sample (texture sampler : Nat) (shadow : Bool)
  | loadTexel
  | queryLod
  | sizeInfo
  | bufferInfo
  | loadBuffer
  | storeBuffer
  | loadImage
  | storeImage
  | counter
  | atomic
  | mov
  | movc
  | swapc
  | dot (k : Nat)
  | evaluate
  | doubleResult
  | twoResults (types : AluTypes)
  | compare (types : AluTypes) (comparison : Comparison)
  | perLane (types : AluTypes)
  | fromDouble (types : AluTypes)
  | elementwise (types : AluTypes)
  | unsupported (reason : Unsupported)

def Opcode.routine : Opcode → Routine
  | .sample | .sampleB | .sampleL | .sampleD | .gather4 => .sample 2 3 false
  | .sampleC | .sampleCLz | .gather4C => .sample 2 3 true
  | .gather4Po => .sample 3 4 false
  | .gather4PoC => .sample 3 4 true
  | .ld | .ldMs => .loadTexel
  | .lod => .queryLod
  | .resInfo => .sizeInfo
  | .bufInfo => .bufferInfo
  | .ldRaw | .ldStructured => .loadBuffer
  | .storeRaw | .storeStructured => .storeBuffer
  | .ldUavTyped => .loadImage
  | .storeUavTyped => .storeImage
  | .immAtomicAlloc | .immAtomicConsume => .counter
  | .atomicAnd | .atomicOr | .atomicXor | .atomicCmpStore | .atomicIadd | .atomicImax | .atomicImin
  | .atomicUmax | .atomicUmin | .immAtomicIadd | .immAtomicAnd | .immAtomicOr | .immAtomicXor
  | .immAtomicExch | .immAtomicCmpExch | .immAtomicImax | .immAtomicImin | .immAtomicUmax
  | .immAtomicUmin => .atomic
  | .mov => .mov
  | .movc => .movc
  | .swapc => .swapc
  | .dp2 => .dot 2
  | .dp3 => .dot 3
  | .dp4 => .dot 4
  | .msad | .sampleInfo | .samplePos => .unsupported .noEquivalent
  | .interfaceCall => .unsupported .classLinkage
  | .evalSnapped | .evalSampleIndex | .evalCentroid => .evaluate
  | .dadd | .dmax | .dmin | .dmul | .dmov | .dmovc | .ddiv | .dfma | .drcp | .ftod | .itod
  | .utod => .doubleResult
  | op =>
    match op.aluTypes? with
    | none => .unsupported .noTranslation
    | some types =>
      match op with
      | .sinCos | .udiv | .imul | .umul | .uaddc | .usubb => .twoResults types
      | .eq | .ieq => .compare types .equal
      | .ne | .ine => .compare types .notEqual
      | .lt | .ilt | .ult => .compare types .less
      | .ge | .ige | .uge => .compare types .greaterEqual
      | .firstBitHi | .firstBitShi | .ubfe | .ibfe | .bfi | .f32ToF16 | .f16ToF32 => .perLane types
      | .deq | .dge | .dlt | .dne | .dtof | .dtoi | .dtou => .fromDouble types
      | _ => .elementwise types

inductive Opcode.Emits : Opcode → Prop
  | emit : Emits .emit
  | emitThenCut : Emits .emitThenCut
  | cut : Emits .cut
  | emitStream : Emits .emitStream
  | cutStream : Emits .cutStream
  | emitThenCutStream : Emits .emitThenCutStream

-- The opcodes that calculate nothing.
inductive Opcode.Directs : Opcode → Prop
  | nop : Directs .nop
  | customData : Directs .customData
  | hsControlPointPhase : Directs .hsControlPointPhase
  | hsForkPhase : Directs .hsForkPhase
  | hsJoinPhase : Directs .hsJoinPhase
  | hsDecls : Directs .hsDecls
  | beginIf : Directs .beginIf
  | orElse : Directs .orElse
  | endIf : Directs .endIf
  | beginLoop : Directs .beginLoop
  | endLoop : Directs .endLoop
  | beginSwitch : Directs .beginSwitch
  | caseLabel : Directs .caseLabel
  | defaultLabel : Directs .defaultLabel
  | endSwitch : Directs .endSwitch
  | breakOut : Directs .breakOut
  | breakIf : Directs .breakIf
  | continueLoop : Directs .continueLoop
  | continueIf : Directs .continueIf
  | ret : Directs .ret
  | retIf : Directs .retIf
  | discard : Directs .discard
  | call : Directs .call
  | callIf : Directs .callIf
  | label : Directs .label
  | sync : Directs .sync
  | abort : Directs .abort
  | debugBreak : Directs .debugBreak
  | emission {op : Opcode} (emits : op.Emits) : Directs op

namespace Context

variable {c : Context} {inst : Instruction}

theorem lines_of_not_directs {isLast : Bool} (h : ¬inst.opcode.Directs) :
    c.lines inst isLast = c.instruction inst := by
  unfold lines
  generalize inst.opcode = op at h
  cases op
  case emit | emitThenCut | cut | emitStream | cutStream | emitThenCutStream =>
    refine absurd (.emission ?_) h
    constructor
  all_goals
    first
    | rfl
    | refine absurd ?_ h
      constructor

def perform (c : Context) (inst : Instruction) : Routine → Emit (List Line)
  | .sample texture sampler shadow => c.sample inst ⟨texture, some sampler, shadow⟩ sampler
  | .loadTexel => c.loadTexel inst
  | .queryLod => c.queryLod inst
  | .sizeInfo => c.sizeInfo inst
  | .bufferInfo => c.bufferInfo inst
  | .loadBuffer => c.loadBuffer inst
  | .storeBuffer => c.storeBuffer inst
  | .loadImage => c.loadImage inst
  | .storeImage => c.storeImage inst
  | .counter => c.counter inst
  | .atomic => c.atomic inst
  | .mov => c.mov inst
  | .movc => c.movc inst
  | .swapc => c.swapc inst
  | .dot k => c.dot inst k
  | .evaluate => c.evaluate inst
  | .doubleResult => c.doubleResult inst
  | .twoResults types => c.twoResults inst types
  | .compare types comparison => c.compare inst types comparison.function comparison.operator
  | .perLane types => c.perLane inst types
  | .fromDouble types => c.fromDouble inst types
  | .elementwise types => c.elementwise inst types
  | .unsupported reason => c.unsupported reason

theorem instruction_eq_perform : c.instruction inst = c.perform inst inst.opcode.routine := by
  unfold instruction
  generalize inst.opcode = op
  cases op <;> rfl

-- The steps of a barrier that follow the lines for global memory, and those for shared memory.

def awaitThreads (c : Context) (flags : SyncFlags) (lines : List Line) :
    Except LiftError (List Line) := do
  if flags.threadsInGroup then
    if c.stage ≠ .compute ∧ c.stage ≠ .hull then
      c.unsupported .groupSyncOutsideGroup
    return lines ++ [Line.stmt (.eval (.call "barrier" []))]
  return lines

def awaitShared (c : Context) (flags : SyncFlags) (lines : List Line) :
    Except LiftError (List Line) := do
  let shared ←
    if flags.sharedMemory then do
      c.require .sharedBarriers
      pure [Line.stmt (.eval (.call "memoryBarrierShared" []))]
    else pure []
  c.awaitThreads flags (lines ++ shared)

end Context

end ShaderLift
