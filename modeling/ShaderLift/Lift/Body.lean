import ShaderLift.Lift.Memory

/-!
Function bodies: the lines of each instruction, and of ranges of instructions.
-/

namespace ShaderLift

open Glsl

namespace Context

def instruction (c : Context) (inst : Instruction) : Emit (List Line) := do
  match inst.opcode with
  | .sample | .sampleB | .sampleL | .sampleD | .sampleC | .sampleCLz | .gather4 | .gather4C
  | .gather4Po | .gather4PoC =>
    match inst.opcode.sampleOperands? with
    | some ⟨texture, some sampler, shadow⟩ => c.sample inst ⟨texture, sampler, shadow⟩ sampler
    | _ => throw .outOfRange
  | .ld | .ldMs => c.loadTexel inst
  | .lod => c.queryLod inst
  | .resInfo => c.sizeInfo inst
  | .bufInfo => c.bufferInfo inst
  | .ldRaw | .ldStructured => c.loadBuffer inst
  | .storeRaw | .storeStructured => c.storeBuffer inst
  | .ldUavTyped => c.loadImage inst
  | .storeUavTyped => c.storeImage inst
  | .immAtomicAlloc | .immAtomicConsume => c.counter inst
  | .atomicAnd | .atomicOr | .atomicXor | .atomicCmpStore | .atomicIadd | .atomicImax | .atomicImin
  | .atomicUmax | .atomicUmin | .immAtomicIadd | .immAtomicAnd | .immAtomicOr | .immAtomicXor
  | .immAtomicExch | .immAtomicCmpExch | .immAtomicImax | .immAtomicImin | .immAtomicUmax
  | .immAtomicUmin => c.atomic inst
  | .mov => c.mov inst
  | .movc => c.movc inst
  | .swapc => c.swapc inst
  | .dp2 => c.dot inst 2
  | .dp3 => c.dot inst 3
  | .dp4 => c.dot inst 4
  | .msad | .sampleInfo | .samplePos => c.unsupported .noEquivalent
  | .interfaceCall => c.unsupported .classLinkage
  | .evalSnapped | .evalSampleIndex | .evalCentroid => c.evaluate inst
  | .dadd | .dmax | .dmin | .dmul | .dmov | .dmovc | .ddiv | .dfma | .drcp | .ftod | .itod
  | .utod => c.doubleResult inst
  | op =>
    let some types := op.aluTypes? | c.unsupported .noTranslation
    match op with
    | .sinCos | .udiv | .imul | .umul | .uaddc | .usubb => c.twoResults inst types
    | .eq | .ieq => c.compare inst types "equal" .eq
    | .ne | .ine => c.compare inst types "notEqual" .ne
    | .lt | .ilt | .ult => c.compare inst types "lessThan" .lt
    | .ge | .ige | .uge => c.compare inst types "greaterThanEqual" .ge
    | .firstBitHi | .firstBitShi | .ubfe | .ibfe | .bfi | .f32ToF16 | .f16ToF32 =>
      c.perLane inst types
    | .deq | .dge | .dlt | .dne | .dtof | .dtoi | .dtou => c.fromDouble inst types
    | _ => c.elementwise inst types

def flowOperand (_ : Context) (inst : Instruction) (i : Nat) : Except LiftError OperandId :=
  match inst.operands[i]? with
  | some id => .ok id
  | none => .error (.malformed ⟨inst.position, .operand (.missingOperand inst.opcode i)⟩)

def condition (c : Context) (inst : Instruction) : Except LiftError Expr := do
  let value ← c.source (← c.flowOperand inst 0) .int [0]
  let op := if inst.controls.test? = some .zero then BinaryOp.eq else .ne
  return .binary op value (.int 0)

def flushesAtReturn (c : Context) : Bool :=
  match c.stage with
  | .vertex | .pixel | .domain => true
  | _ => false

def returnJump (c : Context) : Jump :=
  if c.scope = .main ∧ c.flushesAtReturn then .flushRet else .ret

def caseLabel (c : Context) (inst : Instruction) : Except LiftError CaseLabel := do
  match (← c.operand (← c.flowOperand inst 0)).immediate with
  | some (.words lanes _) => return .value (intLiteral (Word.signed lanes.x))
  | _ => c.unsupported .caseNotImmediate

def callee (c : Context) (inst : Instruction) (i : Nat) : Except LiftError Jump := do
  if c.stage = .hull then
    c.unsupported .subroutineInHull
  let op ← c.operand (← c.flowOperand inst i)
  let label ← c.orUnresolved .dynamicLabel op.slot?
  if (c.flow.subroutine? label).isNone then
    c.unresolved (.label label)
  return .call label

def streamOf (c : Context) (inst : Instruction) : Except LiftError UInt32 :=
  match inst.operands.head? with
  | some id => return (← c.operand id).slot?.getD 0
  | none => return 0

def emitVertex (c : Context) (inst : Instruction) : Except LiftError (List Line) := do
  if c.stage ≠ .geometry then
    c.unsupported .emissionOutsideGeometry
  let stream ←
    match inst.opcode with
    | .emitStream | .cutStream | .emitThenCutStream => c.streamOf inst
    | _ => pure 0
  if stream ≠ 0 then
    c.require .multipleStreams
  let call (plain onStream : String) : Line :=
    .stmt (.eval (if stream = 0 then .call plain [] else .call onStream [.number stream]))
  let emit := [.stmt .flush, call "EmitVertex" "EmitStreamVertex"]
  let cut := [call "EndPrimitive" "EndStreamPrimitive"]
  return match inst.opcode with
    | .emit | .emitStream => emit
    | .cut | .cutStream => cut
    | _ => emit ++ cut

def synchronize (c : Context) (inst : Instruction) : Except LiftError (List Line) := do
  let .sync flags := inst.controls | c.unsupported .syncWithoutFlags
  let call (name : String) : List Line := [.stmt (.eval (.call name []))]
  let global ←
    if flags.uavGlobal then do
      c.require .memoryBarriers
      pure (call "memoryBarrier")
    else if flags.uavGroup then do
      c.require .groupBarriers
      pure (call "groupMemoryBarrier")
    else pure []
  let shared ←
    if flags.sharedMemory then do
      c.require .sharedBarriers
      pure (call "memoryBarrierShared")
    else pure []
  if flags.threadsInGroup then
    if c.stage ≠ .compute ∧ c.stage ≠ .hull then
      c.unsupported .groupSyncOutsideGroup
    return global ++ shared ++ call "barrier"
  return global ++ shared

def startCase (label : CaseLabel) : Emit (List Line) := do
  let cases := (← get).openCases
  modify fun s => { s with openCases := cases.set 0 true }
  return (if cases.headD false then [.endCase] else []) ++ [.caseLabel label]

-- Ends a switch. Its last part may not be empty, so a part with nothing in it gets a jump.
def endSwitch (c : Context) : Emit (List Line) := do
  let cases := (← get).openCases
  modify fun s => { s with openCases := cases.drop 1 }
  let last := if c.index = 0 then none else c.program.instructions[c.index - 1]?
  let filler :=
    match last.map Instruction.opcode with
    | some .caseLabel | some .defaultLabel => [Line.stmt (.jump .breakOut)]
    | _ => []
  return filler ++ (if cases.headD false then [.endCase] else []) ++ [.leave]

def expectOperands (inst : Instruction) : Except LiftError Unit :=
  match inst.opcode.operandCount with
  | some expected =>
    if inst.operands.length = expected then .ok ()
    else .error (.malformed
      ⟨inst.position, .operand (.operandCount inst.opcode expected inst.operands.length)⟩)
  | none => .ok ()

-- The lines of an instruction that has its operands. A `ret` that ends its function, which is told
-- by `isLast`, is left out.
def lines (c : Context) (inst : Instruction) (isLast : Bool) : Emit (List Line) := do
  let jump (j : Jump) : List Line := [.stmt (.jump j)]
  let jumpIf (j : Jump) : Except LiftError (List Line) := do
    return [.stmt (.jumpIf (← c.condition inst) j)]
  match inst.opcode with
  | .nop | .customData | .hsControlPointPhase | .hsForkPhase | .hsJoinPhase | .hsDecls => return []
  | .beginIf => return [.enter (.when (← c.condition inst))]
  | .orElse => return [.otherwise]
  | .endIf | .endLoop => return [.leave]
  | .beginLoop => return [.enter .forever]
  | .beginSwitch =>
    c.require .switchStatements
    let selector ← c.source (← c.flowOperand inst 0) .int [0]
    modify fun s => { s with openCases := false :: s.openCases }
    return [.enter (.choice selector)]
  | .caseLabel => startCase (← c.caseLabel inst)
  | .defaultLabel => startCase .default
  | .endSwitch => c.endSwitch
  | .breakOut => return jump .breakOut
  | .continueLoop => return jump .continueLoop
  | .breakIf => jumpIf .breakOut
  | .continueIf => jumpIf .continueLoop
  | .ret => return if isLast then [] else jump c.returnJump
  | .retIf => jumpIf c.returnJump
  | .discard =>
    if c.stage ≠ .pixel then
      c.unsupported .discardOutsidePixel
    jumpIf .discard
  | .call => return jump (← c.callee inst 0)
  | .callIf =>
    let callee ← c.callee inst 1
    jumpIf callee
  | .label => c.unsupported .labelInFunction
  | .emit | .emitThenCut | .cut | .emitStream | .cutStream | .emitThenCutStream => c.emitVertex inst
  | .sync => c.synchronize inst
  | .abort | .debugBreak => c.unsupported .noEquivalent
  | _ => c.instruction inst

def step (c : Context) (inst : Instruction) (isLast : Bool) : Emit (List Line) := do
  expectOperands inst
  c.lines inst isLast

def depthAfter (depth : Nat) : Opcode → Nat
  | .beginIf | .beginLoop | .beginSwitch => depth + 1
  | .endIf | .endLoop | .endSwitch => depth - 1
  | _ => depth

def range (c : Context) : (count i depth : Nat) → Emit (List Line)
  | 0, _, _ => return []
  | count + 1, i, depth => do
    let some inst := c.program.instructions[i]? | throw .outOfRange
    let c' := { c with index := i, saturate := inst.controls.saturate }
    let lines ← c'.step inst (depth = 0 ∧ count = 0)
    let rest ← c.range count (i + 1) (depthAfter depth inst.opcode)
    return lines ++ rest

def body (c : Context) (start stop : Nat) : Emit (List Line) :=
  c.range (stop - start) start 0

end Context

end ShaderLift
