import ShaderLift.Options
import ShaderLift.Lift.Resources

/-!
The types of temporary registers. A register has the type of what is first written to it, and floats
if nothing is.
-/

namespace ShaderLift

-- The operands that receive a value. Memory targets do not count.
def Opcode.destinations : Opcode → List Nat
  | sinCos | udiv | imul | umul | uaddc | usubb | swapc => [0, 1]
  | beginIf | orElse | endIf | beginLoop | endLoop | beginSwitch | caseLabel | defaultLabel
  | endSwitch | breakOut | breakIf | continueLoop | continueIf | ret | retIf | discard | call
  | callIf | label | nop | customData | emit | cut | emitThenCut | emitStream | cutStream
  | emitThenCutStream | sync | storeRaw | storeStructured | storeUavTyped | atomicAnd | atomicOr
  | atomicXor | atomicCmpStore | atomicIadd | atomicImax | atomicImin | atomicUmax | atomicUmin
  | hsDecls | hsControlPointPhase | hsForkPhase | hsJoinPhase | abort | debugBreak
  | interfaceCall => []
  | _ => [0]

abbrev TempTypes := SlotMap ValueType

namespace Program

def naturalType (p : Program) (d : Dialect) (temps : TempTypes) (id : OperandId) :
    Except LiftError ValueType := do
  let op ← p.operand id
  if op.modifier ≠ .plain then
    return .float
  return match op.register with
    | .temp => (op.slot?.bind temps.get?).getD .float
    | .immediate32 =>
      match op.immediate with
      | some (.words lanes count) => .guess (lanes.toList.take count)
      | _ => .float
    | .immediate64 => .uint
    | .immediateConstantBuffer => if Resources.immediatesAreUint d then .uint else .float
    | .inputPrimitiveId | .inputGsInstanceId | .outputControlPointId | .inputForkInstanceId
    | .inputJoinInstanceId | .inputCoverageMask => .int
    | .inputThreadId | .inputThreadGroupId | .inputThreadIdInGroup
    | .inputThreadIdInGroupFlattened => .uint
    | _ => .float

def resultType (p : Program) (d : Dialect) (r : Resources) (temps : TempTypes)
    (inst : Instruction) : Except LiftError (Option ValueType) :=
  let natural (i : Nat) : Except LiftError (Option ValueType) :=
    match inst.operands[i]? with
    | some id => some <$> p.naturalType d temps id
    | none => return none
  let slot (i : Nat) : Except LiftError (Option UInt32) :=
    match inst.operands[i]? with
    | some id => return (← p.operand id).slot?
    | none => return none
  let texture (i : Nat) : Except LiftError (Option ValueType) := do
    let some slot ← slot i | return none
    if r.buffers.contains slot then return some .uint
    return (r.textures.get? slot).map (Texture.valueType d)
  match inst.opcode with
  | .mov => natural 1
  | .movc => natural 2
  | .swapc => natural 3
  | .sample | .sampleB | .sampleL | .sampleD | .gather4 | .ld | .ldMs => texture 2
  | .gather4Po => texture 3
  | .sampleC | .sampleCLz | .gather4C | .gather4PoC | .lod => return some .float
  | .resInfo =>
    return some (match inst.controls with
      | .resInfo .uint _ => .uint
      | _ => .float)
  | .bufInfo | .ldRaw | .ldStructured => return some .uint
  | .ldUavTyped => do
    let some slot ← slot 2 | return none
    return some (((r.uavs.get? slot).map Uav.valueType).getD .float)
  | .immAtomicImax | .immAtomicImin => return some .int
  | .immAtomicAlloc | .immAtomicConsume | .immAtomicIadd | .immAtomicAnd | .immAtomicOr
  | .immAtomicXor | .immAtomicExch | .immAtomicCmpExch | .immAtomicUmax | .immAtomicUmin =>
    return some .uint
  | op => return op.aluTypes?.map (·.result)

def secondResultType (p : Program) (d : Dialect) (temps : TempTypes) (inst : Instruction)
    (first : ValueType) : Except LiftError ValueType :=
  match inst.opcode, inst.operands[4]? with
  | .swapc, some id => p.naturalType d temps id
  | _, _ => return first

def tempOf? (p : Program) (id : OperandId) : Except LiftError (Option UInt32) := do
  let op ← p.operand id
  return if op.register = .temp then op.slot? else none

def addWrites (p : Program) (d : Dialect) (inst : Instruction) (type : ValueType) :
    (temps : TempTypes) → List Nat → Except LiftError TempTypes
  | temps, [] => return temps
  | temps, i :: is => do
    let some id := inst.operands[i]? | p.addWrites d inst type temps is
    match ← p.tempOf? id with
    | some register =>
      let type' ← if i = 1 then p.secondResultType d temps inst type else pure type
      p.addWrites d inst type (temps.insertNew register type') is
    | none => p.addWrites d inst type temps is

def writtenTemps (p : Program) (d : Dialect) (r : Resources) :
    (temps : TempTypes) → List Instruction → Except LiftError TempTypes
  | temps, [] => return temps
  | temps, inst :: insts => do
    match ← p.resultType d r temps inst with
    | some type =>
      p.writtenTemps d r (← p.addWrites d inst type temps inst.opcode.destinations) insts
    | none => p.writtenTemps d r temps insts

def tempsRead (p : Program) (id : OperandId) : Except LiftError (List UInt32) := do
  let op ← p.operand id
  let own ← p.tempOf? id
  let nested ← (op.indices.filterMap Index.relative?).mapM p.tempOf?
  return own.toList ++ nested.filterMap fun register => register

-- How many registers the program declares or writes, counted from zero.
def tempCount (p : Program) (written : TempTypes) : UInt32 :=
  let declared := p.declarations.filterMap fun decl =>
    match decl.declared with
    | .temps count => some count
    | _ => none
  (declared ++ written.keys.map (· + 1)).foldl max 0

-- Gives the registers below `count` that have no type yet the type of floats.
def fillTemps (temps : TempTypes) (count : UInt32) : TempTypes :=
  ⟨(List.range count.toNat).map (fun i =>
      let register := UInt32.ofNat i
      (register, (temps.get? register).getD .float)) ++
    temps.entries.filter (·.1 ≥ count)⟩

def temps (o : Options) (p : Program) (d : Dialect) (r : Resources) :
    Except LiftError TempTypes := do
  let written ← p.writtenTemps d r .empty p.instructions
  o.requireWords (written.keys.map (·.toNat + 1))
  let filled := fillTemps written (p.tempCount written)
  let read ← (p.instructions.flatMap (·.operands)).mapM p.tempsRead
  return read.flatten.foldl (fun temps register => temps.insertNew register .float) filled

def indexableTemps (p : Program) : SlotMap UInt32 :=
  p.declarations.foldl (fun arrays decl =>
    match decl.declared with
    | .indexableTemp index count _ => arrays.alter index fun old => max (old.getD 0) count
    | _ => arrays) .empty

end Program

end ShaderLift
