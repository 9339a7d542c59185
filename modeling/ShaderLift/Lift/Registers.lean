import ShaderLift.Options
import ShaderLift.Hull.Phases
import ShaderLift.Lift.Resources

/-!
The signatures that a program declares, for streams that come without tables, and how many registers
of each file it touches.
-/

namespace ShaderLift

inductive SignatureClass where
  | input
  | output
  | patch
  deriving DecidableEq, Repr

-- What tells declared signature entries apart.
structure EntryKey where
  register    : UInt32
  systemValue : Option SystemValue
  deriving DecidableEq, Repr

namespace EntryKey

def valueRank : Option SystemValue → Nat
  | none => 0
  | some sv => sv.index + 1

theorem valueRank_lt : (sv : Option SystemValue) → valueRank sv < SystemValue.all.length + 1
  | none => Nat.succ_pos _
  | some sv => Nat.succ_lt_succ (List.idxOf_lt_length_of_mem sv.mem_all)

theorem valueRank_inj : {a b : Option SystemValue} → valueRank a = valueRank b → a = b
  | none, none, _ => rfl
  | some _, some _, h => congrArg some (SystemValue.index_inj (Nat.succ.inj h))

-- Orders keys by register, then by system value with the missing one first.
def rank (k : EntryKey) : Nat :=
  k.register.toNat * (SystemValue.all.length + 1) + valueRank k.systemValue

theorem rank_inj {a b : EntryKey} (h : a.rank = b.rank) : a = b := by
  obtain ⟨hr, hv⟩ := digits_inj (valueRank_lt _) (valueRank_lt _) h
  cases a
  cases b
  simp only [mk.injEq]
  exact ⟨UInt32.toNat_inj.mp hr, valueRank_inj hv⟩

instance : Ranked EntryKey where
  rank := rank
  rank_inj := rank_inj

end EntryKey

def SystemValue.componentType : SystemValue → ComponentType
  | vertexId | instanceId | primitiveId | isFrontFace | sampleIndex | renderTargetArrayIndex
  | viewportArrayIndex | coverage | stencilRef => .uint32
  | _ => .float32

structure DeclaredEntry where
  kind          : SignatureClass
  register      : UInt32
  systemValue   : Option SystemValue
  semanticIndex : UInt32
  mask          : WriteMask
  interpolation : Option InterpolationMode
  deriving DecidableEq, Repr

def SignatureEntry.add (entry : SignatureEntry) (e : DeclaredEntry) : SignatureEntry :=
  { entry with
    mask := entry.mask.union e.mask
    readWriteMask := entry.readWriteMask.union e.mask
    interpolation := e.interpolation.or entry.interpolation }

namespace Program

-- The entry that declaration `i` declares, if any. Outputs that fork and join phases declare
-- belong to the patch.
def declaredEntry? (p : Program) (patchDeclarations : List Nat) (i : Nat) (declared : Declared) :
    Except LiftError (Option DeclaredEntry) := do
  let entry (kind : SignatureClass) (op : Operand) (sv : Option SystemValue) (index : UInt32)
      (interpolation : Option InterpolationMode) : Option DeclaredEntry := do
    let register ← op.lastIndex?
    return ⟨kind, register, sv.filter (· ≠ .undefined), index, op.writeMask, interpolation⟩
  match declared with
  | .input id sv index interpolation =>
    let op ← p.operand id
    return match op.register with
      | .input | .inputControlPoint => entry .input op sv index interpolation
      | .inputPatchConstant =>
        if p.stage = .domain then entry .patch op sv index interpolation else none
      | _ => none
  | .output id sv index =>
    let op ← p.operand id
    let kind := if patchDeclarations.contains i then .patch else .output
    return if op.register = .output then entry kind op sv index none else none
  | _ => return none

def newEntry (p : Program) (e : DeclaredEntry) : SignatureEntry :=
  match e.systemValue with
  | some sv =>
    { semantic := sv.semantic, semanticIndex := e.semanticIndex, register := e.register
      systemValue := sv, componentType := sv.componentType, mask := .none }
  | none =>
    if p.stage = .pixel ∧ e.kind = .output then
      { semantic := "SV_Target", semanticIndex := e.register, register := e.register
        systemValue := .target, mask := .none }
    else
      { semantic := "TEXCOORD", semanticIndex := e.register, register := e.register
        mask := .none }

def declaredSignature (p : Program) (phases : Option Phases) (kind : SignatureClass) :
    Except LiftError Signature := do
  let patchDeclarations :=
    (phases.map fun ps => (ps.forks ++ ps.joins).flatMap (·.declarations)).getD []
  let declared ← p.declarations.zipIdx.mapM fun (decl, i) =>
    p.declaredEntry? patchDeclarations i decl.declared
  let ofKind := (declared.filterMap id).filter (·.kind = kind)
  let merged := ofKind.foldl (fun (m : SortedMap EntryKey SignatureEntry) e =>
    m.alter ⟨e.register, e.systemValue⟩ fun old => (old.getD (p.newEntry e)).add e) .empty
  return merged.values

-- The signature of a class: the given one or, without it, the declared one.
def signature (p : Program) (phases : Option Phases) (kind : SignatureClass) :
    Except LiftError Signature :=
  let given :=
    match kind with
    | .input => p.inputs
    | .output => p.outputs
    | .patch => p.patch
  if ¬ given.isEmpty then return given
  else if kind = .patch ∧ p.stage ≠ .hull ∧ p.stage ≠ .domain then return []
  else p.declaredSignature phases kind

def registerOf (p : Program) (kinds : List RegisterKind) (id : OperandId) :
    Except LiftError (Option UInt32) := do
  let op ← p.operand id
  return if kinds.contains op.register then op.lastIndex? else none

-- The register of some kinds that a declaration names, with how many are taken from it on.
def declaredStretch (p : Program) (kinds : List RegisterKind) :
    Declared → Except LiftError (Option (UInt32 × UInt32))
  | .input id _ _ _ | .output id _ _ => return (← p.registerOf kinds id).map (·, 1)
  | .indexRange id count => return (← p.registerOf kinds id).map (·, count)
  | _ => return none

-- What a signature, the declarations and the operands of instructions name.
def stretches (p : Program) (entries : Signature) (kinds : List RegisterKind) :
    Except LiftError (List (UInt32 × UInt32)) := do
  let registers := (entries.map (·.register)).filter (· ≠ noRegister)
  let declared ← p.declarations.mapM fun decl => p.declaredStretch kinds decl.declared
  let used ← (p.instructions.flatMap (·.operands)).mapM fun id =>
    return (← p.registerOf kinds id).map (·, 1)
  return registers.map (·, 1) ++ (declared ++ used).filterMap id

def extent (o : Options) (p : Program) (entries : Signature) (kinds : List RegisterKind) :
    Except LiftError UInt32 := do
  let stretches ← p.stretches entries kinds
  o.requireWords (stretches.map fun (first, count) => first.toNat + count.toNat)
  return (stretches.map fun (first, count) => first + count).foldl max 0

end Program

end ShaderLift
