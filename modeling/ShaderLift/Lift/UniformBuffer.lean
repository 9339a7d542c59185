import ShaderLift.Reflection
import ShaderLift.Glsl.Declaration
import ShaderLift.Glsl.Identifier

/-!
Constant buffers: either an array of registers, or the variables that reflection data names, if
these keep their places under the layout rules of the target.
-/

namespace ShaderLift

open Glsl

structure Member where
  name       : String
  offset     : UInt32
  base       : BaseType
  registers  : UInt32
  components : UInt32
  -- Length of an array, 0 for everything else.
  elements   : UInt32
  isMatrix   : Bool
  deriving DecidableEq, Repr

namespace Member

def isArray (m : Member) : Bool :=
  m.elements > 0 || m.registers > 1

def count (m : Member) : UInt32 :=
  max m.elements 1 * m.registers

def extent (m : Member) : UInt32 :=
  if m.count > 1 then (m.count - 1) * 16 + m.components * 4 else m.components * 4

def registerCount (m : Member) : Nat :=
  max m.elements.toNat 1 * m.registers.toNat

-- How many bytes the member takes in a block.
def space (m : Member) : Nat :=
  if m.isArray then 16 * m.registerCount else 4 * m.components.toNat

-- How many bytes the member covers in the constant buffer. The last register need not be full.
def bytes (m : Member) : Nat :=
  16 * (m.registerCount - 1) + 4 * m.components.toNat

def valueType (m : Member) : ValueType :=
  match m.base with
  | .float | .double => .float
  | .int => .int
  | .uint | .bool => .uint

def align (m : Member) : UInt32 :=
  if m.isArray then 16
  else
    match m.components.toNat with
    | 1 => 4
    | 2 => 8
    | _ => 16

def size (m : Member) : UInt32 :=
  if m.isArray then m.count * 16 else m.components * 4

def typeName (d : Dialect) (m : Member) : String :=
  if m.isMatrix then
    if m.registers = m.components then "mat" ++ decimal m.registers
    else "mat" ++ decimal m.registers ++ "x" ++ decimal m.components
  else
    let n := m.components.toNat
    match m.base with
    | .bool => if n = 1 then "bool" else "bvec" ++ toString n
    | .int => ValueType.int.vecName d n
    | .uint => ValueType.uint.vecName d n
    | .float | .double => ValueType.float.vecName d n

-- The declaration of a member. Registers that make no matrix lie flat in one array.
def declarator (d : Dialect) (m : Member) : Declarator where
  type := m.typeName d
  name := m.name
  length :=
    if m.isMatrix then if m.elements > 0 then some m.elements else none
    else if m.isArray then some m.count
    else none

def ofVariable (d : Dialect) (v : Variable) : Option Member :=
  let type := v.type
  if type.base = .double ∨ v.offset % 4 ≠ 0 then none
  else
    let shape? :=
      match type.shape with
      | .scalar => some (1, 1, false)
      | .vector => some (1, type.columns, false)
      | .matrixColumns => some (type.columns, type.rows, true)
      | .matrixRows => some (type.rows, type.columns, true)
      | .other => none
    shape?.bind fun (registers, components, isMatrix) =>
      if 1 ≤ components ∧ components ≤ 4 ∧ 1 ≤ registers ∧ registers ≤ 4 then
        some {
          name := Identifier.ofString v.name
          offset := v.offset
          base := type.base
          registers, components
          elements := type.elements
          isMatrix := isMatrix && registers > 1 && components > 1 && type.base = .float &&
            (registers = components || d.has .nonSquareMatrices) }
      else none

-- The members of a constant buffer by ascending offset, if all its variables can be members.
def ofBuffer (d : Dialect) (buffer : ConstantBuffer) : Option (List Member) :=
  (buffer.members.mapM (ofVariable d)).map (·.mergeSort (·.offset ≤ ·.offset))

-- Whether padding alone brings each member to its offset under the `std140` rules.
def fits (cursor : UInt32) : List Member → Bool
  | [] => true
  | m :: ms => m.offset % m.align = 0 && cursor ≤ m.offset && fits (m.offset + m.size) ms

-- Where the members end that are looked at to see whether they fit.
def ends (cursor : UInt32) : List Member → List Nat
  | [] => []
  | m :: ms =>
    if m.offset % m.align = 0 && cursor ≤ m.offset then
      (m.offset.toNat + m.space) :: ends (m.offset + m.size) ms
    else []

def blockMembers (d : Dialect) (slot cursor : UInt32) : List Member → List BlockMember
  | [] => []
  | m :: ms =>
    let rest := blockMembers d slot (m.offset + m.size) ms
    if d.has .memberOffsets then .member (some m.offset) (m.declarator d) :: rest
    else
      let gap := (m.offset.toNat - cursor.toNat + 3) / 4
      (List.range gap).map (fun i => .padding slot (cursor.toNat / 4 + i)) ++
        .member none (m.declarator d) :: rest

end Member

inductive ConstantLane where
  | value (value : Expr) (type : ValueType)
  | padding
  -- No member touches the register.
  | uncovered
  deriving Repr

namespace Member

def covers (byte : UInt32) (m : Member) : Bool :=
  m.offset ≤ byte && byte < m.offset + m.extent

def touches (register : UInt32) (m : Member) : Bool :=
  m.offset / 16 ≤ register && register ≤ (m.offset + m.extent - 1) / 16

-- The lane of a member that lies `distance` bytes after its start.
def lane (d : Dialect) (distance : UInt32) (m : Member) : ConstantLane :=
  let register := if m.isArray then distance / 16 else 0
  let component := if m.isArray then distance % 16 / 4 else distance / 4
  if component ≥ m.components then .padding
  else
    let name := Expr.var (.member m.name)
    let row :=
      if m.isMatrix then
        let element :=
          if m.elements > 0 then .index name (.number (register / m.registers)) else name
        .index element (.number (register % m.registers))
      else if m.isArray then .index name (.number register)
      else name
    let scalar := if m.components > 1 then .select row [component.toNat] else row
    let value :=
      if m.base = .bool then .call (ValueType.uint.scalarName d) [scalar] else scalar
    .value value m.valueType

def Holds (byte : Nat) (m : Member) : Prop :=
  m.offset.toNat ≤ byte ∧ byte < m.offset.toNat + m.bytes

instance {byte : Nat} {m : Member} : Decidable (m.Holds byte) :=
  inferInstanceAs (Decidable (_ ∧ _))

-- The member and the 16 bytes of the register have a byte in common.
def Overlaps (register : Nat) (m : Member) : Prop :=
  m.offset.toNat < 16 * register + 16 ∧ 16 * register < m.offset.toNat + m.bytes

instance {register : Nat} {m : Member} : Decidable (m.Overlaps register) :=
  inferInstanceAs (Decidable (_ ∧ _))

-- The byte of a component of a register, and the end of the member that is found there. Members
-- that are looked at before it end at or before the byte.
def laneNumbers (ms : List Member) (register : UInt32) (component : Nat) : List Nat :=
  let byte := 16 * register.toNat + 4 * component
  let found := (ms.find? (·.Holds byte)).or (ms.find? (·.Overlaps register.toNat))
  byte :: (found.map fun m => m.offset.toNat + m.bytes).toList

-- What lies at a component of a register. Of members that overlap the first one counts.
def laneAt (d : Dialect) (ms : List Member) (register : UInt32) (component : Nat) : ConstantLane :=
  let byte := register * 16 + .ofNat component * 4
  match ms.find? (covers byte) with
  | some m => m.lane d (byte - m.offset)
  | none => if ms.any (touches register) then .padding else .uncovered

end Member

structure UniformBuffer where
  slot      : UInt32
  size      : UInt32
  blockName : String
  isBlock   : Bool
  members   : Option (List Member)
  deriving DecidableEq, Repr

namespace UniformBuffer

-- Global variables are a block of their own only where the dialect can have that.
def makesBlock (d : Dialect) (buffer : Option ConstantBuffer) : Bool :=
  let isGlobals := buffer.any (·.name = "$Globals")
  d.has .uniformBlocks && (!isGlobals || d.has .globalsInUniformBlock)

-- Dynamically indexed buffers stay arrays.
def build (d : Dialect) (slot size : UInt32) (dynamic : Bool) (buffer : Option ConstantBuffer) :
    UniformBuffer :=
  let isBlock := makesBlock d buffer
  { slot, size, isBlock
    blockName := (buffer.map (Identifier.ofString ·.name)).getD ("cb" ++ decimal slot ++ "_block")
    members :=
      if dynamic then none
      else (buffer.bind (Member.ofBuffer d)).filter fun ms => !isBlock || Member.fits 0 ms }

-- The numbers that it takes to build a constant buffer.
def numbers (d : Dialect) (dynamic : Bool) (buffer : Option ConstantBuffer) : List Nat :=
  if dynamic || !makesBlock d buffer then []
  else ((buffer.bind (Member.ofBuffer d)).map (Member.ends 0)).getD []

def lengths (b : UniformBuffer) : List Nat :=
  ((b.members.getD []).filter fun m => m.isArray && !m.isMatrix).map Member.registerCount

def decls (d : Dialect) (b : UniformBuffer) : List Decl :=
  let raw : Declarator := ⟨"vec4", (Name.constants b.slot).text, some (max b.size 1)⟩
  let block := Decl.uniformBlock b.slot (d.has .explicitBinding) b.blockName
  match b.members, b.isBlock with
  | none, true => [block [.member none raw]]
  | none, false => [.uniform b.slot 0 raw]
  | some ms, true => [block (Member.blockMembers d b.slot 0 ms)]
  | some ms, false => ms.map fun m => .uniform b.slot m.offset (m.declarator d)

end UniformBuffer

end ShaderLift
