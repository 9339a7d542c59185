import ShaderLift.Container.Basic
import ShaderLift.Reflection

/-!
Reflection chunks: a table of bound resources and a table of constant buffers. Each constant buffer
has a table of variables, and each variable leads to a record of its type.
-/

namespace ShaderLift

structure Reflection where
  constantBuffers : List ConstantBuffer := []
  bindings        : List ResourceBinding := []
  deriving DecidableEq, Repr

def VariableClass.ofRaw : Nat → VariableClass
  | 0 => scalar
  | 1 => vector
  | 2 => matrixRows
  | 3 => matrixColumns
  | _ => other

-- Numbers of no other type stand for floats.
def BaseType.ofRaw : Nat → BaseType
  | 1 => bool
  | 2 => int
  | 19 => uint
  | 39 => double
  | _ => float

namespace Reflection

def readType (w : Window) (start : Nat) : Except DecodeError VariableType := do
  return {
    shape := .ofRaw (← w.half start "type class").toNat
    base := .ofRaw (← w.half (start + 2) "base type").toNat
    rows := ← w.half (start + 4) "type rows"
    columns := ← w.half (start + 6) "type columns"
    elements := ← w.half (start + 8) "type elements" }

def readVariable (w : Window) (start : Nat) : Except DecodeError Variable := do
  return {
    name := ← w.textAt start "variable name"
    offset := ← w.word (start + 4) "variable offset"
    size := ← w.word (start + 8) "variable size"
    type := ← readType w (← w.number (start + 16) "variable type offset") }

-- Reads a bound resource. Those of an unknown kind are left out.
def readBinding (w : Window) (start : Nat) : Except DecodeError (Option ResourceBinding) := do
  let name ← w.textAt start "binding name"
  let some kind := BindingKind.ofRaw? (← w.number (start + 4) "input type") | return none
  return some {
    name, kind
    dimension := ← w.word (start + 12) "dimension"
    bindPoint := ← w.word (start + 20) "bind point"
    bindCount := ← w.word (start + 24) "bind count" }

def bindPoint? (bindings : List ResourceBinding) (name : String) : Option UInt32 :=
  (bindings.find? fun b => b.kind = .constantBuffer ∧ b.name = name).map (·.bindPoint)

-- Reads constant buffer `i`. Without a binding of its name it is bound to slot `i`. Buffers of
-- other types, such as the layouts of structures, are left out.
def readConstantBuffer (w : Window) (variableSize : Nat) (bindings : List ResourceBinding)
    (i start : Nat) : Except DecodeError (Option ConstantBuffer) := do
  let name ← w.textAt start "cbuffer name"
  let count ← w.number (start + 4) "variable count"
  let first ← w.number (start + 8) "variable offset"
  let size ← w.word (start + 12) "cbuffer size"
  if (← w.word (start + 20) "cbuffer type") ≠ 0 then
    return none
  let members ← (← w.table first count variableSize "variable").mapM (readVariable w)
  return some { name, size, members, bindPoint := (bindPoint? bindings name).getD (.ofNat i) }

-- From shader model 5 on, variables end with the textures and samplers that they use.
def variableSize (target : UInt32) : Nat :=
  if 5 ≤ Word.bits target 8 8 then 40 else 24

end Reflection

def Chunk.reflection (c : Chunk) : Except DecodeError Reflection := do
  let w := c.window
  let bufferCount ← w.number 0 "constant buffer count"
  let bufferStart ← w.number 4 "constant buffer offset"
  let bindingCount ← w.number 8 "binding count"
  let bindingStart ← w.number 12 "binding offset"
  let target ← w.word 16 "target"
  let records ← w.table bindingStart bindingCount 32 "resource binding"
  let bindings := (← records.mapM (Reflection.readBinding w)).filterMap id
  let records ← w.table bufferStart bufferCount 24 "constant buffer"
  let buffers ← records.zipIdx.mapM fun (start, i) =>
    Reflection.readConstantBuffer w (Reflection.variableSize target) bindings i start
  return { bindings, constantBuffers := buffers.filterMap id }

end ShaderLift
