import ShaderLift.Container.Basic
import ShaderLift.Signature

/-!
Signature chunks. Their entries come in three sizes: the plain ones, those with a stream in front,
and those that also have a precision behind.
-/

namespace ShaderLift

structure EntryLayout where
  size      : Nat
  hasStream : Bool
  deriving DecidableEq, Repr

def FourCC.entryLayout (f : FourCC) : EntryLayout :=
  if f = .osg5 then ⟨28, true⟩
  else if f.bytes.w = 0x31 then ⟨32, true⟩
  else ⟨24, false⟩

namespace Chunk

def signatureEntry (w : Window) (stream : UInt32) (start : Nat) :
    Except DecodeError SignatureEntry := do
  return {
    stream
    semantic := ← w.textAt start "semantic name"
    semanticIndex := ← w.word (start + 4) "semantic index"
    systemValue := (SystemValue.ofRaw? (← w.number (start + 8) "system value")).getD .undefined
    componentType := .ofRaw (← w.number (start + 12) "component type")
    register := ← w.word (start + 16) "register"
    mask := ⟨(← w.byte (start + 20) "mask") &&& 0xf⟩
    readWriteMask := ⟨(← w.byte (start + 21) "read/write mask") &&& 0xf⟩ }

def signature (c : Chunk) : Except DecodeError Signature := do
  let w := c.window
  let layout := c.fourCC.entryLayout
  let count ← w.number 0 "signature element count"
  let start ← w.number 4 "signature table offset"
  (← w.table start count layout.size "signature").mapM fun entry => do
    if layout.hasStream then signatureEntry w (← w.word entry "stream") (entry + 4)
    else signatureEntry w 0 entry

end Chunk

end ShaderLift
