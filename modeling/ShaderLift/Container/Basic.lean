import ShaderLift.Container.Window

/-!
Containers: a header, a table of offsets, and the chunks that these lead to. Each chunk has a code
of four characters, a length, and data.
-/

namespace ShaderLift

structure FourCC where
  bytes : Quad UInt8
  deriving DecidableEq, Repr

namespace FourCC

def ofChars (a b c d : Char) : FourCC :=
  ⟨⟨.ofNat a.toNat, .ofNat b.toNat, .ofNat c.toNat, .ofNat d.toNat⟩⟩

def dxbc := ofChars 'D' 'X' 'B' 'C'
def shdr := ofChars 'S' 'H' 'D' 'R'
def shex := ofChars 'S' 'H' 'E' 'X'
def rdef := ofChars 'R' 'D' 'E' 'F'
def isgn := ofChars 'I' 'S' 'G' 'N'
def isg1 := ofChars 'I' 'S' 'G' '1'
def osgn := ofChars 'O' 'S' 'G' 'N'
def osg5 := ofChars 'O' 'S' 'G' '5'
def osg1 := ofChars 'O' 'S' 'G' '1'
def pcsg := ofChars 'P' 'C' 'S' 'G'
def psg1 := ofChars 'P' 'S' 'G' '1'

-- Bytes without a visible character are written in hexadecimal.
def text (f : FourCC) : String :=
  .join (f.bytes.toList.map byteText)
where
  byteText (b : UInt8) : String :=
    if 0x21 ≤ b ∧ b ≤ 0x7e then String.singleton (.ofNat b.toNat) else "\\x" ++ hexDigits 2 b.toNat

end FourCC

structure Chunk where
  fourCC : FourCC
  offset : Nat
  data   : List UInt8
  deriving DecidableEq, Repr

def Chunk.window (c : Chunk) : Window :=
  ⟨c.offset, c.data⟩

structure Container where
  -- Sixteen bytes that are not checked.
  checksum : List UInt8
  chunks   : List Chunk
  deriving DecidableEq, Repr

namespace Container

def headerLength : Nat := 32

def maxChunks : Nat := 4096

def readFourCC (file : Window) (start : Nat) : Except DecodeError FourCC := do
  let char (k : Nat) := file.byte (start + k) "chunk fourcc"
  return ⟨⟨← char 0, ← char 1, ← char 2, ← char 3⟩⟩

def readChunk (file : Window) (tableEnd i entry : Nat) : Except DecodeError Chunk := do
  let start ← file.number entry "chunk offset"
  if start < tableEnd then
    file.fail entry (.chunkInHeader i start)
  let fourCC ← readFourCC file start
  let length ← file.number (start + 4) "chunk size"
  match file.cut? (start + 8) length with
  | some data => return ⟨fourCC, start + 8, data⟩
  | none => file.fail start (.chunkOverrun i length)

-- Reads a container. Bytes past the size that it declares are ignored.
def parse (bytes : List UInt8) : Except DecodeError Container := do
  let input : Window := ⟨0, bytes⟩
  if bytes.length < headerLength then
    input.fail 0 (.shortHeader headerLength bytes.length)
  if (← readFourCC input 0) ≠ .dxbc then
    input.fail 0 .badMagic
  let total ← input.number 24 "total size"
  if total < headerLength ∨ bytes.length < total then
    input.fail 24 (.totalSize total bytes.length)
  let file : Window := ⟨0, bytes.take total⟩
  let count ← file.number 28 "chunk count"
  if maxChunks < count then
    file.fail 28 (.tooManyChunks count maxChunks)
  let entries ← file.table headerLength count 4 "chunk offset"
  let chunks ← entries.zipIdx.mapM fun (entry, i) =>
    readChunk file (headerLength + count * 4) i entry
  return ⟨(bytes.drop 4).take 16, chunks⟩

def chunk? (c : Container) (codes : List FourCC) : Option Chunk :=
  codes.findSome? fun code => c.chunks.find? (·.fourCC = code)

def tokens (c : Container) : Except DecodeError (List UInt32) := do
  let some chunk := c.chunk? [.shex, .shdr] | throw ⟨0, .container .noShader⟩
  if chunk.data.length % 4 ≠ 0 then
    throw ⟨chunk.offset, .container (.partialWord chunk.fourCC.text chunk.data.length)⟩
  return Word.ofByteList chunk.data

end Container

end ShaderLift
