import ShaderLift.Bytecode.Opcode

/-!
What can be wrong with a token stream or with the container around it, where, and in which words.
-/

namespace ShaderLift

inductive HeaderFault where
  | missingTokens
  | programType
  | declaredLength
  deriving DecidableEq, Repr

def HeaderFault.message : HeaderFault → String
  | missingTokens => "missing version/length tokens"
  | programType => "unknown program type"
  | declaredLength => "declared length below 2"

inductive OperandFault where
  | componentCount
  | selectionMode (raw : Nat)
  | registerKind (raw : Nat)
  | modifier (raw : Nat)
  | extension (raw : Nat)
  | indexForm (raw : Nat)
  | emptyImmediate
  | sizeFormat (raw : Nat)
  | operandCount (op : Opcode) (expected found : Nat)
  | missingOperand (op : Opcode) (slot : Nat)
  deriving DecidableEq, Repr

def OperandFault.message : OperandFault → String
  | componentCount => "N-component operands are not supported"
  | selectionMode raw => s!"unknown selection mode {raw}"
  | registerKind raw => s!"unknown register type {raw}"
  | modifier raw => s!"unknown operand modifier {raw}"
  | extension raw => s!"unknown extended operand type {raw}"
  | indexForm raw => s!"unknown index representation {raw}"
  | emptyImmediate => "immediate without components"
  | sizeFormat raw => s!"resinfo return type {raw}"
  | operandCount op expected found =>
    s!"`{op.mnemonic}` takes {expected} operands, found {found}"
  | missingOperand op slot => s!"`{op.mnemonic}` is missing operand {slot}"

inductive DeclarationFault where
  | resourceDimension (raw : Nat)
  | resourceReturnType
  | constantBuffer
  | samplerMode (raw : Nat)
  | outputTopology (raw : Nat)
  | inputPrimitive (raw : Nat)
  | interpolationMode (raw : Nat)
  | systemValue (raw : Nat)
  | tessDomain (raw : Nat)
  | tessPartitioning (raw : Nat)
  | tessOutputPrimitive (raw : Nat)
  | uavDimension (raw : Nat)
  | uavReturnType
  | dynamicRegister
  | outsideHull (op : Opcode)
  | notDeclaration (op : Opcode)
  | notInstruction (op : Opcode)
  deriving DecidableEq, Repr

def DeclarationFault.message : DeclarationFault → String
  | resourceDimension raw => s!"resource dimension {raw}"
  | resourceReturnType => "resource return type"
  | constantBuffer => "constant buffer needs a static slot and size"
  | samplerMode raw => s!"sampler mode {raw}"
  | outputTopology raw => s!"output topology {raw}"
  | inputPrimitive raw => s!"input primitive {raw}"
  | interpolationMode raw => s!"interpolation mode {raw}"
  | systemValue raw => s!"system value {raw}"
  | tessDomain raw => s!"tessellator domain {raw}"
  | tessPartitioning raw => s!"tessellator partitioning {raw}"
  | tessOutputPrimitive raw => s!"tessellator output primitive {raw}"
  | uavDimension raw => s!"uav dimension {raw}"
  | uavReturnType => "uav return type"
  | dynamicRegister => "declaration operand needs a static register"
  | outsideHull op => s!"`{op.mnemonic}` outside of a hull shader"
  | notDeclaration op => s!"`{op.mnemonic}` is not a declaration"
  | notInstruction op => s!"`{op.mnemonic}` decoded as an instruction"

inductive ContainerFault where
  | shortHeader (needed found : Nat)
  | badMagic
  | totalSize (total found : Nat)
  | tooManyChunks (count limit : Nat)
  | chunkInHeader (chunk offset : Nat)
  | chunkOverrun (chunk length : Nat)
  | noShader
  | partialWord (fourCC : String) (length : Nat)
  | pastEnd (what : String)
  | textOutside (what : String)
  | unterminated (what : String)
  | notUtf8 (what : String)
  | tableOverrun (what : String) (tableEnd length : Nat)
  deriving DecidableEq, Repr

def ContainerFault.message : ContainerFault → String
  | shortHeader needed found => s!"need {needed} header bytes, got {found}"
  | badMagic => "bad magic"
  | totalSize total found => s!"total size {total} does not fit the {found} input bytes"
  | tooManyChunks count limit => s!"{count} chunks exceeds the limit of {limit}"
  | chunkInHeader chunk offset => s!"chunk {chunk} offset {offset} points into the header"
  | chunkOverrun chunk length =>
    s!"chunk {chunk} payload of {length} bytes overruns the container"
  | noShader => "no SHDR or SHEX chunk"
  | partialWord fourCC length =>
    s!"{fourCC} payload is {length} bytes, not a whole number of dwords"
  | pastEnd what => s!"{what} is past the end of the chunk"
  | textOutside what => s!"{what} offset is outside the chunk"
  | unterminated what => s!"{what} is not null-terminated"
  | notUtf8 what => s!"{what} is not UTF-8"
  | tableOverrun what tableEnd length =>
    s!"{what} table ends past the chunk ({tableEnd} > {length})"

inductive DecodeCause where
  | endOfStream
  | header (fault : HeaderFault)
  | unknownOpcode (raw : Nat)
  | operand (fault : OperandFault)
  | lengthMismatch (declared consumed : Nat)
  | tooManyOperands (max : Nat)
  | declaration (fault : DeclarationFault)
  | container (fault : ContainerFault)
  deriving DecidableEq, Repr

def DecodeCause.message : DecodeCause → String
  | endOfStream => "unexpected end of token stream"
  | header fault => "invalid program header: " ++ fault.message
  | unknownOpcode raw => "unknown opcode " ++ hexText raw
  | operand fault => "malformed operand: " ++ fault.message
  | lengthMismatch declared consumed =>
    s!"instruction declares {declared} dwords but {consumed} are available or consumed"
  | tooManyOperands max => s!"instruction has more than {max} operands"
  | declaration fault => "malformed declaration: " ++ fault.message
  | container fault => "malformed container: " ++ fault.message

structure DecodeError where
  position : Nat
  cause    : DecodeCause
  deriving DecidableEq, Repr

def DecodeError.message (e : DecodeError) : String :=
  s!"at dword {e.position}: " ++ e.cause.message

end ShaderLift
