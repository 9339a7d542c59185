import ShaderLift.Word

/-!
The instruction set: for each opcode its number in the token stream, its mnemonic, how the rest of
its token is read, and how many operands it takes.
-/

namespace ShaderLift

inductive OpcodeClass where
  -- `dcl_*`, `hs_decls` and custom data.
  | declaration
  -- Operands only, with the saturate bit and the precise mask.
  | alu
  -- One bit says whether the tested value has to be zero.
  | conditional
  -- Extended tokens may carry texel offsets, a dimension and return types.
  | sample
  | resInfo
  | sampleInfo
  | sync
  -- A function index precedes the operand.
  | interfaceCall
  | flow
  | phaseMarker
  deriving DecidableEq, Repr

inductive Opcode where
  | add | and | breakOut | breakIf | call | callIf | caseLabel | continueLoop | continueIf | cut
  | defaultLabel | derivRtx | derivRty | discard | div | dp2 | dp3 | dp4 | orElse | emit
  | emitThenCut | endIf | endLoop | endSwitch | eq | exp | frc | ftoi | ftou | ge | iadd | beginIf
  | ieq | ige | ilt | imad | imax | imin | imul | ine | ineg | ishl | ishr | itof | label | ld
  | ldMs | log | beginLoop | lt | mad | min | max | customData | mov | movc | mul | ne | nop | not
  | or | resInfo | ret | retIf | roundNe | roundNi | roundPi | roundZ | rsq | sample | sampleC
  | sampleCLz | sampleL | sampleD | sampleB | sqrt | beginSwitch | sinCos | udiv | ult | uge
  | umul | umad | umax | umin | ushr | utof | xor | dclResource | dclConstantBuffer | dclSampler
  | dclIndexRange | dclGsOutputPrimitiveTopology | dclGsInputPrimitive | dclMaxOutputVertexCount
  | dclInput | dclInputSgv | dclInputSiv | dclInputPs | dclInputPsSgv | dclInputPsSiv | dclOutput
  | dclOutputSgv | dclOutputSiv | dclTemps | dclIndexableTemp | dclGlobalFlags | lod | gather4
  | samplePos | sampleInfo | hsDecls | hsControlPointPhase | hsForkPhase | hsJoinPhase
  | emitStream | cutStream | emitThenCutStream | interfaceCall | bufInfo | derivRtxCoarse
  | derivRtxFine | derivRtyCoarse | derivRtyFine | gather4C | gather4Po | gather4PoC | rcp
  | f32ToF16 | f16ToF32 | uaddc | usubb | countBits | firstBitHi | firstBitLo | firstBitShi | ubfe
  | ibfe | bfi | bfrev | swapc | dclStream | dclFunctionBody | dclFunctionTable | dclInterface
  | dclInputControlPointCount | dclOutputControlPointCount | dclTessDomain | dclTessPartitioning
  | dclTessOutputPrimitive | dclHsMaxTessFactor | dclHsForkPhaseInstanceCount
  | dclHsJoinPhaseInstanceCount | dclThreadGroup | dclUavTyped | dclUavRaw | dclUavStructured
  | dclTgsmRaw | dclTgsmStructured | dclResourceRaw | dclResourceStructured | ldUavTyped
  | storeUavTyped | ldRaw | storeRaw | ldStructured | storeStructured | atomicAnd | atomicOr
  | atomicXor | atomicCmpStore | atomicIadd | atomicImax | atomicImin | atomicUmax | atomicUmin
  | immAtomicAlloc | immAtomicConsume | immAtomicIadd | immAtomicAnd | immAtomicOr | immAtomicXor
  | immAtomicExch | immAtomicCmpExch | immAtomicImax | immAtomicImin | immAtomicUmax
  | immAtomicUmin | sync | dadd | dmax | dmin | dmul | deq | dge | dlt | dne | dmov | dmovc | dtof
  | ftod | evalSnapped | evalSampleIndex | evalCentroid | dclGsInstanceCount | abort | debugBreak
  | ddiv | dfma | drcp | msad | dtoi | dtou | itod | utod
  deriving DecidableEq, Repr

namespace Opcode

structure Entry where
  raw      : Nat
  mnemonic : String
  kind     : OpcodeClass
  -- Destinations included; the words of a declaration are not all operands.
  operands : Option Nat

def entry : Opcode → Entry
  | add => ⟨0, "add", .alu, some 3⟩
  | and => ⟨1, "and", .alu, some 3⟩
  | breakOut => ⟨2, "break", .flow, some 0⟩
  | breakIf => ⟨3, "breakc", .conditional, some 1⟩
  | call => ⟨4, "call", .flow, some 1⟩
  | callIf => ⟨5, "callc", .conditional, some 2⟩
  | caseLabel => ⟨6, "case", .flow, some 1⟩
  | continueLoop => ⟨7, "continue", .flow, some 0⟩
  | continueIf => ⟨8, "continuec", .conditional, some 1⟩
  | cut => ⟨9, "cut", .flow, some 0⟩
  | defaultLabel => ⟨10, "default", .flow, some 0⟩
  | derivRtx => ⟨11, "deriv_rtx", .alu, some 2⟩
  | derivRty => ⟨12, "deriv_rty", .alu, some 2⟩
  | discard => ⟨13, "discard", .conditional, some 1⟩
  | div => ⟨14, "div", .alu, some 3⟩
  | dp2 => ⟨15, "dp2", .alu, some 3⟩
  | dp3 => ⟨16, "dp3", .alu, some 3⟩
  | dp4 => ⟨17, "dp4", .alu, some 3⟩
  | orElse => ⟨18, "else", .flow, some 0⟩
  | emit => ⟨19, "emit", .flow, some 0⟩
  | emitThenCut => ⟨20, "emit_then_cut", .flow, some 0⟩
  | endIf => ⟨21, "endif", .flow, some 0⟩
  | endLoop => ⟨22, "endloop", .flow, some 0⟩
  | endSwitch => ⟨23, "endswitch", .flow, some 0⟩
  | eq => ⟨24, "eq", .alu, some 3⟩
  | exp => ⟨25, "exp", .alu, some 2⟩
  | frc => ⟨26, "frc", .alu, some 2⟩
  | ftoi => ⟨27, "ftoi", .alu, some 2⟩
  | ftou => ⟨28, "ftou", .alu, some 2⟩
  | ge => ⟨29, "ge", .alu, some 3⟩
  | iadd => ⟨30, "iadd", .alu, some 3⟩
  | beginIf => ⟨31, "if", .conditional, some 1⟩
  | ieq => ⟨32, "ieq", .alu, some 3⟩
  | ige => ⟨33, "ige", .alu, some 3⟩
  | ilt => ⟨34, "ilt", .alu, some 3⟩
  | imad => ⟨35, "imad", .alu, some 4⟩
  | imax => ⟨36, "imax", .alu, some 3⟩
  | imin => ⟨37, "imin", .alu, some 3⟩
  | imul => ⟨38, "imul", .alu, some 4⟩
  | ine => ⟨39, "ine", .alu, some 3⟩
  | ineg => ⟨40, "ineg", .alu, some 2⟩
  | ishl => ⟨41, "ishl", .alu, some 3⟩
  | ishr => ⟨42, "ishr", .alu, some 3⟩
  | itof => ⟨43, "itof", .alu, some 2⟩
  | label => ⟨44, "label", .flow, some 1⟩
  | ld => ⟨45, "ld", .sample, some 3⟩
  | ldMs => ⟨46, "ld_ms", .sample, some 4⟩
  | log => ⟨47, "log", .alu, some 2⟩
  | beginLoop => ⟨48, "loop", .flow, some 0⟩
  | lt => ⟨49, "lt", .alu, some 3⟩
  | mad => ⟨50, "mad", .alu, some 4⟩
  | min => ⟨51, "min", .alu, some 3⟩
  | max => ⟨52, "max", .alu, some 3⟩
  | customData => ⟨53, "customdata", .declaration, none⟩
  | mov => ⟨54, "mov", .alu, some 2⟩
  | movc => ⟨55, "movc", .alu, some 4⟩
  | mul => ⟨56, "mul", .alu, some 3⟩
  | ne => ⟨57, "ne", .alu, some 3⟩
  | nop => ⟨58, "nop", .flow, some 0⟩
  | not => ⟨59, "not", .alu, some 2⟩
  | or => ⟨60, "or", .alu, some 3⟩
  | resInfo => ⟨61, "resinfo", .resInfo, some 3⟩
  | ret => ⟨62, "ret", .flow, some 0⟩
  | retIf => ⟨63, "retc", .conditional, some 1⟩
  | roundNe => ⟨64, "round_ne", .alu, some 2⟩
  | roundNi => ⟨65, "round_ni", .alu, some 2⟩
  | roundPi => ⟨66, "round_pi", .alu, some 2⟩
  | roundZ => ⟨67, "round_z", .alu, some 2⟩
  | rsq => ⟨68, "rsq", .alu, some 2⟩
  | sample => ⟨69, "sample", .sample, some 4⟩
  | sampleC => ⟨70, "sample_c", .sample, some 5⟩
  | sampleCLz => ⟨71, "sample_c_lz", .sample, some 5⟩
  | sampleL => ⟨72, "sample_l", .sample, some 5⟩
  | sampleD => ⟨73, "sample_d", .sample, some 6⟩
  | sampleB => ⟨74, "sample_b", .sample, some 5⟩
  | sqrt => ⟨75, "sqrt", .alu, some 2⟩
  | beginSwitch => ⟨76, "switch", .flow, some 1⟩
  | sinCos => ⟨77, "sincos", .alu, some 3⟩
  | udiv => ⟨78, "udiv", .alu, some 4⟩
  | ult => ⟨79, "ult", .alu, some 3⟩
  | uge => ⟨80, "uge", .alu, some 3⟩
  | umul => ⟨81, "umul", .alu, some 4⟩
  | umad => ⟨82, "umad", .alu, some 4⟩
  | umax => ⟨83, "umax", .alu, some 3⟩
  | umin => ⟨84, "umin", .alu, some 3⟩
  | ushr => ⟨85, "ushr", .alu, some 3⟩
  | utof => ⟨86, "utof", .alu, some 2⟩
  | xor => ⟨87, "xor", .alu, some 3⟩
  | dclResource => ⟨88, "dcl_resource", .declaration, none⟩
  | dclConstantBuffer => ⟨89, "dcl_constantbuffer", .declaration, none⟩
  | dclSampler => ⟨90, "dcl_sampler", .declaration, none⟩
  | dclIndexRange => ⟨91, "dcl_indexrange", .declaration, none⟩
  | dclGsOutputPrimitiveTopology => ⟨92, "dcl_outputtopology", .declaration, none⟩
  | dclGsInputPrimitive => ⟨93, "dcl_inputprimitive", .declaration, none⟩
  | dclMaxOutputVertexCount => ⟨94, "dcl_maxout", .declaration, none⟩
  | dclInput => ⟨95, "dcl_input", .declaration, none⟩
  | dclInputSgv => ⟨96, "dcl_input_sgv", .declaration, none⟩
  | dclInputSiv => ⟨97, "dcl_input_siv", .declaration, none⟩
  | dclInputPs => ⟨98, "dcl_input_ps", .declaration, none⟩
  | dclInputPsSgv => ⟨99, "dcl_input_ps_sgv", .declaration, none⟩
  | dclInputPsSiv => ⟨100, "dcl_input_ps_siv", .declaration, none⟩
  | dclOutput => ⟨101, "dcl_output", .declaration, none⟩
  | dclOutputSgv => ⟨102, "dcl_output_sgv", .declaration, none⟩
  | dclOutputSiv => ⟨103, "dcl_output_siv", .declaration, none⟩
  | dclTemps => ⟨104, "dcl_temps", .declaration, none⟩
  | dclIndexableTemp => ⟨105, "dcl_indexabletemp", .declaration, none⟩
  | dclGlobalFlags => ⟨106, "dcl_globalflags", .declaration, none⟩
  | lod => ⟨108, "lod", .sample, some 4⟩
  | gather4 => ⟨109, "gather4", .sample, some 4⟩
  | samplePos => ⟨110, "samplepos", .sampleInfo, some 3⟩
  | sampleInfo => ⟨111, "sampleinfo", .sampleInfo, some 2⟩
  | hsDecls => ⟨113, "hs_decls", .declaration, none⟩
  | hsControlPointPhase => ⟨114, "hs_control_point_phase", .phaseMarker, some 0⟩
  | hsForkPhase => ⟨115, "hs_fork_phase", .phaseMarker, some 0⟩
  | hsJoinPhase => ⟨116, "hs_join_phase", .phaseMarker, some 0⟩
  | emitStream => ⟨117, "emit_stream", .flow, some 1⟩
  | cutStream => ⟨118, "cut_stream", .flow, some 1⟩
  | emitThenCutStream => ⟨119, "emit_then_cut_stream", .flow, some 1⟩
  | interfaceCall => ⟨120, "fcall", .interfaceCall, some 1⟩
  | bufInfo => ⟨121, "bufinfo", .alu, some 2⟩
  | derivRtxCoarse => ⟨122, "deriv_rtx_coarse", .alu, some 2⟩
  | derivRtxFine => ⟨123, "deriv_rtx_fine", .alu, some 2⟩
  | derivRtyCoarse => ⟨124, "deriv_rty_coarse", .alu, some 2⟩
  | derivRtyFine => ⟨125, "deriv_rty_fine", .alu, some 2⟩
  | gather4C => ⟨126, "gather4_c", .sample, some 5⟩
  | gather4Po => ⟨127, "gather4_po", .sample, some 5⟩
  | gather4PoC => ⟨128, "gather4_po_c", .sample, some 6⟩
  | rcp => ⟨129, "rcp", .alu, some 2⟩
  | f32ToF16 => ⟨130, "f32tof16", .alu, some 2⟩
  | f16ToF32 => ⟨131, "f16tof32", .alu, some 2⟩
  | uaddc => ⟨132, "uaddc", .alu, some 4⟩
  | usubb => ⟨133, "usubb", .alu, some 4⟩
  | countBits => ⟨134, "countbits", .alu, some 2⟩
  | firstBitHi => ⟨135, "firstbit_hi", .alu, some 2⟩
  | firstBitLo => ⟨136, "firstbit_lo", .alu, some 2⟩
  | firstBitShi => ⟨137, "firstbit_shi", .alu, some 2⟩
  | ubfe => ⟨138, "ubfe", .alu, some 4⟩
  | ibfe => ⟨139, "ibfe", .alu, some 4⟩
  | bfi => ⟨140, "bfi", .alu, some 5⟩
  | bfrev => ⟨141, "bfrev", .alu, some 2⟩
  | swapc => ⟨142, "swapc", .alu, some 5⟩
  | dclStream => ⟨143, "dcl_stream", .declaration, none⟩
  | dclFunctionBody => ⟨144, "dcl_function_body", .declaration, none⟩
  | dclFunctionTable => ⟨145, "dcl_function_table", .declaration, none⟩
  | dclInterface => ⟨146, "dcl_interface", .declaration, none⟩
  | dclInputControlPointCount => ⟨147, "dcl_input_control_point_count", .declaration, none⟩
  | dclOutputControlPointCount => ⟨148, "dcl_output_control_point_count", .declaration, none⟩
  | dclTessDomain => ⟨149, "dcl_tessellator_domain", .declaration, none⟩
  | dclTessPartitioning => ⟨150, "dcl_tessellator_partitioning", .declaration, none⟩
  | dclTessOutputPrimitive => ⟨151, "dcl_tessellator_output_primitive", .declaration, none⟩
  | dclHsMaxTessFactor => ⟨152, "dcl_hs_max_tessfactor", .declaration, none⟩
  | dclHsForkPhaseInstanceCount => ⟨153, "dcl_hs_fork_phase_instance_count", .declaration, none⟩
  | dclHsJoinPhaseInstanceCount => ⟨154, "dcl_hs_join_phase_instance_count", .declaration, none⟩
  | dclThreadGroup => ⟨155, "dcl_thread_group", .declaration, none⟩
  | dclUavTyped => ⟨156, "dcl_uav_typed", .declaration, none⟩
  | dclUavRaw => ⟨157, "dcl_uav_raw", .declaration, none⟩
  | dclUavStructured => ⟨158, "dcl_uav_structured", .declaration, none⟩
  | dclTgsmRaw => ⟨159, "dcl_tgsm_raw", .declaration, none⟩
  | dclTgsmStructured => ⟨160, "dcl_tgsm_structured", .declaration, none⟩
  | dclResourceRaw => ⟨161, "dcl_resource_raw", .declaration, none⟩
  | dclResourceStructured => ⟨162, "dcl_resource_structured", .declaration, none⟩
  | ldUavTyped => ⟨163, "ld_uav_typed", .sample, some 3⟩
  | storeUavTyped => ⟨164, "store_uav_typed", .alu, some 3⟩
  | ldRaw => ⟨165, "ld_raw", .sample, some 3⟩
  | storeRaw => ⟨166, "store_raw", .alu, some 3⟩
  | ldStructured => ⟨167, "ld_structured", .sample, some 4⟩
  | storeStructured => ⟨168, "store_structured", .alu, some 4⟩
  | atomicAnd => ⟨169, "atomic_and", .alu, some 3⟩
  | atomicOr => ⟨170, "atomic_or", .alu, some 3⟩
  | atomicXor => ⟨171, "atomic_xor", .alu, some 3⟩
  | atomicCmpStore => ⟨172, "atomic_cmp_store", .alu, some 4⟩
  | atomicIadd => ⟨173, "atomic_iadd", .alu, some 3⟩
  | atomicImax => ⟨174, "atomic_imax", .alu, some 3⟩
  | atomicImin => ⟨175, "atomic_imin", .alu, some 3⟩
  | atomicUmax => ⟨176, "atomic_umax", .alu, some 3⟩
  | atomicUmin => ⟨177, "atomic_umin", .alu, some 3⟩
  | immAtomicAlloc => ⟨178, "imm_atomic_alloc", .alu, some 2⟩
  | immAtomicConsume => ⟨179, "imm_atomic_consume", .alu, some 2⟩
  | immAtomicIadd => ⟨180, "imm_atomic_iadd", .alu, some 4⟩
  | immAtomicAnd => ⟨181, "imm_atomic_and", .alu, some 4⟩
  | immAtomicOr => ⟨182, "imm_atomic_or", .alu, some 4⟩
  | immAtomicXor => ⟨183, "imm_atomic_xor", .alu, some 4⟩
  | immAtomicExch => ⟨184, "imm_atomic_exch", .alu, some 4⟩
  | immAtomicCmpExch => ⟨185, "imm_atomic_cmp_exch", .alu, some 5⟩
  | immAtomicImax => ⟨186, "imm_atomic_imax", .alu, some 4⟩
  | immAtomicImin => ⟨187, "imm_atomic_imin", .alu, some 4⟩
  | immAtomicUmax => ⟨188, "imm_atomic_umax", .alu, some 4⟩
  | immAtomicUmin => ⟨189, "imm_atomic_umin", .alu, some 4⟩
  | sync => ⟨190, "sync", .sync, some 0⟩
  | dadd => ⟨191, "dadd", .alu, some 3⟩
  | dmax => ⟨192, "dmax", .alu, some 3⟩
  | dmin => ⟨193, "dmin", .alu, some 3⟩
  | dmul => ⟨194, "dmul", .alu, some 3⟩
  | deq => ⟨195, "deq", .alu, some 3⟩
  | dge => ⟨196, "dge", .alu, some 3⟩
  | dlt => ⟨197, "dlt", .alu, some 3⟩
  | dne => ⟨198, "dne", .alu, some 3⟩
  | dmov => ⟨199, "dmov", .alu, some 2⟩
  | dmovc => ⟨200, "dmovc", .alu, some 4⟩
  | dtof => ⟨201, "dtof", .alu, some 2⟩
  | ftod => ⟨202, "ftod", .alu, some 2⟩
  | evalSnapped => ⟨203, "eval_snapped", .alu, some 3⟩
  | evalSampleIndex => ⟨204, "eval_sample_index", .alu, some 3⟩
  | evalCentroid => ⟨205, "eval_centroid", .alu, some 2⟩
  | dclGsInstanceCount => ⟨206, "dcl_gsinstances", .declaration, none⟩
  | abort => ⟨207, "abort", .flow, some 0⟩
  | debugBreak => ⟨208, "debug_break", .flow, some 0⟩
  | ddiv => ⟨210, "ddiv", .alu, some 3⟩
  | dfma => ⟨211, "dfma", .alu, some 4⟩
  | drcp => ⟨212, "drcp", .alu, some 2⟩
  | msad => ⟨213, "msad", .alu, some 4⟩
  | dtoi => ⟨214, "dtoi", .alu, some 2⟩
  | dtou => ⟨215, "dtou", .alu, some 2⟩
  | itod => ⟨216, "itod", .alu, some 2⟩
  | utod => ⟨217, "utod", .alu, some 2⟩

def all : List Opcode :=
  (List.range 215).map ofNat

theorem mem_all (op : Opcode) : op ∈ all := by
  refine List.mem_map.mpr ⟨op.ctorIdx, List.mem_range.mpr ?_, op.ofNat_ctorIdx⟩
  cases op <;> exact Nat.le_of_ble_eq_true rfl

def raw (op : Opcode) : Nat :=
  op.entry.raw

def mnemonic (op : Opcode) : String :=
  op.entry.mnemonic

def kind (op : Opcode) : OpcodeClass :=
  op.entry.kind

def operandCount (op : Opcode) : Option Nat :=
  op.entry.operands

def isDeclaration (op : Opcode) : Bool :=
  op.kind = .declaration

def ofRaw? (raw : Nat) : Option Opcode :=
  all.find? (·.raw = raw)

theorem ofRaw?_raw (op : Opcode) : ofRaw? op.raw = some op :=
  have h : ∀ op ∈ all, ofRaw? op.raw = some op := by decide +kernel
  h op op.mem_all

end Opcode

end ShaderLift
