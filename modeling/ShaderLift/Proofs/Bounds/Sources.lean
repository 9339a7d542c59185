import ShaderLift.Proofs.Bounds.Stays
import ShaderLift.Proofs.Decode.WellFormed
import ShaderLift.Proofs.Glsl.Subscripts
import ShaderLift.Proofs.Lift.Sources

/-!
Operands that stay in range. Indices name operands that stand before the one they belong to, so that
reading one ends before it runs out of operands. What is read subscripts register files by the
indices of operands only.
-/

namespace ShaderLift

open Glsl

theorem Dialect.inRange_require {o : Options} {d : Dialect} {f : Feature} {index : Option Nat} :
    o.InRange (d.require f index) := by
  unfold require requireAll
  cases f.needs
  case none => exact trivial
  case some cs => exact .ite (fun _ => .pure trivial) fun _ => trivial

namespace Program

-- A program all of whose operands are there, each before those whose indices name it.
structure Closed (p : Program) : Prop where
  counts       : ∀ inst ∈ p.instructions, inst.opcode.operandCount = some inst.operands.length
  instructions : ∀ inst ∈ p.instructions, ∀ id ∈ inst.operands, id < p.operands.size
  declarations : ∀ decl ∈ p.declarations, ∀ id ∈ decl.declared.references, id < p.operands.size
  descends     : ∀ (id : OperandId) op, p.operands[id]? = some op → ∀ id' ∈ op.relatives, id' < id

structure Holds (p : Program) (inst : Instruction) : Prop extends p.Closed where
  mem : inst ∈ p.instructions

variable {p : Program} {id : OperandId} {inst : Instruction} {o : Options}

theorem Holds.le (h : p.Holds inst) {op : Opcode} {n : Nat} (hop : inst.opcode = op)
    (hn : op.operandCount.any (n ≤ ·)) : n ≤ inst.operands.length := by
  rw [← hop, h.counts inst h.mem] at hn
  exact of_decide_eq_true hn

theorem Closed.relative_lt (h : p.Closed) {op : Operand} (hop : p.operands[id]? = some op)
    {id' : OperandId} (hid : id' ∈ op.relatives) : id' < id ∧ id' < p.operands.size :=
  have hlt := h.descends id op hop id' hid
  ⟨hlt, hlt.trans (Array.getElem?_eq_some_iff.mp hop).1⟩

theorem mem_relatives {op : Operand} {index : Index} {id' : OperandId} (hi : index ∈ op.indices)
    (hr : index.relative? = some id') : id' ∈ op.relatives :=
  List.mem_flatMap.mpr ⟨index, hi, Option.mem_toList.mpr hr⟩

theorem Closed.lt_size (h : p.Closed) (hid : p.Reaches id) : id < p.operands.size := by
  cases hid
  case arg inst hinst hid => exact h.instructions inst hinst id hid
  case index hop hi hr => exact (h.relative_lt hop (mem_relatives hi hr)).right

theorem stays_operand (h : id < p.operands.size) :
    o.Stays (fun op => p.operands[id]? = some op) (p.operand id) := by
  unfold operand
  rw [Array.getElem?_eq_getElem h]
  exact .pure rfl

theorem inRange_naturalType {d : Dialect} {temps : TempTypes} (h : id < p.operands.size) :
    o.InRange (p.naturalType d temps id) :=
  .bind (stays_operand h) fun _ _ => .ite (fun _ => .pure trivial) fun _ => .pure trivial

end Program

-- The file in which an operand names a register.
def Operand.file? (stage : Stage) (scope : Scope) (op : Operand) : Option RegisterFile :=
  match op.register with
  | .input => if stage = .hull ∨ stage = .domain then some .inputPoints else some .inputs
  | .inputControlPoint => if stage = .hull ∨ stage = .domain then some .inputPoints else none
  | .outputControlPoint => if stage = .hull then some .outputPoints else none
  | .inputPatchConstant =>
    if stage = .hull then some .patchOutputs
    else if stage = .domain then some .patchInputs
    else none
  | .output => if scope = .fork ∨ scope = .join then some .patchOutputs else some .outputs
  | _ => none

-- An operand that names a register of a vertex by two indices.
def Operand.PerVertex (stage : Stage) (op : Operand) : Prop :=
  2 ≤ op.indices.length ∧
    match op.register with
    | .input => stage = .geometry ∨ stage = .hull ∨ stage = .domain
    | .inputControlPoint | .outputControlPoint => True
    | _ => False

theorem Quad.get_mem_toList {α : Type} {q : Quad α} {i : Nat} : q.get i ∈ q.toList := by
  unfold get toList
  split <;> simp

-- The words of an immediate.
def Immediate.parts : Immediate → List UInt32
  | words lanes _ => lanes.toList
  | longs xy zw _ => [Word.low xy, Word.high xy, Word.low zw, Word.high zw]

-- What an operand holds may be known as its text is written: the words of an immediate, and the
-- zero that stands for a constant between two variables.
inductive Program.Knows (p : Program) (id : OperandId) : UInt32 → Prop
  | immediate {op i k} (operand : p.operands[id]? = some op) (value : op.immediate = some i)
      (mem : k ∈ i.parts) : Knows p id k
  | padding {op} (operand : p.operands[id]? = some op) (kind : op.register = .constantBuffer) :
      Knows p id 0

-- How many registers of a file belong to one vertex.
def FileSizes.stride (s : FileSizes) : RegisterFile → UInt32
  | .inputs | .inputPoints => s.inputs
  | .outputs | .outputPoints => s.outputs
  | .patchInputs | .patchOutputs => s.patch

-- Where the numbers that subscript register files come from: the first index of an operand, or the
-- first two of one that names a register of a vertex.
inductive Accesses (p : Program) (sizes : FileSizes) (scope : Scope) : RegisterFile → UInt32 → Prop
  | element {op file k} (used : p.Uses op) (named : op.file? p.stage scope = some file)
      (flat : ¬op.PerVertex p.stage) (first : op.indices[0]? = some (.imm k)) :
      Accesses p sizes scope file k
  | relative {op id file k} (used : p.Uses op) (named : op.file? p.stage scope = some file)
      (flat : ¬op.PerVertex p.stage) (first : op.indices[0]? = some (.relative id))
      (known : p.Knows id k) : Accesses p sizes scope file k
  | vertex {op file outer inner} (used : p.Uses op) (named : op.file? p.stage scope = some file)
      (perVertex : op.PerVertex p.stage) (first : op.indices[0]? = some (.imm outer))
      (second : op.indices[1]? = some (.imm inner)) :
      Accesses p sizes scope file (outer * sizes.stride file + inner)

namespace Context

abbrev Stays (c : Context) {α : Type} (P : α → Prop) (x : Except LiftError α) : Prop :=
  c.options.Stays P x

abbrev InRange (c : Context) {α : Type} (x : Except LiftError α) : Prop :=
  c.options.InRange x

-- The same while functions are written.
abbrev Emits (c : Context) {α : Type} (P : α → Prop) (x : Emit α) : Prop :=
  Emit.Ends (c.options.Excuses False) P x

abbrev accesses (c : Context) : RegisterFile → UInt32 → Prop :=
  Accesses c.program c.sizes c.scope

abbrev Admits (c : Context) (e : Expr) : Prop :=
  e.Subscripts c.accesses

-- What lanes of an operand may be read as.
def Yields (c : Context) (id : OperandId) (lanes : List Nat) (e : Expr) : Prop :=
  c.Admits e ∧ ∀ k, lanes.length = 1 → e = .number k → c.program.Knows id k

-- The same for an operand inside of an index, of which one lane is read.
abbrev YieldsIndex (c : Context) (id : OperandId) (e : Expr) : Prop :=
  c.Yields id [0] e

variable {c : Context} {op : Operand} {id : OperandId} {inst : Instruction}

theorem stays_orUnresolved {α : Type} {o : Option α} {what : Unresolved} :
    c.Stays (fun a => o = some a) (c.orUnresolved what o) := by
  cases o
  case none => exact trivial
  case some => exact rfl

theorem stays_orUnsupported {α : Type} {o : Option α} {reason : Unsupported} :
    c.Stays (fun a => o = some a) (c.orUnsupported reason o) := by
  cases o
  case none => exact trivial
  case some => exact rfl

theorem inRange_require {f : Feature} : c.InRange (c.require f) :=
  Dialect.inRange_require

theorem stays_immediateWord {component : Nat} :
    c.Stays (fun word => ∃ i, op.immediate = some i ∧ word ∈ i.parts)
      (c.immediateWord op component) := by
  unfold immediateWord
  cases op.immediate
  case none => exact trivial
  case some immediate =>
    refine Ends.mono (P := (· ∈ immediate.parts)) ?_ fun _ h => ⟨immediate, rfl, h⟩
    cases immediate
    case words lanes count =>
      refine .pure ?_
      split
      case isTrue => exact Quad.get_mem_toList
      case isFalse => exact List.mem_cons_self
    case longs =>
      refine .bind inRange_require fun _ _ => .pure ?_
      split_ifs <;> simp [Immediate.parts]

theorem inRange_constantBuffer : c.InRange (c.constantBuffer op) :=
  .bind stays_orUnresolved fun _ _ => stays_orUnresolved.inRange

variable {A : RegisterFile → UInt32 → Prop} {nested : OperandId → Except LiftError Expr}

-- A vector is no number unless it has one lane, which is the number.
theorem number_mem_of_construct {values : List Expr} {want : ValueType} {k : UInt32}
    (hl : values.length = 1) (h : c.construct want values = .number k) : .number k ∈ values := by
  match values with
  | [e] => exact List.mem_singleton.mpr h.symm

-- Of named constants only those between two variables are numbers.
theorem stays_namedConstants {slot : UInt32} {ms : List Member} {components : List Nat}
    {want : ValueType} :
    c.Stays (fun e => e.Subscripts A ∧ ∀ k, components.length = 1 → e = .number k → k = 0)
      (c.namedConstants slot ms op components want) := by
  let Fixed (e : Expr) : Prop := e.Subscripts A ∧ ∀ k, e = .number k → k = 0
  refine .bind stays_orUnresolved fun register _ => ?_
  refine .bind (.mapM (R := Fixed) fun component _ => ?_) fun values ⟨hlength, hlanes⟩ =>
    .pure ⟨subscripts_construct fun e he => (hlanes e he).left, fun k hl hk => ?_⟩
  case refine_2 =>
    exact (hlanes _ (number_mem_of_construct (hlength.trans hl) hk)).right k rfl
  refine .bind Options.inRange_requireWords fun _ _ => ?_
  cases h : Member.laneAt c.dialect ms register component
  case uncovered => exact trivial
  case value e _ =>
    -- A subscript of a register file has a bound to keep, and members are no register files.
    have hplain : (e.Subscripts A ∧ ∀ file, e ≠ .var (.file file)) ∧ ∀ k, e ≠ .number k := by
      apply Member.of_laneAt h
      all_goals simp +contextual [Expr.number, Expr.int]
    exact .pure ⟨subscripts_cast.mpr hplain.left.left,
      fun k hk => absurd (eq_number_of_cast hk) (hplain.right k)⟩
  case padding => exact .pure ⟨subscripts_zero, fun k hk => eq_zero_of_zero_eq_number hk⟩

section Nested

variable {nested : OperandId → Except LiftError Expr}

theorem stays_indexExpr {index : Index}
    (hn : ∀ id, index.relative? = some id → c.Stays (c.YieldsIndex id) (nested id)) :
    c.Stays (fun e => c.Admits e ∧ ∀ k, e = .number k →
      index = .imm k ∨ ∃ id, index = .relative id ∧ c.program.Knows id k)
      (c.indexExpr nested index) := by
  cases index
  case imm =>
    refine .pure ⟨Expr.subscripts_number, fun k hk => .inl ?_⟩
    rw [Expr.number_inj hk]
  case relative id =>
    exact (hn id rfl).mono fun _ ⟨he, hk⟩ => ⟨he, fun k h => .inr ⟨id, rfl, hk k rfl h⟩⟩
  case immRelative id => exact .bind (hn id rfl) fun _ ⟨he, _⟩ => .pure ⟨by simp [he], nofun⟩
  case wide => exact .bind inRange_require fun _ _ => .pure ⟨by simp, nofun⟩
  case wideRelative id =>
    exact .bind inRange_require fun _ _ => .bind (hn id rfl) fun _ ⟨he, _⟩ =>
      .pure ⟨by simp [he], nofun⟩

variable (hn : ∀ id ∈ op.relatives, c.Stays (c.YieldsIndex id) (nested id))

include hn

theorem stays_element {name : Name} {i : Nat}
    (hname : ∀ file index k, name = .file file → op.indices[i]? = some index →
      (index = .imm k ∨ ∃ id, index = .relative id ∧ c.program.Knows id k) → c.accesses file k) :
    c.Stays (fun e => c.Admits e ∧ ∀ k, e ≠ .number k) (c.element nested name op i) := by
  refine .bind stays_orUnsupported fun index hi => ?_
  have hi' := List.mem_of_getElem? hi
  refine .bind (stays_indexExpr fun id hr => hn id (Program.mem_relatives hi' hr))
    fun e ⟨he, hs⟩ => .pure ⟨⟨fun file k hfile hk => ?_, trivial, he⟩, nofun⟩
  exact hname file index k (Expr.var.inj hfile) hi (hs k hk)

-- Only if both indices are numbers, so is the place.
theorem stays_flatIndex {stride : UInt32} {outer inner : Index} (ho : outer ∈ op.indices)
    (hi : inner ∈ op.indices) :
    c.Stays (fun e => c.Admits e ∧ ∀ k, e = .number k →
      ∃ m n, outer = .imm m ∧ inner = .imm n ∧ k = m * stride + n)
      (c.flatIndex nested stride outer inner) := by
  have index {index : Index} (hi : index ∈ op.indices) :=
    stays_indexExpr (c := c) fun id hr => hn id (Program.mem_relatives hi hr)
  have static {index : Index} {n : UInt32} (h : index.static? = some n) : index = .imm n := by
    cases index <;> cases h
    rfl
  unfold flatIndex
  split
  case h_1 m n hm hn =>
    refine .bind Options.inRange_requireWords fun _ _ =>
      .pure ⟨Expr.subscripts_number, fun k hk => ?_⟩
    exact ⟨m, n, static hm, static hn, (Expr.number_inj hk).symm⟩
  case h_2 =>
    refine .bind (index ho) fun a ⟨ha, _⟩ => .bind (index hi) fun b ⟨hb, _⟩ => ?_
    exact .pure ⟨by simp [ha, hb], nofun⟩

theorem stays_vertexElement {file : RegisterFile} {stride : UInt32}
    (hfile : ∀ m n, op.indices[0]? = some (.imm m) → op.indices[1]? = some (.imm n) →
      c.accesses file (m * stride + n)) :
    c.Stays (fun e => c.Admits e ∧ ∀ k, e ≠ .number k) (c.vertexElement nested file stride op) := by
  refine .bind stays_orUnsupported fun outer ho => .bind stays_orUnsupported fun inner hi => ?_
  refine .bind (stays_flatIndex hn (List.mem_of_getElem? ho) (List.mem_of_getElem? hi))
    fun e ⟨he, hs⟩ => .pure ⟨⟨fun file' k h hk => ?_, trivial, he⟩, nofun⟩
  obtain ⟨m, n, rfl, rfl, rfl⟩ := hs k hk
  exact Name.file.inj (Expr.var.inj h) ▸ hfile m n ho hi

end Nested

theorem stays_base (hn : ∀ id ∈ op.relatives, c.Stays (c.YieldsIndex id) (nested id))
    (hop : c.program.Uses op) :
    c.Stays (fun b => c.Admits b.1 ∧ ∀ k, b.1 ≠ .number k) (c.base nested op) := by
  have array {name : Name} {i : Nat} (hname : ∀ file, name ≠ .file file) :
      c.Stays (fun e => c.Admits e ∧ ∀ k, e ≠ .number k) (c.element nested name op i) :=
    stays_element hn fun file _ _ hfile => absurd hfile (hname file)
  have element {file : RegisterFile} (hflat : ¬op.PerVertex c.stage)
      (hfile : op.file? c.stage c.scope = some file) :
      c.Stays (fun b => c.Admits b.1 ∧ ∀ k, b.1 ≠ .number k)
        (c.element nested (.file file) op 0 >>= fun e => pure (e, ValueType.float)) := by
    refine .bind (stays_element hn fun file' index k h hi hs => ?_) fun _ he => .pure he
    have hfile := Name.file.inj h ▸ hfile
    rcases hs with rfl | ⟨id, rfl, hknown⟩
    · exact .element hop hfile hflat hi
    · exact .relative hop hfile hflat hi hknown
  have vertexElement {file : RegisterFile} (hvertex : op.PerVertex c.stage)
      (hfile : op.file? c.stage c.scope = some file) :
      c.Stays (fun b => c.Admits b.1 ∧ ∀ k, b.1 ≠ .number k)
        (c.vertexElement nested file (c.sizes.stride file) op >>= fun e =>
          pure (e, ValueType.float)) :=
    .bind (stays_vertexElement hn fun _ _ ho hi => .vertex hop hfile hvertex ho hi) fun _ he =>
      .pure he
  unfold base
  dsimp only
  cases hk : op.register
  case temp => exact .bind stays_orUnsupported fun _ _ => .pure ⟨trivial, nofun⟩
  case indexableTemp =>
    refine .bind stays_orUnsupported fun _ _ => .bind stays_orUnsupported fun _ _ => ?_
    exact .bind (array nofun) fun _ he => .pure he
  case input =>
    cases hs : c.stage
    case geometry =>
      have hfile : op.file? c.stage c.scope = some .inputs := by simp [Operand.file?, hk, hs]
      refine .ite (fun hl => vertexElement ?_ hfile) fun hl => element ?_ hfile
      all_goals simpa [Operand.PerVertex, hk, hs] using hl
    case hull | domain =>
      have hfile : op.file? c.stage c.scope = some .inputPoints := by simp [Operand.file?, hk, hs]
      refine .ite (fun hl => vertexElement ?_ hfile) fun hl => element ?_ hfile
      all_goals simpa [Operand.PerVertex, hk, hs] using hl
    all_goals exact element (by simp [Operand.PerVertex, hk, hs]) (by simp [Operand.file?, hk, hs])
  case inputControlPoint =>
    refine .ite (fun ⟨hl, hs⟩ => ?_) fun _ => trivial
    exact vertexElement (by simpa [Operand.PerVertex, hk] using hl)
      (by simp [Operand.file?, hk, hs])
  case outputControlPoint =>
    refine .ite (fun hs => ?_) fun _ => trivial
    have hfile : op.file? c.stage c.scope = some .outputPoints := by simp [Operand.file?, hk, hs]
    refine .ite (fun hl => vertexElement ?_ hfile) fun hl => element ?_ hfile
    all_goals simpa [Operand.PerVertex, hk] using hl
  case inputPatchConstant =>
    cases hs : c.stage
    case hull | domain =>
      exact element (by simp [Operand.PerVertex, hk]) (by simp [Operand.file?, hk, hs])
    all_goals exact trivial
  case output =>
    have hflat : ¬op.PerVertex c.stage := by simp [Operand.PerVertex, hk]
    cases hs : c.scope <;> exact element hflat (by simp [Operand.file?, hk, hs])
  case constantBuffer =>
    exact .bind inRange_constantBuffer fun _ _ => .bind (array nofun) fun _ he => .pure he
  case immediateConstantBuffer =>
    exact .ite (fun _ => trivial) fun _ => .bind (array nofun) fun _ he => .pure he
  case inputCoverageMask => exact .bind inRange_require fun _ _ => .pure ⟨by simp, nofun⟩
  case inputPrimitiveId | inputGsInstanceId | outputControlPointId | inputForkInstanceId
      | inputJoinInstanceId | inputThreadId | inputThreadGroupId | inputThreadIdInGroup
      | inputThreadIdInGroupFlattened | inputDomainPoint =>
    exact .pure ⟨by simp, nofun⟩
  all_goals exact trivial

theorem stays_registerSource (hn : ∀ id ∈ op.relatives, c.Stays (c.YieldsIndex id) (nested id))
    (hop : c.program.Uses op) {want : ValueType} {components : List Nat} :
    c.Stays (fun e => c.Admits e ∧ ∀ k, e ≠ .number k)
      (c.registerSource nested op want components) :=
  .bind (stays_base hn hop) fun (_, _) ⟨he, hk⟩ =>
    .pure ⟨subscripts_cast.mpr (Expr.subscripts_pick.mpr he),
      fun k h => hk k (Expr.eq_number_of_pick (eq_number_of_cast h))⟩

variable (h : c.program.Closed)

include h

theorem stays_operand (hid : c.program.Reaches id) :
    c.Stays (fun op => c.program.operands[id]? = some op) (c.operand id) :=
  Program.stays_operand (h.lt_size hid)

variable {want : ValueType} {lanes : List Nat} {i : Nat}

theorem stays_rawSourceWith (hid : c.program.Reaches id)
    (hn : ∀ op, c.program.operands[id]? = some op → ∀ id' ∈ op.relatives, c.program.Reaches id' →
      c.Stays (c.YieldsIndex id') (nested id')) :
    c.Stays (c.Yields id lanes) (c.rawSourceWith nested id want lanes) := by
  refine .bind (stays_operand h hid) fun op hop => ?_
  have hn : ∀ id' ∈ op.relatives, c.Stays (c.YieldsIndex id') (nested id') := fun id' hid' => by
    have ⟨index, hi, hr⟩ := List.mem_flatMap.mp hid'
    exact hn op hop id' hid' (.index hid hop hi (Option.mem_toList.mp hr))
  have hsource {components : List Nat} :
      c.Stays (c.Yields id lanes) (c.registerSource nested op want components) :=
    (stays_registerSource hn ⟨id, hid, hop⟩).mono fun _ ⟨he, hk⟩ =>
      ⟨he, fun k _ h => absurd h (hk k)⟩
  extract_lets components
  cases hk : op.register
  case immediate32 | immediate64 =>
    let Known (e : Expr) : Prop := c.Admits e ∧ ∀ k, e = .number k → c.program.Knows id k
    refine .bind (.mapM (R := Known) fun component _ => ?_) fun values ⟨hlength, hlanes⟩ =>
      .pure ⟨subscripts_construct fun e he => (hlanes e he).left, fun k hl hk => ?_⟩
    case refine_1 =>
      refine .bind stays_immediateWord fun word ⟨i, hvalue, hmem⟩ =>
        .pure ⟨subscripts_literal, fun k hk => ?_⟩
      exact .immediate hop hvalue (eq_of_literal_eq_number hk ▸ hmem)
    case refine_2 =>
      have hl : values.length = 1 := by simpa [hlength, components] using hl
      exact (hlanes _ (number_mem_of_construct hl hk)).right k rfl
  case constantBuffer =>
    refine .bind inRange_constantBuffer fun buffer _ => ?_
    cases buffer.members
    case some =>
      refine stays_namedConstants.mono fun _ ⟨he, hzero⟩ => ⟨he, fun k hl h => ?_⟩
      exact hzero k (by simpa [components] using hl) h ▸ .padding hop hk
    case none => exact hsource
  all_goals exact hsource

theorem stays_sourceWith (hid : c.program.Reaches id)
    (hn : ∀ op, c.program.operands[id]? = some op → ∀ id' ∈ op.relatives, c.program.Reaches id' →
      c.Stays (c.YieldsIndex id') (nested id')) :
    c.Stays (c.Yields id lanes) (c.sourceWith nested id want lanes) :=
  .bind (stays_rawSourceWith h hid hn) fun _ ⟨he, hk⟩ =>
    .bind (stays_operand h hid) fun _ _ =>
      .pure ⟨subscripts_modify.mpr he, fun k hl h => hk k hl (eq_number_of_modify h)⟩

-- The depth that is left suffices for the operands that stand before this one.
theorem stays_indexSource {depth : Nat} (hd : id < depth) (hid : c.program.Reaches id) :
    c.Stays (c.YieldsIndex id) (c.indexSource depth id) := by
  induction depth generalizing id
  case zero => exact absurd hd (Nat.not_lt_zero id)
  case succ depth hi =>
    refine stays_sourceWith h hid fun op hop id' hid' hr => hi ?_ hr
    exact Nat.lt_of_lt_of_le (h.relative_lt hop hid').left (Nat.le_of_lt_succ hd)

theorem stays_rawSource (hid : c.program.Reaches id) :
    c.Stays c.Admits (c.rawSource id want lanes) :=
  (stays_rawSourceWith h hid fun _ _ _ _ hr => stays_indexSource h (h.lt_size hr) hr).mono
    fun _ he => he.left

theorem stays_source (hid : c.program.Reaches id) : c.Stays c.Admits (c.source id want lanes) :=
  (stays_sourceWith h hid fun _ _ _ _ hr => stays_indexSource h (h.lt_size hr) hr).mono
    fun _ he => he.left

-- What an instruction writes to has a component that it writes.
theorem stays_destination (hid : c.program.Reaches id) :
    c.Stays (fun dst? => ∀ dst ∈ dst?, dst.components ≠ [] ∧ c.Admits dst.target)
      (c.destination id) := by
  refine .bind (stays_operand h hid) fun op hop => ?_
  extract_lets mask
  refine .ite (fun _ => nofun) fun hmask => ?_
  have hmask : mask.components ≠ [] := by
    simpa [WriteMask.isEmpty] using (not_or.mp hmask).2
  have hbase : c.Stays (fun b => c.Admits b.1 ∧ ∀ k, b.1 ≠ .number k)
      (c.base (c.indexSource c.depth) op) := by
    refine stays_base (fun id' hid' => ?_) ⟨id, hid, hop⟩
    have ⟨index, hi, hr⟩ := List.mem_flatMap.mp hid'
    have hr : c.program.Reaches id' := .index hid hop hi (Option.mem_toList.mp hr)
    exact stays_indexSource h (h.lt_size hr) hr
  cases op.register
  case outputDepth | outputDepthGreaterEqual | outputDepthLessEqual | outputCoverageMask =>
    refine .bind inRange_require fun _ _ => ?_
    rintro _ ⟨⟩
    exact ⟨List.cons_ne_nil _ _, by simp⟩
  case temp | indexableTemp | output =>
    refine .bind hbase fun (target, _) ⟨ht, _⟩ => ?_
    rintro _ ⟨⟩
    exact ⟨hmask, ht⟩
  all_goals exact trivial

end Context

namespace Context

variable {c : Context} {inst : Instruction} {want : ValueType} {lanes : List Nat} {i : Nat}

variable (h : c.program.Holds inst) (hi : i < inst.operands.length)

include h hi

theorem stays_arg : c.Stays c.program.Reaches (c.arg inst i) := by
  unfold arg
  rw [List.getElem?_eq_getElem hi]
  exact .arg h.mem (List.getElem_mem hi)

theorem stays_argSource : c.Stays c.Admits (c.argSource inst i want lanes) :=
  .bind (stays_arg h hi) fun _ hid => stays_source h.toClosed hid

theorem stays_argDestination :
    c.Stays (fun dst? => ∀ dst ∈ dst?, dst.components ≠ [] ∧ c.Admits dst.target)
      (c.argDestination inst i) :=
  .bind (stays_arg h hi) fun _ hid => stays_destination h.toClosed hid

end Context

end ShaderLift
