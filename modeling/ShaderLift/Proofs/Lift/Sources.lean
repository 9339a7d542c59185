import Mathlib
import ShaderLift.Proofs.Glsl.Over
import ShaderLift.Lift.Emit

/-!
The names in operands: every variable that stands in a source or a destination comes from an operand
that an instruction reaches, from a resource, or from the interface of the stage.
-/

namespace ShaderLift

open Glsl Std.Do

set_option mvcgen.warning false

-- The operands that instructions name, and those that index them.
inductive Program.Reaches (p : Program) : OperandId → Prop
  | arg {inst id} (mem : inst ∈ p.instructions) (operand : id ∈ inst.operands) : Reaches p id
  | index {id id' op index} (outer : Reaches p id) (operand : p.operands[id]? = some op)
      (mem : index ∈ op.indices) (relative : index.relative? = some id') : Reaches p id'

def Program.Uses (p : Program) (op : Operand) : Prop :=
  ∃ id, p.Reaches id ∧ p.operands[id]? = some op

def Program.Indexes (p : Program) (index : Index) : Prop :=
  ∀ id, index.relative? = some id → p.Reaches id

-- Where the variables of a shader come from.
inductive Names (p : Program) (f : Flow) (r : Resources) (i : Interface) : Name → Prop
  | temp {op register} (used : p.Uses op) (kind : op.register = .temp)
      (slot : op.slot? = some register) : Names p f r i (.temp register)
  | indexableTemp {op register} (used : p.Uses op) (kind : op.register = .indexableTemp)
      (slot : op.slot? = some register) : Names p f r i (.indexableTemp register)
  | file {file} : Names p f r i (.file file)
  | constants {slot buffer} (declared : r.constantBuffers.get? slot = some buffer)
      (raw : buffer.members = none) : Names p f r i (.constants buffer.slot)
  | member {slot buffer members m} (declared : r.constantBuffers.get? slot = some buffer)
      (named : buffer.members = some members) (mem : m ∈ members) : Names p f r i (.member m.name)
  | immediates (declared : r.immediates ≠ none) : Names p f r i .immediates
  | sampler {key} (used : key ∈ r.pairs.keys) : Names p f r i (.sampler key)
  | resourceData {slot layout} (declared : r.buffers.get? slot = some layout) :
      Names p f r i (.resourceData slot)
  | uavData {slot uav layout} (declared : r.uavs.get? slot = some uav)
      (kind : uav.kind = .buffer layout) : Names p f r i (.uavData slot)
  | counter {slot uav} (declared : r.uavs.get? slot = some uav) (has : uav.hasCounter) :
      Names p f r i (.counter slot)
  | image {slot uav dimension type} (declared : r.uavs.get? slot = some uav)
      (kind : uav.kind = .typed dimension type) : Names p f r i (.image slot)
  | shared {slot memory} (declared : r.shared.get? slot = some memory) :
      Names p f r i (.shared slot)
  | varying {v} (mem : v ∈ i.varyings) : Names p f r i (.varying v.name)
  | builtin {name} (word : IsWord name) : Names p f r i (.builtin name)
  | scratch {n} : Names p f r i (.scratch n)
  | phaseInstance : Names p f r i .phaseInstance
  | subroutine {label sub} (stage : p.stage ≠ .hull) (defined : f.subroutine? label = some sub) :
      Names p f r i (.verbatim (subroutineName label))

attribute [simp] Names.file Names.scratch Names.phaseInstance Names.builtin Names.immediates

theorem returns_iff {ε α : Type} {x : Except ε α} {P : α → Prop} :
    ⦃⌜True⌝⦄ x ⦃⇓? a => ⌜P a⌝⦄ ↔ ∀ a, x = .ok a → P a := by
  cases x
  case error e => exact ⟨fun _ _ h => (nomatch h), fun _ _ => trivial⟩
  case ok a =>
    constructor
    case mp => exact fun h _ he => Except.ok.inj he ▸ h trivial
    case mpr => exact fun h _ => h a rfl

@[spec] theorem ok_spec {ε α : Type} {a : α} {Q : PostCond α (.except ε .pure)} :
    ⦃Q.1 a⦄ (Except.ok a : Except ε α) ⦃Q⦄ :=
  Spec.pure (m := Except ε)

@[spec] theorem error_spec {ε α : Type} {e : ε} {Q : PostCond α (.except ε .pure)} :
    ⦃Q.2.1 e⦄ (Except.error e : Except ε α) ⦃Q⦄ :=
  Spec.throw_Except (m := Except ε)

@[spec high] theorem throw_spec {α : Type} {e : LiftError}
    {Q : PostCond α (.except LiftError .pure)} :
    ⦃Q.2.1 e⦄ (throw e : Except LiftError α) ⦃Q⦄ :=
  error_spec

@[spec high] theorem Emit.throw_spec {α : Type} {e : LiftError}
    {Q : PostCond α (.arg Progress (.except LiftError .pure))} :
    ⦃fun _ => Q.2.1 e⦄ (throw e : Emit α) ⦃Q⦄ :=
  fun _ h => h

theorem mapM_spec {m : Type → Type} {ps : PostShape} [Monad m] [WPMonad m ps]
    {α β : Type} {f : α → m β} {P : β → Prop} {l : List α}
    (h : ∀ a ∈ l, ⦃⌜True⌝⦄ f a ⦃⇓? b => ⌜P b⌝⦄) :
    ⦃⌜True⌝⦄ l.mapM f ⦃⇓? bs => ⌜∀ b ∈ bs, P b⌝⦄ := by
  induction l
  case nil =>
    simp only [List.mapM_nil]
    mvcgen
    simp
  case cons a l hi =>
    have ⟨ha, hl⟩ := List.forall_mem_cons.mp h
    have hl := hi hl
    simp only [List.mapM_cons]
    mvcgen [ha, hl] with simp_all

theorem forall_mem_zipWith {α β γ : Type} {f : α → β → γ} {P : γ → Prop} {l : List α} {l' : List β}
    (h : ∀ a ∈ l, ∀ b ∈ l', P (f a b)) : ∀ c ∈ List.zipWith f l l', P c := by
  rw [← List.map_uncurry_zip_eq_zipWith]
  rintro c hc
  have ⟨⟨a, b⟩, hm, hc⟩ := List.mem_map.mp hc
  exact hc ▸ h a (List.of_mem_zip hm).left b (List.of_mem_zip hm).right

-- A value of a constant buffer is a member's name under subscripts, a selection and a conversion.
theorem Member.of_laneAt {P : Expr → Prop} {d : Dialect} {ms : List Member} {register : UInt32}
    {component : Nat} {e : Expr} {type : ValueType}
    (h : laneAt d ms register component = .value e type)
    (name : ∀ m ∈ ms, P (.var (.member m.name)))
    (index : ∀ e n, P e → P (.index e (.number n)))
    (select : ∀ e lanes, P e → P (.select e lanes))
    (convert : ∀ e, P e → P (.call (ValueType.uint.scalarName d) [e])) : P e := by
  have branch {p : Prop} [Decidable p] {x y : Expr} (hx : P x) (hy : P y) :
      P (if p then x else y) :=
    iteInduction (fun _ => hx) fun _ => hy
  simp only [laneAt] at h
  split at h
  case h_1 m hf =>
    have hname := name m (List.mem_of_find?_eq_some hf)
    unfold lane at h
    extract_lets q l base element row scalar value at h
    split at h
    case isTrue => cases h
    case isFalse =>
      have helement : P element := branch (index _ _ hname) hname
      have hrow : P row := branch (index _ _ helement) (branch (index _ _ hname) hname)
      have hscalar : P scalar := branch (select _ _ hrow) hrow
      have hvalue : P value := branch (convert _ hscalar) hscalar
      exact (ConstantLane.value.inj h).left ▸ hvalue
  case h_2 => split at h <;> cases h

namespace Context

abbrev names (c : Context) : Name → Prop :=
  Names c.program c.flow c.resources c.interface

theorem lanes_spec (c : Context) {m : Type → Type} {ps : PostShape} [Monad m] [WPMonad m ps]
    {α : Type} {f : α → m Expr} {l : List α}
    (h : ∀ a ∈ l, ⦃⌜True⌝⦄ f a ⦃⇓? e => ⌜e.Over c.names⌝⦄) :
    ⦃⌜True⌝⦄ l.mapM f
    ⦃⇓? es => ⌜(∀ e ∈ es, e.Over c.names) ∧ ∀ d t, (Glsl.construct d t es).Over c.names⌝⦄ := by
  have lanes := mapM_spec h
  mvcgen [lanes]
  exact SPred.pure_mono fun h => ⟨h, fun _ _ => over_construct h⟩

variable {c : Context} {α : Type} {id : OperandId} {op : Operand} {inst : Instruction}
variable {index : Index} {want : ValueType} {lanes components : List Nat} {i : Nat}

@[spec] theorem unsupported_spec {reason : Unsupported}
    {Q : PostCond α (.except LiftError .pure)} :
    ⦃Q.2.1 (.unsupported c.index c.opcode reason)⦄
    (c.unsupported reason : Except LiftError α) ⦃Q⦄ :=
  throw_spec

@[spec] theorem unresolved_spec {reason : Unresolved} {Q : PostCond α (.except LiftError .pure)} :
    ⦃Q.2.1 (.unresolved c.index reason)⦄ (c.unresolved reason : Except LiftError α) ⦃Q⦄ :=
  throw_spec

@[spec] theorem orUnresolved_spec {what : Unresolved} {o : Option α} :
    ⦃⌜True⌝⦄ c.orUnresolved what o ⦃⇓? a => ⌜o = some a⌝⦄ := by
  mvcgen [orUnresolved]

@[spec] theorem orUnsupported_spec {reason : Unsupported} {o : Option α} :
    ⦃⌜True⌝⦄ c.orUnsupported reason o ⦃⇓? a => ⌜o = some a⌝⦄ := by
  mvcgen [orUnsupported]

@[spec] theorem requireWords_spec {o : Options} {ns : List Nat} :
    ⦃⌜True⌝⦄ o.requireWords ns ⦃⇓? _ => ⌜True⌝⦄ :=
  returns_iff.mpr fun _ _ => trivial

@[spec] theorem require_spec {f : Feature} : ⦃⌜True⌝⦄ c.require f ⦃⇓? _ => ⌜True⌝⦄ :=
  returns_iff.mpr fun _ _ => trivial

@[spec] theorem operand_spec (h : c.program.Reaches id) :
    ⦃⌜True⌝⦄ c.operand id ⦃⇓? op => ⌜c.program.Uses op⌝⦄ := by
  mvcgen [operand, Program.operand]
  exact ⟨id, h, ‹_›⟩

@[spec] theorem arg_spec (h : inst ∈ c.program.instructions) :
    ⦃⌜True⌝⦄ c.arg inst i ⦃⇓? id => ⌜c.program.Reaches id⌝⦄ := by
  mvcgen [arg]
  exact .arg h (List.mem_of_getElem? ‹_›)

@[spec] theorem nthIndex_spec (h : c.program.Uses op) :
    ⦃⌜True⌝⦄ c.nthIndex op i
    ⦃⇓? index => ⌜op.indices[i]? = some index ∧ c.program.Indexes index⌝⦄ := by
  have ⟨_, houter, hop⟩ := h
  mvcgen [nthIndex]
  exact fun hi => ⟨hi, fun id hr => .index houter hop (List.mem_of_getElem? hi) hr⟩

@[spec] theorem immediateWord_spec {component : Nat} :
    ⦃⌜True⌝⦄ c.immediateWord op component ⦃⇓? _ => ⌜True⌝⦄ :=
  returns_iff.mpr fun _ _ => trivial

@[spec] theorem constantBuffer_spec :
    ⦃⌜True⌝⦄ c.constantBuffer op
    ⦃⇓? buffer => ⌜c.constantBuffer op = .ok buffer ∧
      (buffer.members = none → c.names (.constants buffer.slot)) ∧
      ∀ members, buffer.members = some members → ∀ m ∈ members, c.names (.member m.name)⌝⦄ := by
  have hfound : ⦃⌜True⌝⦄ c.constantBuffer op
      ⦃⇓? buffer => ⌜∃ slot, c.resources.constantBuffers.get? slot = some buffer⌝⦄ := by
    mvcgen [constantBuffer]
    exact fun h => ⟨_, h⟩
  refine returns_iff.mpr fun buffer hb => ?_
  have ⟨_, h⟩ := returns_iff.mp hfound buffer hb
  exact ⟨hb, .constants h, fun _ hs _ hm => .member h hs hm⟩

@[spec] theorem namedConstants_spec {slot : UInt32} {members : List Member}
    (hm : ∀ m ∈ members, c.names (.member m.name)) :
    ⦃⌜True⌝⦄ c.namedConstants slot members op components want ⦃⇓? e => ⌜e.Over c.names⌝⦄ := by
  have lanes := @lanes_spec c
  mvcgen [namedConstants, Context.construct, lanes]
  case vc1.h.success.h_1 h =>
    refine over_cast.mpr (Member.of_laneAt h hm ?_ ?_ ?_)
    all_goals simp +contextual [ValueType.isWord_scalarName]
  all_goals (clear lanes; simp_all)

-- The function that reads the operands of indices keeps to the names as well.
def Reads (c : Context) (nested : OperandId → Except LiftError Expr) : Prop :=
  ∀ id, c.program.Reaches id → ⦃⌜True⌝⦄ nested id ⦃⇓? e => ⌜e.Over c.names⌝⦄

section Nested

variable {nested : OperandId → Except LiftError Expr}

variable (hn : c.Reads nested)

include hn

@[spec] theorem indexExpr_spec (hi : c.program.Indexes index) :
    ⦃⌜True⌝⦄ c.indexExpr nested index ⦃⇓? e => ⌜e.Over c.names⌝⦄ := by
  unfold Reads at hn
  mvcgen [indexExpr, hn] with simp_all +decide [Program.Indexes, Index.relative?]

@[spec] theorem flatIndex_spec {stride : UInt32} {outer inner : Index}
    (ho : c.program.Indexes outer) (hi : c.program.Indexes inner) :
    ⦃⌜True⌝⦄ c.flatIndex nested stride outer inner ⦃⇓? e => ⌜e.Over c.names⌝⦄ := by
  mvcgen [flatIndex]

@[spec] theorem element_spec {name : Name} (hop : c.program.Uses op) (hname : c.names name) :
    ⦃⌜True⌝⦄ c.element nested name op i ⦃⇓? e => ⌜e.Over c.names⌝⦄ := by
  mvcgen [element] with simp_all

@[spec] theorem vertexElement_spec {file : RegisterFile} {stride : UInt32}
    (hop : c.program.Uses op) :
    ⦃⌜True⌝⦄ c.vertexElement nested file stride op ⦃⇓? e => ⌜e.Over c.names⌝⦄ := by
  mvcgen [vertexElement] with simp_all

-- An operand that names a constant buffer stands for registers only if these have no names.
def IsRaw (c : Context) (op : Operand) : Prop :=
  op.register = .constantBuffer → ∀ buffer, c.constantBuffer op = .ok buffer → buffer.members = none

@[spec] theorem base_spec (hop : c.program.Uses op) (hraw : c.IsRaw op) :
    ⦃⌜True⌝⦄ c.base nested op ⦃⇓? b => ⌜b.1.Over c.names⌝⦄ := by
  have htemp (register : UInt32) (hk : op.register = .temp) (hs : op.slot? = some register) :
      c.names (.temp register) := .temp hop hk hs
  have hindexable (index : Index) (register : UInt32) (hk : op.register = .indexableTemp)
      (hi : op.indices[0]? = some index) (hs : index.static? = some register) :
      c.names (.indexableTemp register) :=
    .indexableTemp hop hk (by rw [Operand.slot?, List.head?_eq_getElem?, hi, Option.bind_some, hs])
  mvcgen [base]
  all_goals simp_all +zetaDelta +decide [ValueType.isWord_vecName, vec, IsRaw]
  split <;> simp +decide

@[spec] theorem registerSource_spec (hop : c.program.Uses op) (hraw : c.IsRaw op) :
    ⦃⌜True⌝⦄ c.registerSource nested op want components ⦃⇓? e => ⌜e.Over c.names⌝⦄ := by
  mvcgen [registerSource, Context.cast] with simp_all

@[spec] theorem rawSourceWith_spec (hid : c.program.Reaches id) :
    ⦃⌜True⌝⦄ c.rawSourceWith nested id want lanes ⦃⇓? e => ⌜e.Over c.names⌝⦄ := by
  have lanes := @lanes_spec c
  mvcgen [rawSourceWith, Context.construct, lanes] with (clear lanes; simp_all [IsRaw])

@[spec] theorem sourceWith_spec (hid : c.program.Reaches id) :
    ⦃⌜True⌝⦄ c.sourceWith nested id want lanes ⦃⇓? e => ⌜e.Over c.names⌝⦄ := by
  mvcgen [sourceWith] with simp_all

end Nested

-- Indices are read by the same functions, one level further down.
@[simp] theorem reads_indexSource {depth : Nat} : c.Reads (c.indexSource depth) := by
  induction depth
  case zero => exact fun _ _ => returns_iff.mpr nofun
  case succ hi => exact fun _ hid => sourceWith_spec hi hid

@[spec] theorem source_spec (hid : c.program.Reaches id) :
    ⦃⌜True⌝⦄ c.source id want lanes ⦃⇓? e => ⌜e.Over c.names⌝⦄ :=
  sourceWith_spec reads_indexSource hid

@[spec] theorem rawSource_spec (hid : c.program.Reaches id) :
    ⦃⌜True⌝⦄ c.rawSource id want lanes ⦃⇓? e => ⌜e.Over c.names⌝⦄ :=
  rawSourceWith_spec reads_indexSource hid

@[spec] theorem argSource_spec (h : inst ∈ c.program.instructions) :
    ⦃⌜True⌝⦄ c.argSource inst i want lanes ⦃⇓? e => ⌜e.Over c.names⌝⦄ := by
  mvcgen [argSource] with simp_all

@[spec] theorem destination_spec (hid : c.program.Reaches id) :
    ⦃⌜True⌝⦄ c.destination id ⦃⇓? dst => ⌜∀ d, dst = some d → d.target.Over c.names⌝⦄ := by
  mvcgen [destination] with simp_all +decide [IsRaw]

@[spec] theorem argDestination_spec (h : inst ∈ c.program.instructions) :
    ⦃⌜True⌝⦄ c.argDestination inst i ⦃⇓? dst => ⌜∀ d, dst = some d → d.target.Over c.names⌝⦄ := by
  mvcgen [argDestination] with simp_all

theorem over_store {dst : Destination} {value : Expr} {type : ValueType}
    (hd : dst.target.Over c.names) (hv : value.Over c.names) :
    (c.store dst value type).Over c.names := by
  simp only [store, Context.cast]
  split_ifs <;> simp_all +decide

end Context

end ShaderLift
