import ShaderLift.Proofs.Bounds.Sources

/-!
Moves, arithmetic, bit manipulation, conversions and double precision stay in range: an instruction
has as many operands as its opcode takes, and reads no others.
-/

namespace ShaderLift

open Glsl

-- A result that subscripts register files by `A` only.
structure Pending.Subscripts (A : RegisterFile → UInt32 → Prop) (p : Pending) : Prop where
  target : p.destination.target.Subscripts A
  setup  : ∀ s ∈ p.setup, s.Subscripts A
  value  : p.value.Subscripts A

namespace Context

variable {c : Context} {inst : Instruction} {types : AluTypes} {type : ValueType}

abbrev AdmitsAll (c : Context) (lines : List Line) : Prop :=
  EachLine c.accesses lines

theorem subscripts_store {dst : Destination} {value : Expr} (ht : c.Admits dst.target)
    (hv : c.Admits value) : (c.store dst value type).Subscripts c.accesses := by
  refine ⟨?_, subscripts_cast.mpr ?_⟩
  · split <;> simp [ht]
  · split <;> simp [hv]

theorem admitsAll_storeLine {dst : Destination} {value : Expr} (ht : c.Admits dst.target)
    (hv : c.Admits value) : c.AdmitsAll (c.storeLine dst value type) :=
  EachLine.singleton.mpr (Line.subscripts_stmt.mpr (subscripts_store ht hv))

theorem stays_hold {ps : List Pending} (hp : ∀ p ∈ ps, p.Subscripts c.accesses) :
    c.Emits (fun r => ∀ s ∈ r.1, s.Subscripts c.accesses) (c.hold ps) := by
  induction ps
  case nil => exact .pure (List.forall_mem_nil _)
  case cons hi =>
    have ⟨hp, hps⟩ := List.forall_mem_cons.mp hp
    refine .bind .step fun name _ => .bind (hi hps) fun (stmts, names) hs => .pure ?_
    exact List.forall_mem_append.mpr ⟨hp.setup, List.forall_mem_cons.mpr ⟨hp.value, hs⟩⟩

theorem stays_commit {ps : List Pending} (hp : ∀ p ∈ ps, p.Subscripts c.accesses) :
    c.Emits c.AdmitsAll (c.commit ps) := by
  unfold commit
  split
  case h_1 => exact .pure EachLine.nil
  case h_2 =>
    have hp := List.forall_mem_singleton.mp hp
    exact .pure (admitsAll_storeLine hp.target hp.value)
  case h_3 =>
    refine .bind (stays_hold hp) fun (stmts, names) hs => .pure ?_
    have hstores := forall_mem_zipWith fun p hpm name (_ : name ∈ names) =>
      show (c.store p.destination (.var name) p.type).Subscripts c.accesses from
        subscripts_store (hp p hpm).target trivial
    refine EachLine.block trivial (List.forall_mem_map.mpr fun s hmem => ?_)
    exact Line.subscripts_stmt.mpr (List.forall_mem_append.mpr ⟨hs, hstores⟩ s hmem)

section Values

-- What the values of instructions are computed from, counted with what they are written to.
variable {op : Opcode} {args : List Expr} (ha : ∀ a ∈ args, c.Admits a)

include ha

theorem stays_resultValue {isFirst : Bool} {n : Nat}
    (hop : op ∈ [.sinCos, .udiv, .imul, .umul, .uaddc, .usubb])
    (hcount : op.operandCount = some (args.length + 2)) :
    c.Emits (fun r => (∀ s ∈ r.1, s.Subscripts c.accesses) ∧ c.Admits r.2)
      (c.resultValue op isFirst args type n) := by
  have wide {function : String} {a b : Expr} (ha : c.Admits a) (hb : c.Admits b) :
      c.Emits (fun r => (∀ s ∈ r.1, s.Subscripts c.accesses) ∧ c.Admits r.2)
        (resultValue.wide c type n function a b) :=
    .bind (.lift inRange_require) fun _ _ => .bind .step fun _ _ => .bind .step fun _ _ =>
      .pure (by simp [outArgument, ha, hb])
  have carry {function : String} {a b : Expr} (ha : c.Admits a) (hb : c.Admits b) :
      c.Emits (fun r => (∀ s ∈ r.1, s.Subscripts c.accesses) ∧ c.Admits r.2)
        (resultValue.carry c type n function a b) :=
    .bind (.lift inRange_require) fun _ _ => .bind .step fun _ _ =>
      .pure (by simp [outArgument, ha, hb])
  have arity {n : Nat} (hn : op.operandCount = some (n + 2)) : args.length = n := by
    simpa [hcount] using hn
  have unary (hn : args.length = 1) : ∃ a, args = [a] ∧ c.Admits a := by
    have ⟨a, hargs⟩ := List.length_eq_one_iff.mp hn
    exact ⟨a, hargs, ha a (by simp [hargs])⟩
  have binary (hn : args.length = 2) : ∃ a b, args = [a, b] ∧ c.Admits a ∧ c.Admits b := by
    have ⟨a, b, hargs⟩ := List.length_eq_two.mp hn
    exact ⟨a, b, hargs, ha a (by simp [hargs]), ha b (by simp [hargs])⟩
  simp only [List.mem_cons, List.not_mem_nil, or_false] at hop
  obtain rfl | rfl | rfl | rfl | rfl | rfl := hop
  -- `sinCos`
  · obtain ⟨a, rfl, ha⟩ := unary (arity rfl)
    cases isFirst <;> exact .pure (by simp [ha])
  -- `udiv`
  · obtain ⟨a, b, rfl, ha, hb⟩ := binary (arity rfl)
    cases isFirst
    case true => exact .pure (by simp [ha, hb])
    case false => exact .bind (.lift inRange_require) fun _ _ => .pure (by simp [ha, hb])
  -- `imul` and `umul`
  iterate 2
    obtain ⟨a, b, rfl, ha, hb⟩ := binary (arity rfl)
    cases isFirst
    case true => exact wide ha hb
    case false => exact .pure (by simp [ha, hb])
  -- `uaddc` and `usubb`
  all_goals
    obtain ⟨a, b, rfl, ha, hb⟩ := binary (arity rfl)
    cases isFirst
    case true => exact .pure (by simp [ha, hb])
    case false => exact carry ha hb

omit ha in
theorem stays_derivative {e : Expr} (he : c.Admits e) :
    c.Emits c.Admits (c.derivative op e) := by
  have hcall {function : String} : c.Admits (.call function [e]) := by simp [he]
  refine .ite (fun _ => .throw trivial) fun _ => .ite (fun _ => ?_) fun _ => .pure hcall
  refine .ite (fun _ => .bind .step fun _ _ => .pure hcall) fun _ => ?_
  exact .bind (.lift inRange_require) fun _ _ => .pure hcall

theorem stays_elementwiseValue {n : Nat} (hcount : op.operandCount = some (args.length + 1)) :
    c.Emits c.Admits (c.elementwiseValue op args n types) := by
  have arity {n : Nat} (hn : op.operandCount = some (n + 1)) : args.length = n := by
    simpa [hcount] using hn
  have unary {f : Expr → Expr} (hn : args.length = 1) (hf : ∀ a, c.Admits a → c.Admits (f a)) :
      c.Emits c.Admits (elementwiseValue.unary args f) := by
    obtain ⟨a, rfl⟩ := List.length_eq_one_iff.mp hn
    exact .pure (hf a (List.forall_mem_singleton.mp ha))
  have binary {f : Expr → Expr → Expr} (hn : args.length = 2)
      (hf : ∀ a b, c.Admits a → c.Admits b → c.Admits (f a b)) :
      c.Emits c.Admits (elementwiseValue.binary args f) := by
    obtain ⟨a, b, rfl⟩ := List.length_eq_two.mp hn
    exact .pure (hf a b (ha a (by simp)) (ha b (by simp)))
  unfold elementwiseValue
  cases op
  case add | iadd | mul | div | min | imin | umin | max | imax | umax =>
    exact binary (arity rfl) fun _ _ ha hb => by simp [ha, hb]
  case mad | imad | umad =>
    obtain ⟨a, b, e, rfl⟩ := List.length_eq_three.mp (arity rfl)
    have ha := List.forall_mem_cons.mp ha
    exact .pure (by simpa [and_assoc] using ha)
  case frc | exp | log | sqrt | rsq | rcp | roundNi | roundPi | ineg | itof | utof | ftoi | ftou =>
    exact unary (arity rfl) fun _ ha => by simp [ha]
  case roundNe | not | countBits | firstBitLo | bfrev =>
    exact .bind (.lift inRange_require) fun _ _ => unary (arity rfl) fun _ ha => by simp [ha]
  case roundZ =>
    exact .ite (fun _ => unary (arity rfl) fun _ ha => by simp [ha]) fun _ =>
      unary (arity rfl) fun _ ha => by simp [ha]
  case derivRtx | derivRty | derivRtxCoarse | derivRtxFine | derivRtyCoarse | derivRtyFine =>
    obtain ⟨a, rfl⟩ := List.length_eq_one_iff.mp (arity rfl)
    exact stays_derivative (List.forall_mem_singleton.mp ha)
  case ishl | ishr | ushr | and | or | xor =>
    exact .bind (.lift inRange_require) fun _ _ => binary (arity rfl) fun _ _ ha hb => by
      simp [ha, hb]
  all_goals exact .throw trivial

end Values

variable (h : c.program.Holds inst)

include h

theorem ends_withDestination {E : Prop} {body : Destination → Except LiftError (List Line)}
    (hn : 0 < inst.operands.length)
    (hb : ∀ dst, c.Admits dst.target → Ends (c.options.Excuses E) c.AdmitsAll (body dst)) :
    Ends (c.options.Excuses E) c.AdmitsAll (c.withDestination inst body) := by
  refine .bind (stays_argDestination h hn).excused fun dst? hdst => ?_
  match dst? with
  | none => exact .pure EachLine.nil
  | some dst => exact hb dst (hdst dst rfl).right

theorem stays_mov (hn : 2 ≤ inst.operands.length) : c.Stays c.AdmitsAll (c.mov inst) := by
  refine ends_withDestination h (by omega) fun dst hd => .bind (stays_arg h hn) fun id hid => ?_
  have store {type : ValueType} : c.Stays c.AdmitsAll
      (c.source id type dst.components >>= fun e => pure (c.storeLine dst e type)) :=
    .bind (stays_source h.toClosed hid) fun _ he => .pure (admitsAll_storeLine hd he)
  have hid := h.lt_size hid
  exact .ite (fun _ => store) fun _ => .bind (Program.inRange_naturalType hid) fun _ _ => store

theorem stays_choose {test yes no : OperandId} {lanes : List Nat} (htest : c.program.Reaches test)
    (hyes : c.program.Reaches yes) (hno : c.program.Reaches no) :
    c.Stays c.Admits (c.choose test yes no type lanes) := by
  refine .bind (.mapM (R := c.Admits) fun lane _ => ?_) fun _ ⟨_, hlanes⟩ =>
    .pure (subscripts_construct hlanes)
  refine .bind (stays_source h.toClosed htest) fun _ ht => ?_
  refine .bind (stays_source h.toClosed hyes) fun _ hy => ?_
  exact .bind (stays_source h.toClosed hno) fun _ hn =>
    .pure (Expr.subscripts_ifNonZero.mpr ⟨ht, hy, hn⟩)

theorem stays_movc (hn : 4 ≤ inst.operands.length) : c.Stays c.AdmitsAll (c.movc inst) := by
  refine ends_withDestination h (by omega) fun dst hd => ?_
  refine .bind (stays_arg h (by omega)) fun yes hyes => ?_
  have store {type : ValueType} : c.Stays c.AdmitsAll (do
      let value ← c.choose (← c.arg inst 1) yes (← c.arg inst 3) type dst.components
      return c.storeLine dst value type) :=
    .bind (stays_arg h (by omega)) fun _ htest => .bind (stays_arg h hn) fun _ hno =>
      .bind (stays_choose h htest hyes hno) fun _ he => .pure (admitsAll_storeLine hd he)
  have hyes := h.lt_size hyes
  exact .ite (fun _ => store) fun _ => .bind (Program.inRange_naturalType hyes) fun _ _ => store

theorem stays_swapc (hn : 5 ≤ inst.operands.length) :
    c.Emits c.AdmitsAll (c.swapc inst) := by
  refine .bind (.lift (stays_arg h (by omega))) fun test htest => ?_
  refine .bind (.lift (stays_arg h (by omega))) fun a ha => ?_
  refine .bind (.lift (stays_arg h hn)) fun b hb => ?_
  refine .bind (.lift (Program.inRange_naturalType (h.lt_size ha))) fun type _ => ?_
  extract_lets result
  have hresult {i : Nat} {yes no : OperandId} (hi : i < 5) (hyes : c.program.Reaches yes)
      (hno : c.program.Reaches no) :
      c.Stays (fun ps => ∀ p ∈ ps, p.Subscripts c.accesses) (result i yes no) := by
    refine .bind (stays_argDestination h (by omega)) fun dst? hdst => ?_
    match dst? with
    | none => exact .pure (List.forall_mem_nil _)
    | some dst =>
      refine .bind (stays_choose h htest hyes hno) fun _ he => .pure ?_
      exact List.forall_mem_singleton.mpr ⟨(hdst dst rfl).right, List.forall_mem_nil _, he⟩
  refine .bind (.lift (hresult (by omega) hb ha)) fun _ hfirst => ?_
  exact .bind (.lift (hresult (by omega) ha hb)) fun _ hsecond =>
    stays_commit (List.forall_mem_append.mpr ⟨hfirst, hsecond⟩)

theorem stays_sources {n : Nat} {want : ValueType} {lanes : List Nat} :
    c.Emits (fun args => args.length = inst.operands.length - n ∧ ∀ a ∈ args, c.Admits a)
      ((inst.operands.drop n).mapM fun id => liftM (c.source id want lanes)) := by
  rw [← List.length_drop]
  exact .mapM fun id hid => .lift (stays_source h.toClosed (.arg h.mem (List.mem_of_mem_drop hid)))

theorem stays_twoResults (hop : inst.opcode ∈ [.sinCos, .udiv, .imul, .umul, .uaddc, .usubb])
    (hn : 2 ≤ inst.operands.length) : c.Emits c.AdmitsAll (c.twoResults inst types) := by
  have hresult {i : Nat} (hi : i < 2) :
      c.Emits (fun ps => ∀ p ∈ ps, p.Subscripts c.accesses) (c.twoResult inst types i) := by
    refine .bind (.lift (stays_argDestination h (by omega))) fun dst? hdst => ?_
    match dst? with
    | none => exact .pure (List.forall_mem_nil _)
    | some dst =>
      refine .bind (stays_sources h) fun args ⟨hlength, hargs⟩ => ?_
      have hcount : inst.opcode.operandCount = some (args.length + 2) := by
        rw [h.counts inst h.mem, hlength, Nat.sub_add_cancel hn]
      refine .bind (stays_resultValue hargs hop hcount) fun (_, _) ⟨hsetup, hvalue⟩ => .pure ?_
      exact List.forall_mem_singleton.mpr ⟨(hdst dst rfl).right, hsetup, hvalue⟩
  refine .bind (hresult (by omega)) fun _ hfirst => .bind (hresult (by omega)) fun _ hsecond => ?_
  exact stays_commit (List.forall_mem_append.mpr ⟨hfirst, hsecond⟩)

theorem stays_dot {k : Nat} (hn : 3 ≤ inst.operands.length) : c.Stays c.AdmitsAll (c.dot inst k) :=
  ends_withDestination h (by omega) fun _ hd =>
    .bind (stays_argSource h (by omega)) fun _ ha => .bind (stays_argSource h hn) fun _ hb =>
      .pure (admitsAll_storeLine hd (subscripts_splat.mpr (by simp [ha, hb])))

theorem stays_compare {function : String} {op : BinaryOp} (hn : 3 ≤ inst.operands.length) :
    c.Stays c.AdmitsAll (c.compare inst types function op) := by
  refine ends_withDestination h (by omega) fun _ hd => ?_
  refine .bind (stays_argSource h (by omega)) fun _ ha => ?_
  refine .bind (stays_argSource h hn) fun _ hb => ?_
  refine .pure (admitsAll_storeLine hd ?_)
  split <;> simp [ha, hb]

theorem stays_elementwise (hn : 1 ≤ inst.operands.length) :
    c.Emits c.AdmitsAll (c.elementwise inst types) := by
  refine .bind (.lift (stays_argDestination h hn)) fun dst? hdst => ?_
  match dst? with
  | none => exact .pure EachLine.nil
  | some dst =>
    refine .bind (stays_sources h) fun args ⟨hlength, hargs⟩ => ?_
    have hcount : inst.opcode.operandCount = some (args.length + 1) := by
      rw [h.counts inst h.mem, hlength, Nat.sub_add_cancel hn]
    exact .bind (stays_elementwiseValue hargs hcount) fun _ hv =>
      .pure (admitsAll_storeLine (hdst dst rfl).right hv)

theorem stays_laneValue {lane : Nat} (hn : 2 ≤ inst.operands.length) :
    c.Stays c.Admits (c.laneValue inst types lane) := by
  unfold laneValue
  split
  case h_1 | h_2 => exact .bind (stays_argSource h hn) fun _ ha => .pure (by simp [ha])
  case h_3 hop | h_4 hop =>
    have hn : 4 ≤ inst.operands.length := h.le hop rfl
    refine .bind (stays_argSource h (by omega)) fun _ ha => ?_
    refine .bind (stays_argSource h (by omega)) fun _ hb => ?_
    exact .bind (stays_argSource h hn) fun _ he => .pure (by simp [bitField, ha, hb, he])
  case h_5 hop =>
    have hn : 5 ≤ inst.operands.length := h.le hop rfl
    refine .bind (stays_argSource h (by omega)) fun _ ha => ?_
    refine .bind (stays_argSource h (by omega)) fun _ hb => ?_
    refine .bind (stays_argSource h hn) fun _ he => ?_
    exact .bind (stays_argSource h (by omega)) fun _ hf =>
      .pure (by simp [bitField, ha, hb, he, hf])
  case h_6 | h_7 => exact .bind (stays_argSource h hn) fun _ ha => .pure (by simp [ha])

theorem stays_perLane (hn : 2 ≤ inst.operands.length) :
    c.Stays c.AdmitsAll (c.perLane inst types) := by
  have lanes : c.Stays c.AdmitsAll (c.withDestination inst fun dst => do
      let lanes ← dst.components.mapM (c.laneValue inst types)
      return c.storeLine dst (c.construct types.result lanes) types.result) :=
    ends_withDestination h (by omega) fun _ hd =>
      .bind (.mapM fun _ _ => stays_laneValue h hn) fun _ ⟨_, hlanes⟩ =>
        .pure (admitsAll_storeLine hd (subscripts_construct hlanes))
  unfold perLane
  split <;> exact .bind inRange_require fun _ _ => lanes

theorem stays_doubleSource {i pair : Nat} (hi : i < inst.operands.length) :
    c.Stays c.Admits (c.doubleSource inst i pair) :=
  .bind (stays_arg h hi) fun _ hid => .bind (stays_rawSource h.toClosed hid) fun _ he =>
    .bind (stays_operand h.toClosed hid) fun _ _ => .pure (by simp [he])

theorem stays_doubleValue {pair k : Nat} (hn : 2 ≤ inst.operands.length) :
    c.Stays c.Admits (c.doubleValue inst pair k) := by
  have convert {type : ValueType} :
      c.Stays c.Admits (do return .call "double" [← c.argSource inst 1 type [k]]) :=
    .bind (stays_argSource h hn) fun _ ha => .pure (by simp [ha])
  unfold doubleValue
  split
  case h_1 hop | h_2 hop | h_3 hop | h_4 hop | h_5 hop =>
    have hn : 3 ≤ inst.operands.length := h.le hop rfl
    exact .bind (stays_doubleSource h (by omega)) fun _ ha =>
      .bind (stays_doubleSource h hn) fun _ hb => .pure (by simp [ha, hb])
  case h_6 hop =>
    have hn : 4 ≤ inst.operands.length := h.le hop rfl
    refine .bind (stays_doubleSource h (by omega)) fun _ ha => ?_
    refine .bind (stays_doubleSource h (by omega)) fun _ hb => ?_
    exact .bind (stays_doubleSource h hn) fun _ he => .pure (by simp [ha, hb, he])
  case h_7 => exact .bind (stays_doubleSource h hn) fun _ ha => .pure (by simp [ha])
  case h_8 => exact stays_doubleSource h hn
  case h_9 hop =>
    have hn : 4 ≤ inst.operands.length := h.le hop rfl
    refine .bind (stays_argSource h (by omega)) fun _ ht => ?_
    refine .bind (stays_doubleSource h (by omega)) fun _ ha => ?_
    exact .bind (stays_doubleSource h hn) fun _ hb => .pure (by simp [ht, ha, hb])
  all_goals exact convert

theorem stays_doubleResult (hn : 2 ≤ inst.operands.length) :
    c.Stays c.AdmitsAll (c.doubleResult inst) := by
  refine .bind inRange_require fun _ _ => ends_withDestination h (by omega) fun dst hd => ?_
  refine .bind (.mapM (R := c.Admits) fun (_, _) _ => ?_) fun values ⟨_, hvalues⟩ => ?_
  · exact .bind (stays_doubleValue h hn) fun _ ha => .pure (by simp [ha])
  · refine .pure (admitsAll_storeLine hd ?_)
    split
    case h_1 => exact List.forall_mem_singleton.mp hvalues
    case h_2 => exact Expr.eachSubscripts_iff.mpr hvalues

theorem stays_narrowedValue {k : Nat} (hn : 2 ≤ inst.operands.length)
    (hcompare : inst.opcode ∉ [.dtof, .dtoi, .dtou] → 3 ≤ inst.operands.length) :
    c.Stays c.Admits (c.narrowedValue inst k) := by
  refine .bind (stays_doubleSource h hn) fun _ ha => ?_
  extract_lets compareBy
  have compares (hop : inst.opcode ∉ [.dtof, .dtoi, .dtou]) {op : BinaryOp} :
      c.Stays c.Admits (compareBy op) :=
    .bind (stays_doubleSource h (hcompare hop)) fun _ hb => .pure (by simp [ha, hb])
  split
  case h_1 | h_2 | h_3 => exact .pure (by simp [ha])
  case h_4 hop | h_5 hop | h_6 hop => exact compares (by rw [hop]; decide)
  case h_7 => exact compares (by simp_all)

theorem stays_fromDouble (hn : 2 ≤ inst.operands.length)
    (hcompare : inst.opcode ∉ [.dtof, .dtoi, .dtou] → 3 ≤ inst.operands.length) :
    c.Stays c.AdmitsAll (c.fromDouble inst types) := by
  refine .bind inRange_require fun _ _ => ends_withDestination h (by omega) fun dst hd => ?_
  exact .bind (.mapM fun _ _ => stays_narrowedValue h hn hcompare) fun _ ⟨_, hlanes⟩ =>
    .pure (admitsAll_storeLine hd (subscripts_construct hlanes))

theorem stays_evaluate (hn : 2 ≤ inst.operands.length) : c.Stays c.AdmitsAll (c.evaluate inst) := by
  refine .ite (fun _ => trivial) fun _ => .bind inRange_require fun _ _ => ?_
  refine ends_withDestination h (by omega) fun dst hd => ?_
  refine .bind (stays_arg h hn) fun _ hid => .bind (stays_operand h.toClosed hid) fun op _ => ?_
  refine .bind stays_orUnsupported fun register _ => ?_
  have lanes {function : String} {extra : List Expr} (he : ∀ e ∈ extra, c.Admits e) :
      c.Stays c.AdmitsAll (do
        let lanes ← dst.components.mapM (c.evaluatedLane function extra register op)
        return c.storeLine dst (c.construct .float lanes) .float) := by
    refine .bind (.mapM (R := c.Admits) fun lane _ => ?_) fun _ ⟨_, hlanes⟩ =>
      .pure (admitsAll_storeLine hd (subscripts_construct hlanes))
    exact .bind stays_orUnresolved fun _ _ =>
      .pure (subscripts_modify.mpr (subscripts_cast.mpr (by simpa using he)))
  split
  case h_2 hop | h_3 hop =>
    exact .bind (stays_argSource h (h.le hop rfl)) fun _ ha => lanes (by simp [ha])
  all_goals exact lanes (List.forall_mem_nil _)

end Context

end ShaderLift
