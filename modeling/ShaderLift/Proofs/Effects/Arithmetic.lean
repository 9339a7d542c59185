import ShaderLift.Lift.Arithmetic
import ShaderLift.Proofs.Effects.Sources

/-!
Moves, arithmetic, bit manipulation, conversions and double precision calculate, and do nothing
else. They are lifted to nothing exactly if all that they write is dropped.
-/

namespace ShaderLift

open Glsl

-- What is left of an instruction that calculates: nothing if it is silent, and else statements that
-- calculate, which may stand in a block of their own.
inductive Calculated (V : Vocabulary) (silent : Bool) : List Line → Prop
  | nothing (h : silent = true) : Calculated V silent []
  | flat {ss : List Stmt} (h : silent = false) (ne : ss ≠ []) (calls : ∀ s ∈ ss, s.Calls V) :
      Calculated V silent (ss.map .stmt)
  | block {ss : List Stmt} (h : silent = false) (ne : ss ≠ []) (calls : ∀ s ∈ ss, s.Calls V) :
      Calculated V silent (block .bare (ss.map .stmt))

theorem Calculated.single {V : Vocabulary} {s : Stmt} (h : s.Calls V) :
    Calculated V false [.stmt s] :=
  .flat rfl (List.cons_ne_nil s []) (List.forall_mem_singleton.mpr h)

structure Pending.Calls (V : Vocabulary) (p : Pending) : Prop where
  target : p.destination.target.Targets V
  setup  : ∀ s ∈ p.setup, s.Calls V
  value  : p.value.Calls V

-- A list of things that satisfy `P`, and whether there are none.
structure Filled {α : Type} (P : α → Prop) (isEmpty : Bool) (l : List α) : Prop where
  isEmpty : l.isEmpty = isEmpty
  forall_mem : ∀ a ∈ l, P a

namespace Filled

variable {α : Type} {P : α → Prop} {b b' : Bool} {l l' : List α} {a : α}

theorem nil (h : b = true) : Filled P b [] :=
  ⟨h.symm, List.forall_mem_nil _⟩

theorem single (h : b = false) (ha : P a) : Filled P b [a] :=
  ⟨h.symm, List.forall_mem_singleton.mpr ha⟩

theorem append (h : Filled P b l) (h' : Filled P b' l') : Filled P (b && b') (l ++ l') where
  isEmpty := by
    rw [← h.isEmpty, ← h'.isEmpty]
    cases l <;> rfl
  forall_mem := List.forall_mem_append.mpr ⟨h.forall_mem, h'.forall_mem⟩

end Filled

-- A line of its own for a statement that calculates.
def Glsl.Line.Calculates (V : Vocabulary) (line : Line) : Prop :=
  ∃ s : Stmt, s.Calls V ∧ .stmt s = line

theorem Calculated.of_filled {V : Vocabulary} {silent : Bool} {lines : List Line}
    (h : Filled (Line.Calculates V) silent lines) : Calculated V silent lines := by
  obtain ⟨rfl, h⟩ := h
  obtain ⟨ss, rfl, hcalls⟩ : ∃ ss : List Stmt, ss.map .stmt = lines ∧ ∀ s ∈ ss, s.Calls V := by
    induction lines
    case nil => exact ⟨[], rfl, List.forall_mem_nil _⟩
    case cons hi =>
      obtain ⟨⟨s, hs, rfl⟩, hrest⟩ := List.forall_mem_cons.mp h
      obtain ⟨ss, rfl, hss⟩ := hi hrest
      exact ⟨s :: ss, rfl, List.forall_mem_cons.mpr ⟨hs, hss⟩⟩
  cases ss
  case nil => exact .nothing rfl
  case cons s ss => exact .flat rfl (List.cons_ne_nil s ss) hcalls

namespace Context

variable {c : Context} {inst : Instruction} {types : AluTypes} {dst : Destination} {e : Expr}
variable {V : Vocabulary} {type : ValueType}

@[simp] theorem common_vec {t : ValueType} {n : Nat} : Common (c.vec t n) :=
  common_vecName

theorem calls_store {value : Expr} (ht : dst.target.Targets V) (hv : value.Calls V) :
    (c.store dst value type).Calls V := by
  refine ⟨?_, calls_cast.mpr ?_⟩
  case refine_1 =>
    split
    case isTrue => exact ht
    case isFalse => exact ⟨by simpa using ht.sets, Expr.calls_pick.mpr ht.calls⟩
  case refine_2 => split <;> simp +decide [hv]

-- The value of a destination is all that it takes to calculate an instruction.
theorem calculated_withDestination {body : Destination → Except LiftError (List Line)}
    (h : ∀ dst, dst.target.Targets V → Gives (Calculated V false) (body dst)) :
    Gives (Calculated V (c.program.drops inst 0)) (c.withDestination inst body) := by
  refine .bind (gives_argDestination V) fun dst? hdst => ?_
  cases dst?
  case none => exact .pure (.nothing hdst)
  case some dst => exact hdst.left ▸ h dst hdst.right

theorem calculated_storeLine {value : Expr} (ht : dst.target.Targets V) (hv : value.Calls V) :
    Calculated V false (c.storeLine dst value type) :=
  .single (calls_store ht hv)

theorem calculated_mov : Gives (Calculated V (c.program.drops inst 0)) (c.mov inst) := by
  refine calculated_withDestination fun dst ht => .skip fun id => ?_
  have store {type : ValueType} : Gives (Calculated V false)
      (c.source id type dst.components >>= fun e => pure (c.storeLine dst e type)) :=
    .bind (calls_source V) fun _ hv => .pure (calculated_storeLine ht hv)
  exact .ite (fun _ => store) fun _ => .skip fun _ => store

theorem calls_choose (V : Vocabulary) {test yes no : OperandId} {lanes : List Nat} :
    Gives (Expr.Calls V) (c.choose test yes no type lanes) := by
  refine .bind (.mapM (R := Expr.Calls V) fun lane _ => ?_) fun _ ⟨_, hlanes⟩ =>
    .pure (calls_construct hlanes)
  exact .bind (calls_source V) fun _ ht => .bind (calls_source V) fun _ hy =>
    .bind (calls_source V) fun _ hn => .pure (by simp [ht, hy, hn])

theorem calculated_movc : Gives (Calculated V (c.program.drops inst 0)) (c.movc inst) := by
  refine calculated_withDestination fun dst ht => .skip fun yes => ?_
  have store {type : ValueType} : Gives (Calculated V false) (do
      let value ← c.choose (← c.arg inst 1) yes (← c.arg inst 3) type dst.components
      return c.storeLine dst value type) :=
    .skip fun _ => .skip fun _ => .bind (calls_choose V) fun _ hv =>
      .pure (calculated_storeLine ht hv)
  exact .ite (fun _ => store) fun _ => .skip fun _ => store

section Commit

variable (hV : V.Declares)

include hV

theorem gives_hold {ps : List Pending} (hp : ∀ p ∈ ps, p.Calls V) :
    Emit.Gives (fun r => (r.1 = [] → ps = []) ∧ ∀ s ∈ r.1, s.Calls V) (c.hold ps) := by
  induction ps
  case nil => exact .pure ⟨fun _ => rfl, List.forall_mem_nil _⟩
  case cons hi =>
    have ⟨hp, hps⟩ := List.forall_mem_cons.mp hp
    refine .bind Emit.gives_freshName fun name _ => ?_
    refine .bind (hi hps) fun (stmts, names) ⟨_, hs⟩ => .pure ⟨?_, ?_⟩
    case refine_1 => exact fun h => absurd h (List.append_ne_nil_of_right_ne_nil _ nofun)
    case refine_2 =>
      exact List.forall_mem_append.mpr
        ⟨hp.setup, List.forall_mem_cons.mpr ⟨⟨hV, hp.value⟩, hs⟩⟩

theorem calculated_commit {dropped : Bool} {ps : List Pending}
    (h : Filled (Pending.Calls V) dropped ps) :
    Emit.Gives (Calculated V dropped) (c.commit ps) := by
  obtain ⟨rfl, hp⟩ := h
  unfold commit
  split
  case h_1 => exact .pure (.nothing rfl)
  case h_2 =>
    have hp := List.forall_mem_singleton.mp hp
    exact .pure (calculated_storeLine hp.target hp.value)
  case h_3 hne _ =>
    have hps : ps ≠ [] := fun h => hne h
    refine .bind (gives_hold hV hp) fun (stmts, names) ⟨hs, hcalls⟩ => .pure ?_
    have hstores := forall_mem_zipWith fun p hpm name (_ : name ∈ names) =>
      show (c.store p.destination (.var name) p.type).Calls V from
        calls_store (hp p hpm).target Expr.calls_var
    refine .block (List.isEmpty_eq_false_iff.mpr hps) ?_ ?_
    case refine_1 => exact fun h => hps (hs (List.append_eq_nil_iff.mp h).left)
    case refine_2 => exact List.forall_mem_append.mpr ⟨hcalls, hstores⟩

theorem calculated_swapc :
    Emit.Gives (Calculated V (c.program.drops inst 0 && c.program.drops inst 1))
      (c.swapc inst) := by
  refine .skip fun test => .skip fun a => .skip fun b => .skip fun type => ?_
  refine .bind (P := Filled (Pending.Calls V) (c.program.drops inst 0))
    (.lift (.bind (gives_argDestination V) fun dst? hdst => ?first)) fun _ h =>
      .bind (P := Filled (Pending.Calls V) (c.program.drops inst 1))
        (.lift (.bind (gives_argDestination V) fun dst? hdst => ?second)) fun _ h' =>
          calculated_commit hV (h.append h')
  case first | second =>
    cases dst?
    case none => exact .pure (.nil hdst)
    case some =>
      exact .bind (calls_choose V) fun _ hv =>
        .pure (.single hdst.left ⟨hdst.right, List.forall_mem_nil _, hv⟩)

end Commit

section Values

variable {op : Opcode} {args : List Expr} (ha : ∀ a ∈ args, a.Calls V)

include ha

theorem gives_resultValue (hV : V.Declares) {isFirst : Bool} {n : Nat} :
    Emit.Gives (fun r => (∀ s ∈ r.1, s.Calls V) ∧ r.2.Calls V)
      (c.resultValue op isFirst args type n) := by
  have wide {function : String} {a b : Expr} (hf : Common function) (ha : a.Calls V)
      (hb : b.Calls V) : Emit.Gives (fun r => (∀ s ∈ r.1, s.Calls V) ∧ r.2.Calls V)
        (resultValue.wide c type n function a b) :=
    .skip fun _ => .bind Emit.gives_freshName fun _ _ => .bind Emit.gives_freshName fun _ _ =>
      .pure (by simp [outArgument, hV, hf, ha, hb])
  have carry {function : String} {a b : Expr} (hf : Common function) (ha : a.Calls V)
      (hb : b.Calls V) : Emit.Gives (fun r => (∀ s ∈ r.1, s.Calls V) ∧ r.2.Calls V)
        (resultValue.carry c type n function a b) :=
    .skip fun _ => .bind Emit.gives_freshName fun _ _ =>
      .pure (by simp [outArgument, hV, hf, ha, hb])
  unfold resultValue
  split
  case h_13 => exact .fail
  all_goals simp only [List.forall_mem_cons] at ha
  case h_1 | h_2 => exact .pure (by simp +decide [ha.1])
  case h_3 => exact .pure (by simp [ha.1, ha.2.1])
  case h_4 => exact .skip fun _ => .pure (by simp [ha.1, ha.2.1])
  case h_5 | h_6 => exact wide (by decide) ha.1 ha.2.1
  case h_7 | h_8 | h_9 | h_10 => exact .pure (by simp [ha.1, ha.2.1])
  case h_11 | h_12 => exact carry (by decide) ha.1 ha.2.1

omit ha in
theorem calls_derivative (he : e.Calls V) : Emit.Gives (Expr.Calls V) (c.derivative op e) := by
  have hcall {axis grade : String} (ha : Ordinary axis) (hg : Ordinary grade) :
      (Expr.call ("dFd" ++ axis ++ grade) [e]).Calls V := by
    have hd : Common "dFd" := by decide
    simp [he, (hd.append ha).append hg]
  refine .ite (fun _ => .fail) fun _ => .ite (fun _ => ?_) fun _ => .pure (hcall ?_ ?_)
  refine .ite (fun _ => .bind Emit.gives_useExtension fun _ _ => .pure (hcall ?_ ?_)) fun _ =>
    .skip fun _ => .pure (hcall ?_ ?_)
  all_goals repeat' (first | decide | split)

theorem calls_elementwiseValue {n : Nat} :
    Emit.Gives (Expr.Calls V) (c.elementwiseValue op args n types) := by
  have unary {f : Expr → Expr} (hf : ∀ a, a.Calls V → (f a).Calls V) :
      Emit.Gives (Expr.Calls V) (elementwiseValue.unary args f) := by
    unfold elementwiseValue.unary
    split
    case h_1 => exact .pure (hf _ (List.forall_mem_singleton.mp ha))
    case h_2 => exact .fail
  have binary {f : Expr → Expr → Expr} (hf : ∀ a b, a.Calls V → b.Calls V → (f a b).Calls V) :
      Emit.Gives (Expr.Calls V) (elementwiseValue.binary args f) := by
    unfold elementwiseValue.binary
    split
    case h_1 => exact .pure (hf _ _ (ha _ (by simp)) (ha _ (by simp)))
    case h_2 => exact .fail
  unfold elementwiseValue
  cases op
  case add | iadd | mul | div => exact binary fun _ _ ha hb => by simp [ha, hb]
  case min | imin | umin | max | imax | umax =>
    exact binary fun _ _ ha hb => by simp +decide [ha, hb]
  case mad | imad | umad =>
    dsimp only
    split
    case h_1 => exact .pure (by simpa [and_assoc] using ha)
    case h_2 => exact .fail
  case frc | exp | log | sqrt | rsq | roundNi | roundPi =>
    exact unary fun _ ha => by simp +decide [ha]
  case rcp | ineg | itof | utof | ftoi | ftou => exact unary fun _ ha => by simp [ha]
  case roundNe | countBits | firstBitLo | bfrev =>
    exact .skip fun _ => unary fun _ ha => by simp +decide [ha]
  case not => exact .skip fun _ => unary fun _ ha => by simp [ha]
  case roundZ =>
    exact .ite (fun _ => unary fun _ ha => by simp +decide [ha]) fun _ =>
      unary fun _ ha => by simp +decide [ha]
  case derivRtx | derivRty | derivRtxCoarse | derivRtxFine | derivRtyCoarse | derivRtyFine =>
    dsimp only
    split
    case h_1 => exact calls_derivative (List.forall_mem_singleton.mp ha)
    case h_2 => exact .fail
  case ishl | ishr | ushr | and | or | xor =>
    exact .skip fun _ => binary fun _ _ ha hb => by simp [ha, hb]
  all_goals exact .lift .error

end Values

theorem gives_twoResult (hV : V.Declares) {i : Nat} :
    Emit.Gives (Filled (Pending.Calls V) (c.program.drops inst i)) (c.twoResult inst types i) := by
  refine .bind (.lift (gives_argDestination V)) fun dst? hdst => ?_
  cases dst?
  case none => exact .pure (.nil hdst)
  case some =>
    refine .bind (.mapM (R := Expr.Calls V) fun _ _ => .lift (calls_source V)) fun _ ⟨_, ha⟩ => ?_
    exact .bind (gives_resultValue ha hV) fun (_, _) ⟨hs, hv⟩ =>
      .pure (.single hdst.left ⟨hdst.right, hs, hv⟩)

theorem calculated_twoResults (hV : V.Declares) :
    Emit.Gives (Calculated V (c.program.drops inst 0 && c.program.drops inst 1))
      (c.twoResults inst types) :=
  .bind (gives_twoResult hV) fun _ h => .bind (gives_twoResult hV) fun _ h' =>
    calculated_commit hV (h.append h')

theorem calculated_dot {k : Nat} :
    Gives (Calculated V (c.program.drops inst 0)) (c.dot inst k) := by
  refine calculated_withDestination fun dst ht => ?_
  exact .bind (calls_argSource V) fun _ ha => .bind (calls_argSource V) fun _ hb =>
    .pure (calculated_storeLine ht (calls_splat.mpr (by simp +decide [ha, hb])))

theorem calculated_compare {function : String} {op : BinaryOp} (hf : Common function) :
    Gives (Calculated V (c.program.drops inst 0)) (c.compare inst types function op) := by
  refine calculated_withDestination fun dst ht => ?_
  refine .bind (calls_argSource V) fun _ ha => .bind (calls_argSource V) fun _ hb =>
    .pure (calculated_storeLine ht ?_)
  split <;> simp +decide [ha, hb, hf]

theorem calculated_elementwise :
    Emit.Gives (Calculated V (c.program.drops inst 0)) (c.elementwise inst types) := by
  refine .bind (.lift (gives_argDestination V)) fun dst? hdst => ?_
  cases dst?
  case none => exact .pure (.nothing hdst)
  case some =>
    refine .bind (.mapM (R := Expr.Calls V) fun _ _ => .lift (calls_source V)) fun _ ⟨_, ha⟩ => ?_
    exact .bind (calls_elementwiseValue ha) fun _ hv =>
      .pure (hdst.left ▸ calculated_storeLine hdst.right hv)

theorem calls_laneValue (V : Vocabulary) {lane : Nat} :
    Gives (Expr.Calls V) (c.laneValue inst types lane) := by
  have field {width offset : Expr} (hw : width.Calls V) (ho : offset.Calls V) :
      ∀ e ∈ bitField width offset, e.Calls V := by
    simp +decide [bitField, hw, ho]
  unfold laneValue
  split
  case h_3 | h_4 =>
    refine .bind (calls_argSource V) fun _ hw => .bind (calls_argSource V) fun _ ho => ?_
    exact .bind (calls_argSource V) fun _ he =>
      .pure (Expr.calls_call.mpr ⟨V.common (by decide), List.forall_mem_cons.mpr ⟨he, field hw ho⟩⟩)
  case h_5 =>
    refine .bind (calls_argSource V) fun _ hw => .bind (calls_argSource V) fun _ ho => ?_
    refine .bind (calls_argSource V) fun _ hb => .bind (calls_argSource V) fun _ hi => .pure ?_
    exact Expr.calls_call.mpr ⟨V.common (by decide),
      List.forall_mem_cons.mpr ⟨hb, List.forall_mem_cons.mpr ⟨hi, field hw ho⟩⟩⟩
  all_goals exact .bind (calls_argSource V) fun _ he => .pure (by simp +decide [he])

theorem calculated_perLane :
    Gives (Calculated V (c.program.drops inst 0)) (c.perLane inst types) := by
  have rest : Gives (Calculated V (c.program.drops inst 0)) (c.withDestination inst fun dst => do
      let lanes ← dst.components.mapM (c.laneValue inst types)
      return c.storeLine dst (c.construct types.result lanes) types.result) :=
    calculated_withDestination fun dst ht =>
      .bind (.mapM fun _ _ => calls_laneValue V) fun _ ⟨_, hlanes⟩ =>
        .pure (calculated_storeLine ht (calls_construct hlanes))
  unfold perLane
  split <;> exact .skip fun _ => rest

theorem calls_doubleSource (V : Vocabulary) {i pair : Nat} :
    Gives (Expr.Calls V) (c.doubleSource inst i pair) :=
  .skip fun _ => .bind (calls_rawSource V) fun _ he => .skip fun _ =>
    .pure (calls_modify.mpr (by simp +decide [he]))

theorem calls_doubleValue (V : Vocabulary) {pair k : Nat} :
    Gives (Expr.Calls V) (c.doubleValue inst pair k) := by
  have hconvert {type : ValueType} : Gives (Expr.Calls V)
      (c.argSource inst 1 type [k] >>= fun e => pure (Expr.call "double" [e])) :=
    .bind (calls_argSource V) fun _ he => .pure (by simp +decide [he])
  unfold doubleValue
  split
  case h_1 | h_2 | h_3 | h_4 | h_5 =>
    exact .bind (calls_doubleSource V) fun _ ha => .bind (calls_doubleSource V) fun _ hb =>
      .pure (by simp +decide [ha, hb])
  case h_6 =>
    exact .bind (calls_doubleSource V) fun _ ha => .bind (calls_doubleSource V) fun _ hb =>
      .bind (calls_doubleSource V) fun _ he => .pure (by simp +decide [ha, hb, he])
  case h_7 => exact .bind (calls_doubleSource V) fun _ he => .pure (by simp [he])
  case h_8 => exact calls_doubleSource V
  case h_9 =>
    exact .bind (calls_argSource V) fun _ ht => .bind (calls_doubleSource V) fun _ ha =>
      .bind (calls_doubleSource V) fun _ hb => .pure (by simp [ht, ha, hb])
  all_goals exact hconvert

theorem calculated_doubleResult :
    Gives (Calculated V (c.program.drops inst 0)) (c.doubleResult inst) := by
  refine .skip fun _ => calculated_withDestination fun dst ht => ?_
  refine .bind (.mapM (R := Expr.Calls V) fun (pair, k) _ => ?_) fun values ⟨_, hvalues⟩ =>
    .pure (.single (calls_store (show Expr.Targets V dst.target from ht) ?_))
  case refine_1 => exact .bind (calls_doubleValue V) fun _ he => .pure (by simp +decide [he])
  case refine_2 =>
    split
    case h_1 => exact List.forall_mem_singleton.mp hvalues
    case h_2 => exact Expr.calls_call.mpr ⟨V.common common_vec, hvalues⟩

theorem calls_narrowedValue (V : Vocabulary) {k : Nat} :
    Gives (Expr.Calls V) (c.narrowedValue inst k) := by
  refine .bind (calls_doubleSource V) fun a ha => ?_
  extract_lets compareBy
  have hcompare {op : BinaryOp} : Gives (Expr.Calls V) (compareBy op) :=
    .bind (calls_doubleSource V) fun _ hb => .pure (by simp +decide [ha, hb])
  split
  case h_1 | h_2 | h_3 => exact .pure (by simp +decide [ha])
  all_goals exact hcompare

theorem calculated_fromDouble :
    Gives (Calculated V (c.program.drops inst 0)) (c.fromDouble inst types) :=
  .skip fun _ => calculated_withDestination fun _ ht =>
    .bind (.mapM fun _ _ => calls_narrowedValue V) fun _ ⟨_, hlanes⟩ =>
      .pure (calculated_storeLine ht (calls_construct hlanes))

theorem calculated_evaluate : Gives (Calculated V (c.program.drops inst 0)) (c.evaluate inst) := by
  refine .ite (fun _ => .error) fun _ => .skip fun _ => ?_
  refine calculated_withDestination fun dst ht => .skip fun id => .skip fun op => ?_
  refine .skip fun register => ?_
  have lanes {function : String} {extra : List Expr} (hf : Common function)
      (he : ∀ e ∈ extra, e.Calls V) : Gives (Calculated V false) (do
        let lanes ← dst.components.mapM (c.evaluatedLane function extra register op)
        return c.storeLine dst (c.construct .float lanes) .float) := by
    refine .bind (.mapM (R := Expr.Calls V) fun lane _ => ?_) fun _ ⟨_, hlanes⟩ =>
      .pure (calculated_storeLine ht (calls_construct hlanes))
    exact .skip fun _ => .pure (calls_modify.mpr (calls_cast.mpr (by simpa [hf] using he)))
  split
  case h_2 | h_3 =>
    exact .bind (calls_argSource V) fun _ he => lanes (by decide) (by simp +decide [he])
  all_goals exact lanes (by decide) (List.forall_mem_nil _)

end Context

end ShaderLift
