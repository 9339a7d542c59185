import ShaderLift.Proofs.Lift.Sources
import ShaderLift.Lift.Arithmetic

/-!
The lines of arithmetic instructions: statements over the names of the program, or one block of such
statements where results are held before they are written.
-/

namespace ShaderLift

open Glsl Std.Do

set_option mvcgen.warning false

namespace Glsl

def Line.Flat (N : Name → Prop) : Line → Prop
  | stmts ss => ∀ s ∈ ss, s.Over N
  | _ => False

@[simp] theorem Line.flat_stmt {N : Name → Prop} {s : Stmt} : (stmt s).Flat N ↔ s.Over N := by
  simp [stmt, Line.Flat]

end Glsl

inductive Emitted (N : Name → Prop) : List Line → Prop
  | flat {lines} (flat : ∀ line ∈ lines, line.Flat N) : Emitted N lines
  | block {lines} (flat : ∀ line ∈ lines, line.Flat N) : Emitted N (block .bare lines)

@[simp] theorem emitted_nil {N : Name → Prop} : Emitted N [] :=
  .flat (by simp)

@[simp] theorem emitted_stmt {N : Name → Prop} {s : Stmt} (h : s.Over N) : Emitted N [.stmt s] :=
  .flat (by simpa using h)

@[mk_iff] structure Pending.Over (N : Name → Prop) (p : Pending) : Prop where
  target : p.destination.target.Over N
  setup  : ∀ s ∈ p.setup, s.Over N
  value  : p.value.Over N

@[spec] theorem Emit.freshName_spec :
    ⦃⌜True⌝⦄ Emit.freshName ⦃⇓? name => ⌜∀ c : Context, c.names name⌝⦄ := by
  mvcgen [Emit.freshName]
  exact fun _ => .scratch

@[spec] theorem Emit.useExtension_spec {e : Extension} :
    ⦃⌜True⌝⦄ Emit.useExtension e ⦃⇓? _ => ⌜True⌝⦄ := by
  mvcgen [Emit.useExtension]

namespace Context

variable {c : Context} {inst : Instruction} {types : AluTypes} {type : ValueType} {op : Opcode}

@[simp] theorem isWord_vec {t : ValueType} {n : Nat} : IsWord (c.vec t n) :=
  ValueType.isWord_vecName

@[simp] theorem emitted_storeLine {dst : Destination} {value : Expr} (hd : dst.target.Over c.names)
    (hv : value.Over c.names) : Emitted c.names (c.storeLine dst value type) :=
  .flat (by simp [storeLine, over_store, hd, hv])

@[spec] theorem naturalType_spec {id : OperandId} : ⦃⌜True⌝⦄ c.naturalType id ⦃⇓? _ => ⌜True⌝⦄ :=
  returns_iff.mpr fun _ _ => trivial

@[spec] theorem choose_spec {test yes no : OperandId} {lanes : List Nat}
    (ht : c.program.Reaches test) (hy : c.program.Reaches yes) (hn : c.program.Reaches no) :
    ⦃⌜True⌝⦄ c.choose test yes no type lanes ⦃⇓? e => ⌜e.Over c.names⌝⦄ := by
  have lanes := @lanes_spec c
  mvcgen [choose, Context.construct, lanes] with (clear lanes; simp_all)

@[spec] theorem hold_spec {ps : List Pending} (hp : ∀ p ∈ ps, p.Over c.names) :
    ⦃⌜True⌝⦄ c.hold ps
    ⦃⇓? r => ⌜(∀ s ∈ r.1, s.Over c.names) ∧ ∀ name ∈ r.2, c.names name⌝⦄ := by
  induction ps
  case nil => mvcgen [hold] with simp
  case cons p ps hi =>
    have ⟨hp, hps⟩ := List.forall_mem_cons.mp hp
    have hi := hi hps
    mvcgen [hold, hi]
    case vc1.post.success.post.success name _ hname r _ _ hr =>
      simp only [List.forall_mem_append, List.forall_mem_cons]
      exact ⟨⟨hp.setup, ⟨isWord_vec, hname c, hp.value⟩, hr.left⟩, hname c, hr.right⟩

-- Results that are held are written behind all of them, in the same block.
@[spec] theorem commit_spec {ps : List Pending} (hp : ∀ p ∈ ps, p.Over c.names) :
    ⦃⌜True⌝⦄ c.commit ps ⦃⇓? lines => ⌜Emitted c.names lines⌝⦄ := by
  mvcgen [commit]
  case vc1.h_1 => exact emitted_nil
  case vc2.h_2 h _ =>
    have hp := hp _ (h ▸ List.mem_singleton_self _)
    exact emitted_storeLine hp.target hp.value
  case vc3.hp h _ => exact h ▸ hp
  case vc4.h_3.post.success h _ r _ _ hr =>
    have hstores := forall_mem_zipWith fun p hpm name (hn : name ∈ r.2) =>
      have hv : (Expr.var name).Over c.names := hr.right name hn
      show (c.store p.destination (.var name) p.type).Over c.names from
        over_store (hp p (h ▸ hpm)).target hv
    have hs := List.forall_mem_append.mpr ⟨hr.left, hstores⟩
    exact .block (List.forall_mem_map.mpr fun s h => Line.flat_stmt.mpr (hs s h))

@[spec] theorem resultValue_spec {isFirst : Bool} {args : List Expr} {n : Nat}
    (ha : ∀ a ∈ args, a.Over c.names) :
    ⦃⌜True⌝⦄ c.resultValue op isFirst args type n
    ⦃⇓? r => ⌜(∀ s ∈ r.1, s.Over c.names) ∧ r.2.Over c.names⌝⦄ := by
  unfold resultValue
  split
  case h_13 => mvcgen
  all_goals simp only [List.forall_mem_cons] at ha
  case h_5 | h_6 | h_11 | h_12 =>
    mvcgen [resultValue.wide, resultValue.carry] with simp_all +decide [outArgument]
  all_goals mvcgen with simp +decide [ha]

@[spec] theorem derivative_spec {e : Expr} (he : e.Over c.names) :
    ⦃⌜True⌝⦄ c.derivative op e ⦃⇓? e => ⌜e.Over c.names⌝⦄ := by
  unfold derivative
  mvcgen
  all_goals
    simp only [Expr.Over, isWord_append, Expr.overs_iff, List.forall_mem_singleton, he, and_true]
    exact ⟨⟨by decide, by split <;> decide⟩, by repeat' (first | decide | split)⟩

namespace elementwiseValue

variable {args : List Expr} (ha : ∀ a ∈ args, a.Over c.names)

include ha

@[spec] theorem unary_spec {f : Expr → Expr} (hf : ∀ a, a.Over c.names → (f a).Over c.names) :
    ⦃⌜True⌝⦄ unary args f ⦃⇓? e => ⌜e.Over c.names⌝⦄ := by
  mvcgen [unary] with simp_all

@[spec] theorem binary_spec {f : Expr → Expr → Expr}
    (hf : ∀ a b, a.Over c.names → b.Over c.names → (f a b).Over c.names) :
    ⦃⌜True⌝⦄ binary args f ⦃⇓? e => ⌜e.Over c.names⌝⦄ := by
  mvcgen [binary] with simp_all

@[spec] theorem call_spec {f : String} (hf : IsWord f) :
    ⦃⌜True⌝⦄ call args f ⦃⇓? e => ⌜e.Over c.names⌝⦄ :=
  unary_spec ha fun _ ha => by simp [hf, ha]

@[spec] theorem bitwise_spec {f : Expr → Expr → Expr}
    (hf : ∀ a b, a.Over c.names → b.Over c.names → (f a b).Over c.names) :
    ⦃⌜True⌝⦄ bitwise c args f ⦃⇓? e => ⌜e.Over c.names⌝⦄ := by
  mvcgen [bitwise]

@[spec] theorem bitfield_spec {f : String} (hf : IsWord f) :
    ⦃⌜True⌝⦄ bitfield c args f ⦃⇓? e => ⌜e.Over c.names⌝⦄ := by
  mvcgen [bitfield]

end elementwiseValue

@[spec] theorem elementwiseValue_spec {op : Opcode} {args : List Expr} {n : Nat}
    (ha : ∀ a ∈ args, a.Over c.names) :
    ⦃⌜True⌝⦄ c.elementwiseValue op args n types ⦃⇓? e => ⌜e.Over c.names⌝⦄ := by
  have fails : ⦃⌜True⌝⦄ (c.unsupported .noTranslation : Emit Expr) ⦃⇓? e => ⌜e.Over c.names⌝⦄ := by
    mvcgen
  unfold elementwiseValue
  cases op
  case add | iadd | mul | div | min | imin | umin | max | imax | umax =>
    exact elementwiseValue.binary_spec ha fun _ _ ha hb => by simp +decide [ha, hb]
  case mad | imad | umad => mvcgen with simp_all
  case frc | exp | log | sqrt | rsq | roundNi | roundPi =>
    exact elementwiseValue.call_spec ha (by decide)
  case itof | utof | ftoi | ftou => exact elementwiseValue.call_spec ha isWord_vec
  case rcp | ineg => exact elementwiseValue.unary_spec ha fun _ ha => by simp [ha]
  case roundNe | not | roundZ => mvcgen with simp_all +decide
  case derivRtx | derivRty | derivRtxCoarse | derivRtxFine | derivRtyCoarse | derivRtyFine =>
    mvcgen with simp_all
  case ishl | ishr | ushr | and | or | xor =>
    exact elementwiseValue.bitwise_spec ha fun _ _ ha hb => by simp [ha, hb]
  case countBits | firstBitLo | bfrev => exact elementwiseValue.bitfield_spec ha (by decide)
  all_goals exact fails

@[spec] theorem evaluatedLane_spec {f : String} {extra : List Expr} {register : UInt32}
    {op : Operand} {lane : Nat} (hf : IsWord f) (he : ∀ e ∈ extra, e.Over c.names) :
    ⦃⌜True⌝⦄ c.evaluatedLane f extra register op lane ⦃⇓? e => ⌜e.Over c.names⌝⦄ := by
  mvcgen [evaluatedLane, Context.cast]
  case vc1.success v _ hv =>
    have hv : c.names (.varying v.name) := .varying (List.mem_of_find?_eq_some hv)
    simp_all +zetaDelta

section Instruction

variable (hi : inst ∈ c.program.instructions)

include hi

theorem mov_spec : ⦃⌜True⌝⦄ c.mov inst ⦃⇓? lines => ⌜Emitted c.names lines⌝⦄ := by
  mvcgen [mov, withDestination] with simp_all

theorem movc_spec : ⦃⌜True⌝⦄ c.movc inst ⦃⇓? lines => ⌜Emitted c.names lines⌝⦄ := by
  mvcgen [movc, withDestination] with simp_all

theorem swapc_spec : ⦃⌜True⌝⦄ c.swapc inst ⦃⇓? lines => ⌜Emitted c.names lines⌝⦄ := by
  mvcgen [swapc] with simp_all [Pending.over_iff]

@[spec] theorem twoResult_spec {i : Nat} :
    ⦃⌜True⌝⦄ c.twoResult inst types i ⦃⇓? ps => ⌜∀ p ∈ ps, p.Over c.names⌝⦄ := by
  have lanes := @lanes_spec c
  mvcgen [twoResult, lanes]
  case vc3.hid h _ => exact .arg hi (List.mem_of_mem_drop h)
  all_goals (clear lanes; simp_all [Pending.over_iff])

theorem twoResults_spec :
    ⦃⌜True⌝⦄ c.twoResults inst types ⦃⇓? lines => ⌜Emitted c.names lines⌝⦄ := by
  mvcgen [twoResults]
  exact fun _ h => List.forall_mem_append.mpr ⟨‹_›, h⟩

theorem dot_spec {k : Nat} :
    ⦃⌜True⌝⦄ c.dot inst k ⦃⇓? lines => ⌜Emitted c.names lines⌝⦄ := by
  mvcgen [dot, withDestination, Context.splat] with simp_all +zetaDelta +decide

theorem compare_spec {f : String} {op : BinaryOp} (hf : IsWord f) :
    ⦃⌜True⌝⦄ c.compare inst types f op ⦃⇓? lines => ⌜Emitted c.names lines⌝⦄ := by
  mvcgen [compare, withDestination] with
    simp_all +zetaDelta +decide [apply_ite (Expr.Over c.names)]

theorem elementwise_spec :
    ⦃⌜True⌝⦄ c.elementwise inst types ⦃⇓? lines => ⌜Emitted c.names lines⌝⦄ := by
  have lanes := @lanes_spec c
  mvcgen [elementwise, lanes]
  case vc3.hid h _ => exact .arg hi (List.mem_of_mem_drop h)
  all_goals (clear lanes; simp_all)

@[spec] theorem laneValue_spec {lane : Nat} :
    ⦃⌜True⌝⦄ c.laneValue inst types lane ⦃⇓? e => ⌜e.Over c.names⌝⦄ := by
  mvcgen [laneValue, bitField]

theorem perLane_spec :
    ⦃⌜True⌝⦄ c.perLane inst types ⦃⇓? lines => ⌜Emitted c.names lines⌝⦄ := by
  have lanes := @lanes_spec c
  mvcgen [perLane, withDestination, Context.construct, lanes] with (clear lanes; simp_all)

@[spec] theorem doubleSource_spec {i pair : Nat} :
    ⦃⌜True⌝⦄ c.doubleSource inst i pair ⦃⇓? e => ⌜e.Over c.names⌝⦄ := by
  mvcgen [doubleSource] with simp_all +decide

@[spec] theorem doubleValue_spec {pair k : Nat} :
    ⦃⌜True⌝⦄ c.doubleValue inst pair k ⦃⇓? e => ⌜e.Over c.names⌝⦄ := by
  mvcgen [doubleValue]

theorem doubleResult_spec :
    ⦃⌜True⌝⦄ c.doubleResult inst ⦃⇓? lines => ⌜Emitted c.names lines⌝⦄ := by
  have lanes := @lanes_spec c
  mvcgen [doubleResult, withDestination, lanes]
  case vc4.success.success.h_1.success dst _ _ hdst values value _ hvalues =>
    have hvalue : value.Over c.names := by
      simp only [value]
      split
      case h_1 => exact List.forall_mem_singleton.mp hvalues.left
      case h_2 => exact ⟨isWord_vec, Expr.overs_iff.mpr hvalues.left⟩
    exact emitted_storeLine (hdst dst rfl) hvalue
  all_goals (clear lanes; simp_all +decide)

@[spec] theorem narrowedValue_spec {k : Nat} :
    ⦃⌜True⌝⦄ c.narrowedValue inst k ⦃⇓? e => ⌜e.Over c.names⌝⦄ := by
  mvcgen [narrowedValue]

theorem fromDouble_spec :
    ⦃⌜True⌝⦄ c.fromDouble inst types ⦃⇓? lines => ⌜Emitted c.names lines⌝⦄ := by
  have lanes := @lanes_spec c
  mvcgen [fromDouble, withDestination, Context.construct, lanes] with (clear lanes; simp_all)

theorem evaluate_spec :
    ⦃⌜True⌝⦄ c.evaluate inst ⦃⇓? lines => ⌜Emitted c.names lines⌝⦄ := by
  have lanes := @lanes_spec c
  mvcgen [evaluate, withDestination, Context.construct, lanes]
    with (clear lanes; simp_all +zetaDelta +decide)

end Instruction

end Context

end ShaderLift
