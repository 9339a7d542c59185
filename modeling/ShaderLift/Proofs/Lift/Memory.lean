import ShaderLift.Proofs.Lift.Texture
import ShaderLift.Lift.Memory

/-!
The lines of instructions that access buffers, images and shared memory.
-/

namespace ShaderLift

open Glsl Std.Do

set_option mvcgen.warning false

@[simp] theorem Opcode.isWord_atomicName {op : Opcode} : IsWord op.atomicName := by
  unfold atomicName
  split <;> decide

def Memory.Over (N : Name → Prop) : Memory → Prop
  | words array _ => array.Over N
  | image name _ _ => name.Over N

namespace Context

variable {c : Context} {inst : Instruction}

@[spec] theorem memory_spec {id : OperandId} (hid : c.program.Reaches id) :
    ⦃⌜True⌝⦄ c.memory id ⦃⇓? m => ⌜m.Over c.names⌝⦄ := by
  mvcgen [memory]
  case vc2.success.success.h_1.success h => exact .resourceData h
  case vc3.success.success.h_2.success.h_1 hk h => exact .uavData h hk
  case vc4.success.success.h_2.success.h_2 hk h => exact .image h hk
  case vc5.success.success.h_3.success.success h => exact .shared h

@[simp] theorem over_uint {N : Name → Prop} {n : UInt32} : (c.uint n).Over N :=
  over_literal

@[simp] theorem over_wordAt {N : Name → Prop} {array first : Expr} {k : Nat} (ha : array.Over N)
    (hf : first.Over N) : (c.wordAt array first k).Over N := by
  unfold wordAt
  split <;> simp_all

section Instruction

variable (hi : inst ∈ c.program.instructions)

include hi

@[spec] theorem wordAddress_spec {layout : MemoryLayout} {i : Nat} :
    ⦃⌜True⌝⦄ c.wordAddress layout inst i ⦃⇓? e => ⌜e.Over c.names⌝⦄ := by
  mvcgen [wordAddress, rawWord, structuredWord] with simp_all

theorem loadBuffer_spec :
    ⦃⌜True⌝⦄ c.loadBuffer inst ⦃⇓? lines => ⌜Emitted c.names lines⌝⦄ := by
  mvcgen [loadBuffer, withDestination, Context.construct] with simp_all +zetaDelta [Memory.Over]
  refine emitted_storeLine ‹_› (over_construct (List.forall_mem_map.mpr fun _ _ => ?_))
  exact over_wordAt ‹_› ‹_›

theorem storeBuffer_spec :
    ⦃⌜True⌝⦄ c.storeBuffer inst ⦃⇓? lines => ⌜Emitted c.names lines⌝⦄ := by
  have lines {l : List Nat} {f : Nat → Except LiftError Line} :=
    mapM_spec (l := l) (f := f) (P := Line.Flat c.names)
  mvcgen [storeBuffer, lines] with (clear lines; simp_all +zetaDelta [Memory.Over])
  exact .flat

theorem loadImage_spec :
    ⦃⌜True⌝⦄ c.loadImage inst ⦃⇓? lines => ⌜Emitted c.names lines⌝⦄ := by
  mvcgen [loadImage, imageCoord, withDestination] with simp_all +zetaDelta +decide [Memory.Over]

theorem storeImage_spec :
    ⦃⌜True⌝⦄ c.storeImage inst ⦃⇓? lines => ⌜Emitted c.names lines⌝⦄ := by
  mvcgen [storeImage, imageCoord] with simp_all +zetaDelta +decide [Memory.Over]

theorem bufferInfo_spec :
    ⦃⌜True⌝⦄ c.bufferInfo inst ⦃⇓? lines => ⌜Emitted c.names lines⌝⦄ := by
  have memory {id m} (hid : c.program.Reaches id) (h : c.memory id = .ok m) : m.Over c.names :=
    returns_iff.mp (memory_spec hid) m h
  mvcgen [bufferInfo, withDestination, Context.splat]
  case vc4.success.h_1.success.success.h_1 | vc5.success.h_1.success.success.h_2
      | vc6.success.h_1.success.success.h_3 =>
    have hm := memory ‹_› ‹_›
    simp_all +zetaDelta +decide [Memory.Over, ValueType.isWord_scalarName]
  all_goals simp_all +zetaDelta +decide [ValueType.isWord_scalarName]

@[spec] theorem scalarResult_spec {value : Expr} {type : ValueType} (hv : value.Over c.names) :
    ⦃⌜True⌝⦄ c.scalarResult inst value type ⦃⇓? lines => ⌜Emitted c.names lines⌝⦄ := by
  mvcgen [scalarResult] with simp_all

@[spec] theorem atomicArgs_spec {i : Nat} {type : ValueType} :
    ⦃⌜True⌝⦄ c.atomicArgs inst i type ⦃⇓? args => ⌜∀ e ∈ args, e.Over c.names⌝⦄ := by
  mvcgen [atomicArgs] with simp_all

@[spec] theorem atomicCall_spec {i : Nat} :
    ⦃⌜True⌝⦄ c.atomicCall inst i ⦃⇓? r => ⌜r.1.Over c.names⌝⦄ := by
  mvcgen [atomicCall, rawWord, structuredWord, imageCoord]
    with simp_all +zetaDelta +decide [Memory.Over]

theorem atomic_spec : ⦃⌜True⌝⦄ c.atomic inst ⦃⇓? lines => ⌜Emitted c.names lines⌝⦄ := by
  mvcgen [atomic] with simp_all

theorem counter_spec : ⦃⌜True⌝⦄ c.counter inst ⦃⇓? lines => ⌜Emitted c.names lines⌝⦄ := by
  mvcgen [counter]
  case vc3 => exact fun _ => hi
  case vc4 slot _ value =>
    intro h
    have hslot : c.names (.counter slot) := by
      have ⟨uav, hu, hc⟩ := Option.any_eq_true .. |>.mp (Option.filter_eq_some_iff.mp h).right
      exact .counter hu hc
    simp only [value]
    split <;> simp_all +zetaDelta +decide

end Instruction

end Context

end ShaderLift
