import ShaderLift.Proofs.Flow.Nesting
import ShaderLift.Proofs.Lift.Memory
import ShaderLift.Proofs.Lift.Routine

/-!
The lines of each instruction, by what it means for the block structure.
-/

namespace ShaderLift

open Glsl Std.Do

set_option mvcgen.warning false

-- What an instruction in some role is lifted to.
inductive Stepped (N : Name → Prop) : Flow.Role → List Line → Prop
  | opener {kind head} (head_over : head.Over N) : Stepped N (.opener kind) [.enter head]
  | otherwise : Stepped N (.divider .conditional) [.otherwise]
  | startCase {label before} (label_over : label.Over N)
      (before_end : ∀ line ∈ before, line = .endCase) :
      Stepped N (.divider .choice) (before ++ [.caseLabel label])
  | closer {kind before}
      (before_end : ∀ line ∈ before, line = .endCase ∨ line = .stmt (.jump .breakOut)) :
      Stepped N (.closer kind) (before ++ [.leave])
  | other {role lines} (role_plain : role.isStructural = false) (emitted : Emitted N lines) :
      Stepped N role lines

theorem stepped_iff_emitted {N : Name → Prop} {role : Flow.Role} {lines : List Line}
    (h : role.isStructural = false) : Stepped N role lines ↔ Emitted N lines := by
  refine ⟨fun hs => ?_, .other h⟩
  cases hs
  case other he => exact he
  all_goals cases h

def Opcode.structural : List Opcode :=
  [beginIf, beginLoop, beginSwitch, orElse, caseLabel, defaultLabel, endIf, endLoop, endSwitch]

theorem Opcode.mem_structural_iff {op : Opcode} : op ∈ structural ↔ op.role.isStructural := by
  have h : ∀ op ∈ all, op ∈ structural ↔ op.role.isStructural := by decide +kernel
  exact h op op.mem_all

theorem Opcode.isStructural_of_not_directs {op : Opcode} (h : ¬op.Directs) :
    op.role.isStructural = false := by
  have hn : op ∉ structural := by
    simp only [structural, List.mem_cons, List.not_mem_nil, or_false]
    rintro (rfl | rfl | rfl | rfl | rfl | rfl | rfl | rfl | rfl) <;> exact h (by constructor)
  simpa [mem_structural_iff] using hn

theorem Comparison.isWord_function {k : Comparison} : IsWord k.function := by
  cases k <;> decide

namespace Context

variable {c : Context} {inst : Instruction} {N : Name → Prop}

@[spec] theorem startCase_spec {label : CaseLabel} :
    ⦃⌜True⌝⦄ startCase label
    ⦃⇓? lines => ⌜∃ before, (∀ line ∈ before, line = Line.endCase) ∧
      lines = before ++ [Line.caseLabel label]⌝⦄ := by
  mvcgen [startCase]
  exact ⟨_, by split <;> simp, rfl⟩

@[spec] theorem endSwitch_spec :
    ⦃⌜True⌝⦄ c.endSwitch
    ⦃⇓? lines => ⌜∃ before,
      (∀ line ∈ before, line = Line.endCase ∨ line = .stmt (.jump .breakOut)) ∧
      lines = before ++ [Line.leave]⌝⦄ := by
  mvcgen [endSwitch]
  refine ⟨_, List.forall_mem_append.mpr ⟨?filler, ?cases⟩, rfl⟩
  case filler =>
    simp +zetaDelta only
    split <;> simp
  case cases => split <;> simp

@[simp] theorem over_returnJump : c.returnJump.Over N := by
  unfold returnJump
  split <;> trivial

@[spec] theorem streamOf_spec : ⦃⌜True⌝⦄ c.streamOf inst ⦃⇓? _ => ⌜True⌝⦄ :=
  returns_iff.mpr fun _ _ => trivial

@[spec] theorem emitVertex_spec (he : inst.opcode.Emits) :
    ⦃⌜True⌝⦄ c.emitVertex inst ⦃⇓? lines => ⌜Emitted c.names lines⌝⦄ := by
  unfold emitVertex
  generalize inst.opcode = op at he
  cases he
  all_goals
    mvcgen
    all_goals exact .flat (by simp +zetaDelta +decide [apply_ite (Expr.Over c.names)])

@[spec] theorem synchronize_spec :
    ⦃⌜True⌝⦄ c.synchronize inst ⦃⇓? lines => ⌜Emitted c.names lines⌝⦄ := by
  mvcgen [synchronize]
  all_goals exact .flat (by simp +zetaDelta +decide)

section Instruction

variable (hi : inst ∈ c.program.instructions)

include hi

@[spec] theorem instruction_spec :
    ⦃⌜True⌝⦄ c.instruction inst ⦃⇓? lines => ⌜Emitted c.names lines⌝⦄ := by
  rw [instruction_eq_perform]
  cases inst.opcode.routine
  case sample => exact sample_spec hi
  case swapc => exact swapc_spec hi
  case twoResults => exact twoResults_spec hi
  case elementwise => exact elementwise_spec hi
  all_goals
    mvcgen [perform, loadTexel_spec, queryLod_spec, sizeInfo_spec, bufferInfo_spec, loadBuffer_spec,
      storeBuffer_spec, loadImage_spec, storeImage_spec, counter_spec, atomic_spec, mov_spec,
      movc_spec, dot_spec, evaluate_spec, doubleResult_spec, compare_spec, perLane_spec,
      fromDouble_spec]
  exact Comparison.isWord_function

@[spec] theorem flowOperand_spec {i : Nat} :
    ⦃⌜True⌝⦄ c.flowOperand inst i ⦃⇓? id => ⌜c.program.Reaches id⌝⦄ := by
  mvcgen [flowOperand]
  exact .arg hi (List.mem_of_getElem? ‹_›)

-- Only labels that the program has are called, and none in a hull shader.
@[spec] theorem callee_spec {i : Nat} :
    ⦃⌜True⌝⦄ c.callee inst i ⦃⇓? j => ⌜j.Over c.names⌝⦄ := by
  mvcgen [callee]
  have hlabel := ‹¬(c.flow.subroutine? _).isNone›
  have ⟨_, hsub⟩ := Option.ne_none_iff_exists'.mp (mt Option.isNone_iff_eq_none.mpr hlabel)
  exact .subroutine ‹_› hsub

@[spec] theorem condition_spec : ⦃⌜True⌝⦄ c.condition inst ⦃⇓? e => ⌜e.Over c.names⌝⦄ := by
  mvcgen [condition]

@[spec] theorem caseLabel_spec : ⦃⌜True⌝⦄ c.caseLabel inst ⦃⇓? label => ⌜label.Over c.names⌝⦄ := by
  mvcgen [caseLabel] with simp_all [CaseLabel.Over]

@[spec] theorem lines_spec {isLast : Bool} :
    ⦃⌜True⌝⦄ c.lines inst isLast ⦃⇓? lines => ⌜Stepped c.names inst.opcode.role lines⌝⦄ := by
  have plain {op : Opcode} (hs : op.role.isStructural = false) {x : Emit (List Line)}
      (hx : ⦃⌜True⌝⦄ x ⦃⇓? lines => ⌜Emitted c.names lines⌝⦄) :
      ⦃⌜True⌝⦄ x ⦃⇓? lines => ⌜Stepped c.names op.role lines⌝⦄ := by
    simpa only [stepped_iff_emitted hs] using hx
  by_cases hd : inst.opcode.Directs
  case neg =>
    rw [lines_of_not_directs hd]
    exact plain (Opcode.isStructural_of_not_directs hd) (instruction_spec hi)
  unfold lines
  generalize hop : inst.opcode = op at hd
  cases hd
  case beginIf | beginSwitch =>
    mvcgen
    exact .opener ‹_›
  case beginLoop =>
    mvcgen
    exact .opener trivial
  case orElse =>
    mvcgen
    exact .otherwise
  case endIf | endLoop =>
    mvcgen
    exact .closer (List.forall_mem_nil _)
  case caseLabel =>
    mvcgen
    exact fun _ ⟨_, hb, hl⟩ => hl ▸ .startCase ‹_› hb
  case defaultLabel =>
    mvcgen
    exact fun _ ⟨_, hb, hl⟩ => hl ▸ .startCase trivial hb
  case endSwitch =>
    mvcgen
    exact fun _ ⟨_, hb, hl⟩ => hl ▸ .closer hb
  case emission he =>
    have hemits : inst.opcode.Emits := hop ▸ he
    cases he
    all_goals
      refine plain rfl ?_
      mvcgen
  all_goals
    refine plain rfl ?_
    mvcgen with simp +zetaDelta [*, apply_ite (Emitted c.names)]

theorem step_spec {isLast : Bool} :
    ⦃⌜True⌝⦄ c.step inst isLast ⦃⇓? lines => ⌜Stepped c.names inst.opcode.role lines⌝⦄ := by
  mvcgen [step, expectOperands]

end Instruction

end Context

end ShaderLift
