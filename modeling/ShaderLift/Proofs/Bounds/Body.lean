import ShaderLift.Proofs.Bounds.Texture
import ShaderLift.Proofs.Lift.Routine

/-!
Instructions stay in range, but for fetches from multisampled textures by the instruction for
textures with one sample. Their lines subscript register files by the indices of operands.
-/

namespace ShaderLift

open Glsl

-- Whether some number of operands is enough for a lifting function. The fetch of a texel may need
-- one more operand than `ld` has.
def Routine.isServed (op : Opcode) (n : Nat) : Routine → Bool
  | .sample texture sampler _ => 3 ≤ n && texture < n && sampler < n
  | .loadTexel => op = .ld || 4 ≤ n
  | .loadBuffer => 3 ≤ n && (op = .ldRaw || 4 ≤ n)
  | .storeBuffer => 3 ≤ n && (op = .storeRaw || 4 ≤ n)
  | .atomic => 3 + op.isReturningAtomic.toNat + op.isCompareAtomic.toNat ≤ n
  | .twoResults _ => op ∈ [.sinCos, .udiv, .imul, .umul, .uaddc, .usubb] && 2 ≤ n
  | .fromDouble _ => 2 ≤ n && (op ∈ [.dtof, .dtoi, .dtou] || 3 ≤ n)
  | .elementwise _ => 1 ≤ n
  | .bufferInfo | .counter | .mov | .evaluate | .doubleResult | .perLane _ => 2 ≤ n
  | .sizeInfo | .loadImage | .storeImage | .dot _ | .compare .. => 3 ≤ n
  | .queryLod | .movc => 4 ≤ n
  | .swapc => 5 ≤ n
  | .unsupported _ => true

theorem Opcode.isServed_routine {op : Opcode} {n : Nat} (h : op.operandCount = some n) :
    op.routine.isServed op n := by
  have hall : ∀ op ∈ all, op.operandCount.all (op.routine.isServed op ·) := by decide +kernel
  have hop := hall op op.mem_all
  rwa [h] at hop

namespace Context

variable {c : Context} {inst : Instruction}

variable (h : c.program.Holds inst)

include h

theorem stays_instruction (hld : inst.opcode ≠ .ld) :
    c.Emits c.AdmitsAll (c.instruction inst) := by
  have hs := Opcode.isServed_routine (h.counts inst h.mem)
  rw [instruction_eq_perform]
  cases hr : inst.opcode.routine
  all_goals
    simp only [hr, Routine.isServed, Bool.and_eq_true, Bool.or_eq_true, decide_eq_true_eq] at hs
  case sample => exact stays_sample h hs.1.1 hs.1.2 hs.2
  case loadTexel =>
    have hn := hs.resolve_left hld
    exact .lift ((ends_loadTexel h (by omega)).imp fun ⟨hthree, _⟩ => by omega)
  case queryLod => exact .lift (stays_queryLod h hs)
  case sizeInfo => exact .lift (stays_sizeInfo h hs)
  case bufferInfo => exact .lift (stays_bufferInfo h hs)
  case loadBuffer => exact .lift (stays_loadBuffer h hs.1 hs.2.resolve_left)
  case storeBuffer => exact .lift (stays_storeBuffer h hs.1 hs.2.resolve_left)
  case loadImage => exact .lift (stays_loadImage h hs)
  case storeImage => exact .lift (stays_storeImage h hs)
  case counter => exact .lift (stays_counter h hs)
  case atomic =>
    refine .lift (stays_atomic h (by omega) (fun hret => ?_) (fun hcmp => ?_) fun hret hcmp => ?_)
    · rw [hret, Bool.toNat_true] at hs
      omega
    · rw [hcmp, Bool.toNat_true] at hs
      omega
    · rwa [hret, hcmp] at hs
  case mov => exact .lift (stays_mov h hs)
  case movc => exact .lift (stays_movc h hs)
  case swapc => exact stays_swapc h hs
  case dot => exact .lift (stays_dot h hs)
  case evaluate => exact .lift (stays_evaluate h hs)
  case doubleResult => exact .lift (stays_doubleResult h hs)
  case twoResults => exact stays_twoResults h hs.1 hs.2
  case compare => exact .lift (stays_compare h hs)
  case perLane => exact .lift (stays_perLane h hs)
  case fromDouble => exact .lift (stays_fromDouble h hs.1 hs.2.resolve_left)
  case elementwise => exact stays_elementwise h hs
  case unsupported => exact .throw trivial

theorem stays_flowOperand {i : Nat} : c.Stays c.program.Reaches (c.flowOperand inst i) := by
  unfold flowOperand
  cases hi : inst.operands[i]?
  case none => exact trivial
  case some => exact .arg h.mem (List.mem_of_getElem? hi)

theorem stays_condition : c.Stays c.Admits (c.condition inst) :=
  .bind (stays_flowOperand h) fun _ hid =>
    .bind (stays_source h.toClosed hid) fun _ he => .pure (by simp [he])

theorem stays_caseLabel :
    c.Stays (fun label => (Line.caseLabel label).Subscripts c.accesses) (c.caseLabel inst) := by
  refine .bind (stays_flowOperand h) fun _ hid => ?_
  refine .bind (stays_operand h.toClosed hid) fun op _ => ?_
  cases op.immediate
  case none => exact trivial
  case some immediate =>
    cases immediate
    case words => exact .pure subscripts_intLiteral
    case longs => exact trivial

theorem inRange_callee {i : Nat} : c.InRange (c.callee inst i) := by
  refine .ite (fun _ => trivial) fun _ => .bind (stays_flowOperand h) fun _ hid => ?_
  refine .bind (stays_operand h.toClosed hid) fun _ _ => .bind stays_orUnresolved fun _ _ => ?_
  exact .ite (fun _ => trivial) fun _ => .pure trivial

theorem stays_emitVertex (he : inst.opcode.Emits) : c.Stays c.AdmitsAll (c.emitVertex inst) := by
  have hstream : c.InRange (c.streamOf inst) := by
    unfold streamOf
    cases hi : inst.operands.head?
    case none => exact .pure trivial
    case some =>
      exact .bind (stays_operand h.toClosed (.arg h.mem (List.mem_of_head? hi))) fun _ _ =>
        .pure trivial
  have call {stream : UInt32} {plain onStream : String} : (Line.stmt (.eval
      (if stream = 0 then .call plain [] else .call onStream [.number stream]))).Subscripts
        c.accesses := by
    split <;> simp
  have rest {stream : UInt32} {lines : List Line} (hl : c.AdmitsAll lines) : c.Stays c.AdmitsAll (do
      if stream ≠ 0 then
        c.require .multipleStreams
      return lines) :=
    .ite (fun _ => .bind inRange_require fun _ _ => .pure hl) fun _ => .pure hl
  have emit {line : Line} (hl : line.Subscripts c.accesses) : c.AdmitsAll [.stmt .flush, line] :=
    List.forall_mem_cons.mpr ⟨by simp, EachLine.singleton.mpr hl⟩
  refine .ite (fun _ => trivial) fun _ => ?_
  generalize inst.opcode = op at he
  cases he
  case emitStream => exact .bind hstream fun _ _ => rest (emit call)
  case cutStream => exact .bind hstream fun _ _ => rest (EachLine.singleton.mpr call)
  case emitThenCutStream =>
    exact .bind hstream fun _ _ =>
      rest (EachLine.append_iff.mpr ⟨emit call, EachLine.singleton.mpr call⟩)
  case emit => exact .bind (P := fun _ => True) (.pure trivial) fun _ _ => rest (emit call)
  case cut =>
    exact .bind (P := fun _ => True) (.pure trivial) fun _ _ => rest (EachLine.singleton.mpr call)
  case emitThenCut =>
    exact .bind (P := fun _ => True) (.pure trivial) fun _ _ =>
      rest (EachLine.append_iff.mpr ⟨emit call, EachLine.singleton.mpr call⟩)

omit h in
theorem stays_synchronize : c.Stays c.AdmitsAll (c.synchronize inst) := by
  have call {name : String} : c.AdmitsAll [.stmt (.eval (.call name []))] := by simp
  unfold synchronize
  cases inst.controls
  case sync flags =>
    have threads {lines : List Line} (hl : c.AdmitsAll lines) :
        c.Stays c.AdmitsAll (c.awaitThreads flags lines) := by
      refine .ite (fun _ => .ite (fun _ => trivial) fun _ => .pure ?_) fun _ => .pure hl
      exact EachLine.append_iff.mpr ⟨hl, call⟩
    have shared {lines : List Line} (hl : c.AdmitsAll lines) :
        c.Stays c.AdmitsAll (c.awaitShared flags lines) := by
      refine .ite (fun _ => .bind inRange_require fun _ _ => ?_) fun _ => ?_
      · exact threads (EachLine.append_iff.mpr ⟨hl, call⟩)
      · exact threads (EachLine.append_iff.mpr ⟨hl, .nil⟩)
    refine .ite (fun _ => .bind inRange_require fun _ _ => shared call) fun _ => ?_
    exact .ite (fun _ => .bind inRange_require fun _ _ => shared call) fun _ => shared .nil
  all_goals exact trivial

omit h in
theorem stays_startCase {label : CaseLabel} (hl : (Line.caseLabel label).Subscripts c.accesses) :
    c.Emits c.AdmitsAll (startCase label) := by
  intro s
  refine EachLine.append_iff.mpr ⟨?_, EachLine.singleton.mpr hl⟩
  split
  case isTrue => exact EachLine.singleton.mpr trivial
  case isFalse => exact .nil

omit h in
theorem stays_endSwitch : c.Emits c.AdmitsAll c.endSwitch := by
  intro s
  refine EachLine.append_iff.mpr ⟨EachLine.append_iff.mpr ⟨?_, ?_⟩, EachLine.singleton.mpr trivial⟩
  · split <;> simp
  · split
    case isTrue => exact EachLine.singleton.mpr trivial
    case isFalse => exact .nil

theorem stays_lines {isLast : Bool} (hld : inst.opcode ≠ .ld) :
    c.Emits c.AdmitsAll (c.lines inst isLast) := by
  have jump {j : Jump} : c.AdmitsAll [.stmt (.jump j)] := by simp
  have jumpIf {j : Jump} :
      c.Stays c.AdmitsAll (do return [Line.stmt (.jumpIf (← c.condition inst) j)]) :=
    .bind (stays_condition h) fun _ he => .pure (by simpa using he)
  by_cases hd : inst.opcode.Directs
  case neg =>
    rw [lines_of_not_directs hd]
    exact stays_instruction h hld
  unfold lines
  generalize hop : inst.opcode = op at hd
  cases hd
  case nop | customData | hsControlPointPhase | hsForkPhase | hsJoinPhase | hsDecls =>
    exact .pure .nil
  case orElse | endIf | endLoop | beginLoop => exact .pure (EachLine.singleton.mpr trivial)
  case breakOut | continueLoop => exact .pure jump
  case ret =>
    refine .pure ?_
    split
    case isTrue => exact .nil
    case isFalse => exact jump
  case beginIf =>
    exact .bind (.lift (stays_condition h)) fun _ he => .pure (EachLine.singleton.mpr he)
  case beginSwitch =>
    refine .bind (.lift inRange_require) fun _ _ => ?_
    refine .bind (.lift (stays_flowOperand h)) fun _ hid => ?_
    refine .bind (.lift (stays_source h.toClosed hid)) fun _ he => ?_
    exact .bind .step fun _ _ => .pure (EachLine.singleton.mpr he)
  case caseLabel => exact .bind (.lift (stays_caseLabel h)) fun _ hl => stays_startCase hl
  case defaultLabel => exact stays_startCase trivial
  case endSwitch => exact stays_endSwitch
  case breakIf | continueIf | retIf => exact .lift jumpIf
  case discard => exact .ite (fun _ => .throw trivial) fun _ => .lift jumpIf
  case call => exact .bind (.lift (inRange_callee h)) fun _ _ => .pure jump
  case callIf => exact .bind (.lift (inRange_callee h)) fun _ _ => .lift jumpIf
  case label | abort | debugBreak => exact .throw trivial
  case emission he =>
    have hlines := stays_emitVertex h (hop ▸ he)
    cases he <;> exact .lift hlines
  case sync => exact .lift stays_synchronize

-- An instruction goes out of range only as it fetches a texel without the number of a sample.
theorem ends_step {isLast : Bool} :
    Emit.Ends (c.options.Excuses (inst.opcode = .ld ∧ c.FetchesSample inst)) c.AdmitsAll
      (c.step inst isLast) := by
  refine .bind (.lift (P := fun _ => True) ?_) fun _ _ => ?_
  · unfold expectOperands
    cases inst.opcode.operandCount
    case none => exact .pure trivial
    case some => exact .ite (fun _ => .pure trivial) fun _ => trivial
  · by_cases hop : inst.opcode = .ld
    case pos =>
      have hlines : c.lines inst isLast = liftM (c.loadTexel inst) := by
        simp only [lines, instruction, hop]
      rw [hlines]
      exact .lift ((ends_loadTexel h (h.le hop rfl)).imp fun ⟨_, hf⟩ => ⟨hop, hf⟩)
    case neg => exact (stays_lines h hop).excused

end Context

end ShaderLift
