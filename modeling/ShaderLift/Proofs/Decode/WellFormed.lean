import ShaderLift.Decode.Program
import ShaderLift.Proofs.Lift.Depth
import ShaderLift.Proofs.Lift.Lifted

/-!
What decoding guarantees. The operands of a decoded program form a forest: instructions and
declarations hold its roots, indices point to children, which stand before their parents.
-/

namespace ShaderLift

open Arena (Sound)

-- The operand that a declaration keeps.
def Declared.operand? : Declared → Option OperandId
  | indexRange id _ | input id _ _ _ | output id _ _ => some id
  | _ => none

def Declared.references (d : Declared) : List OperandId :=
  d.operand?.toList

structure Instruction.WellFormed (inst : Instruction) : Prop where
  count : inst.opcode.operandCount = some inst.operands.length
  kind  : inst.controls.kind = inst.opcode.kind

theorem Opcode.exists_operandCount {op : Opcode} (h : ¬op.isDeclaration) :
    ∃ n, op.operandCount = some n := by
  have hall : ∀ op ∈ all, op.isDeclaration ∨ op.operandCount.isSome := by decide +kernel
  exact Option.isSome_iff_exists.mp ((hall op op.mem_all).resolve_left h)

namespace Decoder

variable {before : List OperandId} {start : Nat} {op : Opcode} {token : UInt32}

theorem turns_get : Turns before get (fun _ => before) fun _ => True := by
  refine .quiet fun r _ _ h => ?_
  cases h
  exact ⟨rfl, trivial⟩

theorem turns_sampleControls :
    Turns before (sampleControls token) (fun _ => before) fun _ => True := by
  unfold sampleControls
  split
  case isTrue => exact turns_extensions trivial fun _ _ _ _ _ => trivial
  case isFalse => exact .pure trivial (.refl _)

theorem turns_controls {sample : SampleControls} :
    Turns before (controls start op token sample) (fun _ => before) (·.kind = op.kind) := by
  unfold controls
  split
  case h_7 hk => exact turns_word.bind fun _ _ => .pure hk.symm (.refl _)
  case h_10 => exact .throw
  case h_4 hk =>
    extract_lets _ raw
    split
    case h_1 => exact .pure hk.symm (.refl _)
    case h_2 => exact .throw
  all_goals exact .pure (Eq.symm ‹_›) (.refl _)

theorem turns_operandsWithin {bound count : Nat} :
    Turns [] (operandsWithin start bound count) id fun _ => True := by
  induction bound generalizing count
  case zero => exact .pure trivial (.refl _)
  case succ hi =>
    refine turns_get.bind fun _ _ => ?_
    split
    case isTrue => exact .pure trivial (.refl _)
    case isFalse =>
      refine turns_operand.bind fun _ _ => ?_
      split
      case isTrue => exact .throw
      case isFalse =>
        exact hi.beside.bind fun _ _ => .pure trivial (List.perm_append_singleton ..).symm.subperm

theorem turns_instruction (hop : ¬op.isDeclaration) :
    Turns [] (instruction start op token) Instruction.operands Instruction.WellFormed := by
  have ⟨count, hcount⟩ := Opcode.exists_operandCount hop
  refine turns_sampleControls.bind fun _ _ => turns_controls.bind fun _ hkind => ?_
  refine turns_get.bind fun _ _ => turns_operandsWithin.bind fun ids _ => ?_
  simp only [hcount]
  split
  case isTrue => exact .throw
  case isFalse hlength =>
    exact .pure ⟨hcount.trans (congrArg some (not_not.mp hlength).symm), hkind⟩ (.refl _)

section Declaration

theorem turns_orFault {α : Type} {fault : DeclarationFault} {x : Option α} :
    Turns before (orFault start fault x) (fun _ => before) fun _ => True := by
  cases x
  case none => exact .throw
  case some => exact .pure trivial (.refl _)

theorem turns_declaredOperand :
    Turns [] declaredOperand (fun a => [a.1]) fun _ => True := by
  refine turns_operand.bind fun id _ => turns_get.bind fun r _ => ?_
  split <;> exact .pure trivial (.refl _)

theorem turns_slot : Turns [] slot (fun _ => []) fun _ => True :=
  turns_position.bind fun _ _ => turns_declaredOperand.bind fun _ _ =>
    turns_orFault.mono (fun _ => List.nil_subperm) fun _ _ => trivial

theorem turns_systemValueIf {present : Bool} :
    Turns before (systemValueIf start present) (fun _ => before) fun _ => True := by
  unfold systemValueIf
  split
  case isTrue =>
    exact (turns_word.bind fun _ _ => turns_orFault).bind fun _ _ => .pure trivial (.refl _)
  case isFalse => exact .pure trivial (.refl _)

theorem turns_declared :
    Turns [] (declared start op token) Declared.references fun _ => True := by
  unfold declared
  extract_lets field coherent
  split
  case h_2 =>
    refine turns_declaredOperand.bind fun (_, op) _ => ?_
    dsimp only
    split
    case h_1 => exact .pure trivial List.nil_subperm
    case h_2 => exact .throw
  -- Every other declaration is a chain of these steps.
  all_goals
    repeat' with_reducible first
      | refine Turns.bind turns_slot fun _ _ => ?_
      | refine Turns.bind turns_word fun _ _ => ?_
      | refine Turns.bind turns_slice fun _ _ => ?_
      | refine Turns.bind turns_orFault fun _ _ => ?_
      | refine Turns.bind turns_operand fun _ _ => ?_
      | refine Turns.bind turns_systemValueIf fun _ _ => ?_
    first
    | exact .throw
    | exact .pure trivial (.refl _)

theorem turns_declaration {stage : Stage} :
    Turns [] (declaration stage start op token) Declared.references fun _ => True := by
  refine turns_sampleControls.bind fun _ _ => turns_declared.bind fun _ _ => ?_
  split
  case isTrue => exact .throw
  case isFalse => exact .pure trivial (.refl _)

end Declaration

end Decoder

namespace Element

def references : Element → List OperandId
  | declaration d _ => d.references
  | instruction inst => inst.operands
  | skipped => []

def WellFormed : Element → Prop
  | instruction inst => inst.WellFormed
  | declaration .. | skipped => True

end Element

namespace Frame

variable {stage : Stage} {f : Frame}

theorem turns_readBody :
    Decoder.Turns [] (f.readBody stage) Element.references Element.WellFormed := by
  unfold readBody
  split
  case isTrue =>
    refine Decoder.turns_declaration.bind fun _ _ => ?_
    exact .pure trivial (.refl _)
  case isFalse hop =>
    refine (Decoder.turns_instruction hop).bind fun _ hinst => ?_
    exact .pure hinst (.refl _)

-- Data blocks are read as they are, and all other frames from the words behind their token.
theorem exists_body_of_read {e : Element} {arena arena' : Arena}
    (h : f.read stage arena = .ok (e, arena')) :
    f.opcode = .customData ∧ e = f.readData ∧ arena' = arena ∨ f.opcode ≠ .customData ∧
      ∃ r r', r.operands = arena ∧ r'.operands = arena' ∧ f.readBody stage r = .ok e r' := by
  unfold read at h
  split at h
  case isTrue hdata =>
    cases h
    exact .inl ⟨hdata, rfl, rfl⟩
  case isFalse hdata =>
    split at h
    case h_1 | h_2 => cases h
    case h_3 e' r hr =>
      unfold Decoder.expectEnd at h
      split at h
      case h_1 => cases h
      case h_2 hend =>
        split at hend <;> cases hend
        cases h
        exact .inr ⟨hdata, _, r, rfl, rfl, hr⟩

theorem sound_of_read {e : Element} {arena arena' : Arena} {held : List OperandId}
    (hs : Sound held arena) (h : f.read stage arena = .ok (e, arena')) :
    Sound (e.references ++ held) arena' ∧ e.WellFormed := by
  obtain ⟨_, rfl, rfl⟩ | ⟨_, r, r', rfl, rfl, hr⟩ := exists_body_of_read h
  case inl =>
    unfold readData
    split <;> exact ⟨hs, trivial⟩
  case inr => exact turns_readBody held r e r' hs hr

end Frame

theorem sound_of_readFrames {stage : Stage} {bound position : Nat} {ws : List UInt32}
    {es : List Element} {arena arena' : Arena} {held : List OperandId} (hs : Sound held arena)
    (h : readFrames stage bound position ws arena = .ok (es, arena')) :
    Sound (es.flatMap Element.references ++ held) arena' ∧ ∀ e ∈ es, e.WellFormed := by
  induction bound generalizing position ws es arena held
  case zero =>
    cases ws <;> cases h <;> exact ⟨hs, by simp⟩
  case succ bound hi =>
    cases ws
    case nil =>
      cases h
      exact ⟨hs, by simp⟩
    case cons token rest =>
      have ⟨f, _, h⟩ := bind_eq_ok_iff.mp h
      have ⟨(e, arena₁), hread, h⟩ := bind_eq_ok_iff.mp h
      have ⟨(es', arena₂), hrest, h⟩ := bind_eq_ok_iff.mp h
      cases h
      have ⟨hs, he⟩ := Frame.sound_of_read hs hread
      have ⟨hs, hes⟩ := hi hs hrest
      refine ⟨hs.perm ?_, List.forall_mem_cons.mpr ⟨he, hes⟩⟩
      rw [List.flatMap_cons, ← List.append_assoc]
      exact List.perm_append_comm.append_right held

namespace Program

-- Every place that names an operand, with its operand.
def references (p : Program) : List OperandId :=
  p.instructions.flatMap Instruction.operands ++
    p.declarations.flatMap (·.declared.references) ++ p.operands.relatives

structure WellFormed (p : Program) : Prop where
  inside       : ∀ id ∈ p.references, id < p.operands.size
  once         : p.references.Nodup
  descends     : ∀ (id : OperandId) op, p.operands[id]? = some op → ∀ id' ∈ op.relatives, id' < id
  operands     : ∀ op ∈ p.operands, op.WellFormed
  instructions : ∀ inst ∈ p.instructions, inst.WellFormed

theorem perm_references {es : List Element} (before : Nat) :
    (es.flatMap Element.references).Perm
      ((es.filterMap Element.instruction?).flatMap Instruction.operands ++
        (Element.declarations before es).flatMap (·.declared.references)) := by
  induction es generalizing before
  case nil => exact .refl _
  case cons e es hi =>
    cases e
    case skipped => exact hi before
    case instruction inst =>
      simpa [Element.references, Element.instruction?, Element.declarations] using
        (hi (before + 1)).append_left inst.operands
    case declaration d _ => exact ((hi before).append_left _).trans (List.perm_append_comm_assoc ..)

theorem exists_frames_of_decode {tokens : List UInt32} {p : Program} (h : decode tokens = .ok p) :
    ∃ stage bound words es, readFrames stage bound 2 words #[] = .ok (es, p.operands) ∧
      p.declarations = Element.declarations 0 es ∧
      p.instructions = es.filterMap Element.instruction? := by
  unfold decode at h
  split at h
  case h_1 version length rest =>
    split at h
    case h_1 stage model _ =>
      dsimp only at h
      split at h
      case isTrue => cases h
      case isFalse =>
        split at h
        case isTrue => cases h
        case isFalse =>
          have ⟨(es, arena), hframes, h⟩ := bind_eq_ok_iff.mp h
          cases h
          exact ⟨stage, _, _, es, hframes, rfl, rfl⟩
    case h_2 => cases h
  case h_2 => cases h

theorem decode_wellFormed {tokens : List UInt32} {p : Program} (h : decode tokens = .ok p) :
    p.WellFormed ∧ ∀ c : Context, c.program = p → ∀ {id depth}, id < depth →
      c.indexSource depth id = c.indexSource (id + 1) id := by
  have ⟨stage, bound, words, es, hframes, hdeclarations, hinstructions⟩ := exists_frames_of_decode h
  have ⟨hs, hes⟩ := sound_of_readFrames Arena.sound_empty hframes
  rw [List.append_nil] at hs
  have hs := hs.perm (perm_references 0)
  rw [← hdeclarations, ← hinstructions] at hs
  refine ⟨?_, fun c hc _ _ hd => c.indexSource_eq_of_lt (hc ▸ hs.descends) hd⟩
  refine ⟨fun id hid => ?inside, hs.once, hs.descends, hs.operands, fun inst hinst => ?instructions⟩
  case inside =>
    cases List.mem_append.mp hid
    case inl hid => exact hs.inside id hid
    case inr hid => exact hs.lt_size_of_relative hid
  case instructions =>
    rw [hinstructions] at hinst
    have ⟨e, he, hinst⟩ := List.mem_filterMap.mp hinst
    cases e <;> cases hinst
    exact hes _ he

-- An input and `mov r0, cb0[r1.x + 4]`.
def indexedConstant : List UInt32 :=
  [0x50, 13, 0x0300005f, 0x001010f2, 0, 0x08000036, 0x001000f2, 0, 0x06208e46, 0, 4, 0x0010000a, 1]

theorem decode_wellFormed_indexedConstant :
    ∃ p, decode indexedConstant = .ok p ∧ p.references = [1, 3, 0, 2] ∧ p.WellFormed ∧
      ∀ c : Context, c.program = p → c.indexSource 9 3 = c.indexSource 4 3 := by
  obtain ⟨p, h, hr⟩ : ∃ p, decode indexedConstant = .ok p ∧ p.references = [1, 3, 0, 2] := by
    decide +kernel
  have ⟨hp, hc⟩ := decode_wellFormed h
  exact ⟨p, h, hr, hp, fun c hp => hc c hp (by decide)⟩

end Program

end ShaderLift
