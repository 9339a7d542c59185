import ShaderLift.Proofs.Effects.Memory
import ShaderLift.Proofs.Invariance.Body
import ShaderLift.Proofs.Lift.Body

/-!
What one instruction adds to a function, said once for all that follows: which lines it is lifted
to, when it is lifted to nothing, and which events stand in its lines.
-/

namespace ShaderLift

open Glsl

-- A barrier that has no flags set.
def Controls.waitsForNothing : Controls → Bool
  | .sync flags =>
    !flags.uavGlobal && !flags.uavGroup && !flags.sharedMemory && !flags.threadsInGroup
  | _ => false

namespace Program

variable (p : Program) (inst : Instruction)

-- Whether each of some operands drops what is written to it, where there are any.
def dropsAll : List Nat → Bool
  | [] => false
  | [i] => p.drops inst i
  | i :: is => p.drops inst i && dropsAll is

-- Whether an instruction with some opcode leaves nothing in the text. Atomic operations do, even if
-- nobody wants their results.
def silentAs : Opcode → Bool
  | .nop | .customData | .hsControlPointPhase | .hsForkPhase | .hsJoinPhase | .hsDecls => true
  | .sync => inst.controls.waitsForNothing
  | .storeRaw | .storeStructured => p.storesNothing inst
  | .immAtomicAlloc | .immAtomicConsume | .immAtomicIadd | .immAtomicAnd | .immAtomicOr
  | .immAtomicXor | .immAtomicExch | .immAtomicCmpExch | .immAtomicImax | .immAtomicImin
  | .immAtomicUmax | .immAtomicUmin => false
  | op => p.dropsAll inst op.destinations

def isSilent : Bool :=
  p.silentAs inst inst.opcode

end Program

-- The same by the function that lifts the instruction.
def Program.silentBy (p : Program) (inst : Instruction) : Routine → Bool
  | .storeBuffer => p.storesNothing inst
  | .storeImage | .counter | .atomic => false
  | .swapc | .twoResults _ => p.drops inst 0 && p.drops inst 1
  | _ => p.drops inst 0

theorem Program.silentAs_eq_or (p : Program) (inst : Instruction) (op : Opcode) :
    p.silentAs inst op = p.silentBy inst op.routine ∨
      ∃ reason, op.routine = .unsupported reason := by
  cases op <;> first | exact .inl rfl | exact .inr ⟨_, rfl⟩

-- What an opcode has to be listed as, by the function that lifts it.
def Routine.lists (op : Opcode) : Routine → Bool
  | .loadImage => op.uavAccess? = some ⟨2, true, false, false⟩
  | .storeImage => op.uavAccess? = some ⟨0, false, true, false⟩
  | .atomic => op.uavAccess? = some ⟨if op.isReturningAtomic then 1 else 0, true, true, true⟩
  | .swapc | .twoResults _ => op.hasTwoResults
  | _ => true

theorem Opcode.lists_routine {op : Opcode} : op.routine.lists op := by
  cases op <;> rfl

theorem Comparison.common_function {k : Comparison} : Common k.function := by
  cases k <;> decide

theorem Program.isSilent_of_structural {p : Program} {inst : Instruction}
    (h : inst.opcode.role.isStructural) : p.isSilent inst = false := by
  have hs := Opcode.mem_structural_iff.mpr h
  unfold isSilent
  generalize inst.opcode = op at hs
  simp only [Opcode.structural, List.mem_cons, List.not_mem_nil, or_false] at hs
  rcases hs with rfl | rfl | rfl | rfl | rfl | rfl | rfl | rfl | rfl <;> rfl

namespace Context

variable {c : Context} {inst : Instruction} {isLast : Bool} {lines : List Line} {V : Vocabulary}

-- What instructions write: calculations and braces, a return, or vertices with their outputs.
inductive Performs (c : Context) : List Event → Prop
  | quiet {es : List Event} (h : ∀ e ∈ es, e ∈ [.opens, .closes, .other]) : Performs c es
  | ret {es : List Event} (h : ∀ e ∈ es, e = .other) : Performs c (es ++ c.returnJump.events)
  | emission {es : List Event} (stage : c.stage = .geometry) (h : ∀ e ∈ es, e = .other) :
      Performs c (.flush :: .emission :: es)

-- What stands before the end of a block, if a switch would end in a label.
def filler (c : Context) (inst : Instruction) : List Line :=
  if inst.opcode = .endSwitch ∧ caseBefore c.program.instructions c.index then
    [.stmt (.jump .breakOut)]
  else []

theorem filler_eq_or (c : Context) (inst : Instruction) :
    c.filler inst = [.stmt (.jump .breakOut)] ∨ c.filler inst = [] := by
  unfold filler
  split
  case isTrue => exact .inl rfl
  case isFalse => exact .inr rfl

-- A `ret` at the end of its function is left out.
def Omits (c : Context) (inst : Instruction) (isLast : Bool) : Prop :=
  c.program.isSilent inst ∨ inst.opcode = .ret ∧ isLast

inductive Acts (c : Context) (inst : Instruction) (isLast : Bool) : List Line → Prop
  | nothing (omits : c.Omits inst isLast) : Acts c inst isLast []
  | opener {kind head} (role : inst.opcode.role = .opener kind) (quiet : head.Quiet) :
      Acts c inst isLast [.enter head]
  | otherwise (role : inst.opcode.role = .divider .conditional) : Acts c inst isLast [.otherwise]
  | label {label before} (role : inst.opcode.role = .divider .choice)
      (quiet : ∀ e ∈ label.events, e = .other) (ends : ∀ line ∈ before, line = .endCase) :
      Acts c inst isLast (before ++ [.caseLabel label])
  | closer {kind before} (role : inst.opcode.role = .closer kind)
      (ends : ∀ line ∈ before, line = .endCase) :
      Acts c inst isLast (c.filler inst ++ before ++ [.leave])
  | flat {ss} (role : inst.opcode.role.isStructural = false) (omits : ¬c.Omits inst isLast)
      (ne : ss ≠ []) (performs : c.Performs (ss.flatMap Stmt.events)) :
      Acts c inst isLast (ss.map .stmt)
  | block {ss} (role : inst.opcode.role.isStructural = false) (omits : ¬c.Omits inst isLast)
      (ne : ss ≠ []) (quiet : ∀ s ∈ ss, s.Quiet) :
      Acts c inst isLast (block .bare (ss.map .stmt))

theorem performs_of_quiet {ss : List Stmt} (h : ∀ s ∈ ss, s.Quiet) :
    c.Performs (ss.flatMap Stmt.events) :=
  have hline : (Line.stmts ss).Quiet := h
  .quiet hline.events

theorem acts_stmt {s : Stmt} (hrole : inst.opcode.role.isStructural = false)
    (homits : ¬c.Omits inst isLast) (h : c.Performs s.events) : c.Acts inst isLast [.stmt s] :=
  .flat hrole homits (List.cons_ne_nil s []) (by simpa using h)

theorem acts_of_calculated (hv : V.Quiet) (hop : inst.opcode ≠ .ret)
    (hrole : inst.opcode.role.isStructural = false)
    (h : Calculated V (c.program.isSilent inst) lines) : c.Acts inst isLast lines := by
  have homits (hs : c.program.isSilent inst = false) : ¬c.Omits inst isLast := by
    simp [Omits, hs, hop]
  cases h
  case nothing hs => exact .nothing (.inl hs)
  case flat hs hne hc =>
    exact .flat hrole (homits hs) hne (performs_of_quiet fun s hs => (hc s hs).quiet hv)
  case block hs hne hc => exact .block hrole (homits hs) hne fun s hs => (hc s hs).quiet hv

theorem calculated_instruction :
    Emit.Gives (Calculated (c.vocabulary inst) (c.program.isSilent inst)) (c.instruction inst) := by
  have hlists := inst.opcode.lists_routine
  rw [instruction_eq_perform, Program.isSilent]
  obtain hs | ⟨reason, hr⟩ := c.program.silentAs_eq_or inst inst.opcode
  case inr =>
    rw [hr]
    exact .lift .error
  rw [hs]
  cases hr : inst.opcode.routine
  all_goals simp only [hr, Routine.lists, decide_eq_true_eq] at hlists
  case sample => exact calculated_sample
  case loadTexel => exact .lift calculated_loadTexel
  case queryLod => exact .lift calculated_queryLod
  case sizeInfo => exact .lift calculated_sizeInfo
  case bufferInfo => exact .lift calculated_bufferInfo
  case loadBuffer => exact .lift calculated_loadBuffer
  case storeBuffer => exact .lift calculated_storeBuffer
  case loadImage => exact .lift (calculated_loadImage hlists)
  case storeImage => exact .lift (calculated_storeImage hlists)
  case counter => exact .lift calculated_counter
  case atomic => exact .lift (calculated_atomic hlists)
  case mov => exact .lift calculated_mov
  case movc => exact .lift calculated_movc
  case swapc => exact calculated_swapc hlists
  case dot => exact .lift calculated_dot
  case evaluate => exact .lift calculated_evaluate
  case doubleResult => exact .lift calculated_doubleResult
  case twoResults => exact calculated_twoResults hlists
  case compare => exact .lift (calculated_compare Comparison.common_function)
  case perLane => exact .lift calculated_perLane
  case fromDouble => exact .lift calculated_fromDouble
  case elementwise => exact calculated_elementwise
  case unsupported => exact .lift .error

theorem calculated_synchronize (hop : inst.opcode = .sync) :
    Gives (Calculated V (c.program.isSilent inst)) (c.synchronize inst) := by
  have sent {name : String} (h : Common name) :
      Filled (Line.Calculates V) false [.stmt (.eval (.call name []))] :=
    .single rfl ⟨_, by simp [h], rfl⟩
  have hsilent : c.program.isSilent inst = inst.controls.waitsForNothing := by
    rw [Program.isSilent, hop]
    rfl
  rw [hsilent]
  unfold synchronize
  split
  case h_1 flags hflags =>
    have threads {b : Bool} {lines : List Line} (hl : Filled (Line.Calculates V) b lines) :
        Gives (Calculated V (b && !flags.threadsInGroup)) (c.awaitThreads flags lines) := by
      refine .ite (fun h => .ite (fun _ => .error) fun _ => .pure ?_) fun h => .pure ?_
      case refine_1 => exact .of_filled (h ▸ hl.append (sent (by decide)))
      case refine_2 =>
        rw [Bool.eq_false_of_not_eq_true h, Bool.not_false, Bool.and_true]
        exact .of_filled hl
    have shared {b : Bool} {lines : List Line} (hl : Filled (Line.Calculates V) b lines) :
        Gives (Calculated V (b && !flags.sharedMemory && !flags.threadsInGroup))
          (c.awaitShared flags lines) := by
      refine .ite (fun h => .skip fun _ => ?_) fun h => ?_
      case refine_1 =>
        rw [h]
        exact threads (hl.append (sent (by decide)))
      case refine_2 =>
        rw [Bool.eq_false_of_not_eq_true h]
        exact threads (hl.append (.nil rfl))
    rw [hflags]
    simp only [Controls.waitsForNothing]
    refine .ite (fun h => .skip fun _ => ?_) fun h => ?_
    case refine_1 =>
      rw [h]
      exact shared (sent (by decide))
    case refine_2 =>
      rw [Bool.eq_false_of_not_eq_true h]
      refine .ite (fun h' => .skip fun _ => ?_) fun h' => ?_
      case refine_1 =>
        rw [h']
        exact shared (sent (by decide))
      case refine_2 =>
        rw [Bool.eq_false_of_not_eq_true h']
        exact shared (.nil rfl)
  case h_2 => exact .error

theorem calls_condition : Gives (Expr.Calls V) (c.condition inst) :=
  .skip fun _ => .bind (calls_source V) fun _ he => .pure (by simp [he])

theorem quiet_condition : Gives Expr.Quiet (c.condition inst) :=
  .mono calls_condition fun _ he => he.quiet Vocabulary.quiet_least

theorem quiet_caseLabel :
    Gives (fun label => ∀ e ∈ label.events, e = .other) (c.caseLabel inst) := by
  refine .skip fun _ => .skip fun op => ?_
  cases op.immediate
  case none => exact .error
  case some immediate =>
    cases immediate
    case words =>
      exact .pure (Expr.Quiet.events (calls_intLiteral.quiet Vocabulary.quiet_least))
    case longs => exact .error

theorem acts_emitVertex (he : inst.opcode.Emits) (hrole : inst.opcode.role.isStructural = false)
    (homits : ¬c.Omits inst isLast) : Gives (c.Acts inst isLast) (c.emitVertex inst) := by
  refine .ite (fun _ => .error) fun hstage => ?_
  have hstage : c.stage = .geometry := not_not.mp hstage
  have vertex {stream : UInt32} : Stmt.events (.eval (if stream = 0 then .call "EmitVertex" []
      else .call "EmitStreamVertex" [.number stream])) = [.emission] := by
    split <;> rfl
  have primitive {stream : UInt32} : Stmt.events (.eval (if stream = 0 then .call "EndPrimitive" []
      else .call "EndStreamPrimitive" [.number stream])) = [.other] := by
    split <;> rfl
  have hemit {stream : UInt32} : c.Acts inst isLast [.stmt .flush, .stmt (.eval (if stream = 0 then
      .call "EmitVertex" [] else .call "EmitStreamVertex" [.number stream]))] := by
    refine .flat hrole homits (List.cons_ne_nil .flush [_]) ?_
    simp only [List.flatMap_cons, vertex]
    exact .emission hstage (List.forall_mem_nil _)
  have hcut {stream : UInt32} : c.Acts inst isLast [.stmt (.eval (if stream = 0 then
      .call "EndPrimitive" [] else .call "EndStreamPrimitive" [.number stream]))] := by
    refine acts_stmt hrole homits ?_
    rw [primitive]
    exact .quiet (by decide)
  have hboth {stream : UInt32} : c.Acts inst isLast [.stmt .flush, .stmt (.eval (if stream = 0 then
      .call "EmitVertex" [] else .call "EmitStreamVertex" [.number stream])), .stmt (.eval
        (if stream = 0 then .call "EndPrimitive" [] else
          .call "EndStreamPrimitive" [.number stream]))] := by
    refine .flat hrole homits (List.cons_ne_nil .flush [_, _]) ?_
    simp only [List.flatMap_cons, vertex, primitive]
    exact .emission hstage (List.forall_mem_singleton.mpr rfl)
  have rest {stream : UInt32} {lines : List Line} (h : c.Acts inst isLast lines) :
      Gives (c.Acts inst isLast) (do
        if stream ≠ 0 then
          c.require .multipleStreams
        return lines) :=
    .ite (fun _ => .skip fun _ => .pure h) fun _ => .pure h
  generalize inst.opcode = op at he
  cases he
  case emit | emitStream => exact .skip fun _ => rest hemit
  case cut | cutStream => exact .skip fun _ => rest hcut
  case emitThenCut | emitThenCutStream => exact .skip fun _ => rest hboth

theorem acts_startCase {label : CaseLabel} (hrole : inst.opcode.role = .divider .choice)
    (hl : ∀ e ∈ label.events, e = .other) : Emit.Gives (c.Acts inst isLast) (startCase label) := by
  refine .bind Emit.gives_get fun s _ => ?_
  refine .bind (Emit.gives_modify fun _ => Nat.le_refl _) fun _ _ => .pure (.label hrole hl ?_)
  split <;> simp

theorem acts_endSwitch (hop : inst.opcode = .endSwitch) :
    Emit.Gives (c.Acts inst isLast) c.endSwitch := by
  have hrole : inst.opcode.role = .closer .choice := by rw [hop]; rfl
  rw [endSwitch_eq]
  refine .bind Emit.gives_get fun s _ => ?_
  refine .bind (Emit.gives_modify fun _ => Nat.le_refl _) fun _ _ => .pure ?_
  have hfiller : c.filler inst =
      if caseBefore c.program.instructions c.index then [Line.stmt (.jump .breakOut)] else [] := by
    simp [filler, hop]
  rw [← hfiller]
  refine .closer hrole ?_
  split <;> simp

theorem gives_callee {i : Nat} : Gives (fun j => j.events = [.other]) (c.callee inst i) :=
  .ite (fun _ => .error) fun _ => .skip fun _ => .skip fun _ => .skip fun _ =>
    .ite (fun _ => .error) fun _ => .pure rfl

theorem not_omits {op : Opcode} (hop : inst.opcode = op) (hs : c.program.silentAs inst op = false)
    (hr : op ≠ .ret) : ¬c.Omits inst isLast := by
  subst hop
  simp [Omits, Program.isSilent, hs, hr]

theorem acts_jumpIf {j : Jump} (hrole : inst.opcode.role.isStructural = false)
    (homits : ¬c.Omits inst isLast)
    (hj : ∀ es : List Event, (∀ e ∈ es, e = .other) → c.Performs (es ++ j.events)) :
    Gives (c.Acts inst isLast) (do return [Line.stmt (.jumpIf (← c.condition inst) j)]) := by
  refine .bind quiet_condition fun test ht => .pure (acts_stmt hrole homits ?_)
  have htest : ∀ e ∈ test.events ++ [Event.other], e = .other :=
    List.forall_mem_append.mpr ⟨ht.events, List.forall_mem_singleton.mpr rfl⟩
  simpa [Stmt.events] using hj _ htest

theorem acts_lines : Emit.Gives (c.Acts inst isLast) (c.lines inst isLast) := by
  have stays {j : Jump} (hj : j.events = [.other]) (es : List Event) (h : ∀ e ∈ es, e = .other) :
      c.Performs (es ++ j.events) := by
    refine .quiet (List.forall_mem_append.mpr ⟨fun e he => ?_, by simp [hj]⟩)
    simp [h e he]
  have leaves (es : List Event) (h : ∀ e ∈ es, e = .other) :
      c.Performs (es ++ c.returnJump.events) :=
    .ret h
  by_cases hd : inst.opcode.Directs
  case neg =>
    have hret : inst.opcode ≠ .ret := fun h => hd (h ▸ .ret)
    have hrole := Opcode.isStructural_of_not_directs hd
    rw [lines_of_not_directs hd]
    exact .mono calculated_instruction fun _ => acts_of_calculated quiet_vocabulary hret hrole
  unfold lines
  generalize hop : inst.opcode = op at hd
  cases hd
  case nop | customData | hsControlPointPhase | hsForkPhase | hsJoinPhase | hsDecls =>
    refine .pure (.nothing (.inl ?_))
    rw [Program.isSilent, hop]
    rfl
  case orElse => exact .pure (.otherwise (by rw [hop]; rfl))
  case endIf | endLoop =>
    have ⟨kind, hrole⟩ : ∃ kind, inst.opcode.role = .closer kind := ⟨_, by rw [hop]; rfl⟩
    have hacts : c.Acts inst isLast (c.filler inst ++ [] ++ [Line.leave]) :=
      .closer hrole (List.forall_mem_nil _)
    rw [show c.filler inst = [] by simp [filler, hop]] at hacts
    exact .pure hacts
  case beginLoop => exact .pure (.opener (by rw [hop]; rfl) trivial)
  case beginIf =>
    exact .bind (.lift quiet_condition) fun _ he => .pure (.opener (by rw [hop]; rfl) he)
  case beginSwitch =>
    refine .skip fun _ => .skip fun _ => .bind (.lift (calls_source .least)) fun _ he => ?_
    refine .bind (Emit.gives_modify fun _ => Nat.le_refl _) fun _ _ => .pure ?_
    exact .opener (by rw [hop]; rfl) (he.quiet Vocabulary.quiet_least)
  case caseLabel =>
    exact .bind (.lift quiet_caseLabel) fun _ hl => acts_startCase (by rw [hop]; rfl) hl
  case defaultLabel => exact acts_startCase (by rw [hop]; rfl) (List.forall_mem_nil _)
  case endSwitch => exact acts_endSwitch hop
  case breakOut | continueLoop =>
    exact .pure (acts_stmt (by rw [hop]; rfl) (not_omits hop rfl nofun) (.quiet (by decide)))
  case ret =>
    refine .pure ?_
    split
    case isTrue h => exact .nothing (.inr ⟨hop, h⟩)
    case isFalse h =>
      have homits : ¬c.Omits inst isLast := by
        rintro (hs | ⟨_, hl⟩)
        case inl =>
          rw [Program.isSilent, hop] at hs
          exact Bool.false_ne_true hs
        case inr => exact h hl
      exact acts_stmt (by rw [hop]; rfl) homits (leaves [] (List.forall_mem_nil _))
  case retIf => exact .lift (acts_jumpIf (by rw [hop]; rfl) (not_omits hop rfl nofun) leaves)
  case breakIf | continueIf =>
    exact .lift (acts_jumpIf (by rw [hop]; rfl) (not_omits hop rfl nofun) (stays rfl))
  case discard =>
    refine .ite (fun _ => .fail) fun _ => .lift ?_
    exact acts_jumpIf (by rw [hop]; rfl) (not_omits hop rfl nofun) (stays rfl)
  case call =>
    refine .bind (.lift gives_callee) fun _ hj => .pure ?_
    have hcall := stays hj [] (List.forall_mem_nil _)
    exact acts_stmt (by rw [hop]; rfl) (not_omits hop rfl nofun) hcall
  case callIf =>
    refine .bind (.lift gives_callee) fun _ hj => .lift ?_
    exact acts_jumpIf (by rw [hop]; rfl) (not_omits hop rfl nofun) (stays hj)
  case label | abort | debugBreak => exact .fail
  case emission he =>
    have hemits : inst.opcode.Emits := hop ▸ he
    cases he <;>
      exact .lift (acts_emitVertex hemits (by rw [hop]; rfl) (not_omits hop rfl nofun))
  case sync =>
    exact .lift (.mono (calculated_synchronize hop) fun _ h =>
      acts_of_calculated Vocabulary.quiet_least (by rw [hop]; nofun) (by rw [hop]; rfl) h)

theorem acts_step : Emit.Gives (c.Acts inst isLast) (c.step inst isLast) :=
  .skip fun _ => acts_lines

-- The lines of an instruction that end sections of a switch show nothing.
theorem events_of_ends {before : List Line} (h : ∀ line ∈ before, line = .endCase) :
    events before = [] :=
  List.flatMap_eq_nil_iff.mpr fun line hl => h line hl ▸ rfl

theorem Acts.performs (h : c.Acts inst isLast lines) : c.Performs (events lines) := by
  cases h
  case nothing => exact .quiet (List.forall_mem_nil _)
  case opener head _ hq =>
    have hline : (Line.enter head).Quiet := hq
    exact .quiet (by simpa [events] using hline.events)
  case otherwise => exact .quiet (by decide)
  case label label before _ hq ends =>
    refine .quiet ?_
    simp only [events_append, events_of_ends ends, List.nil_append, events_singleton, Line.events]
    exact List.forall_mem_append.mpr ⟨fun e he => by simp [hq e he], by decide⟩
  case closer before _ ends =>
    have hbreak : events [.stmt (.jump .breakOut)] = [.other] := rfl
    refine .quiet ?_
    rw [events_append, events_append, events_of_ends ends]
    rcases c.filler_eq_or inst with hfiller | hfiller
    case inl => rw [hfiller, hbreak]; decide
    case inr => rw [hfiller]; decide
  case flat ss _ _ _ hp => rwa [events_stmts]
  case block ss _ _ _ hq =>
    refine .quiet (List.forall_mem_flatMap.mpr ?_)
    refine List.forall_mem_append.mpr ⟨List.forall_mem_cons.mpr ⟨by decide, ?_⟩, by decide⟩
    exact List.forall_mem_map.mpr fun s hs => (Line.quiet_stmt.mpr (hq s hs)).events

end Context

end ShaderLift
