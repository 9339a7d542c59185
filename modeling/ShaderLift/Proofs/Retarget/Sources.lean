import ShaderLift.Proofs.Retarget.Interface

/-!
Operands under more capabilities: what can be read or written in one context can be read or written
in the context of another dialect that can do more.
-/

namespace ShaderLift

open Glsl

-- What a context for another dialect differs in.
structure Target where
  version         : Version
  rules           : Option Dialect
  interface       : Interface
  constantBuffers : SlotMap UniformBuffer
  temps           : TempTypes

def Context.retarget (c : Context) (t : Target) : Context :=
  let options := c.options.retarget t.version t.rules
  { c with
    options
    dialect := options.dialect
    interface := t.interface
    resources := { c.resources with constantBuffers := t.constantBuffers }
    temps := t.temps }

-- The other dialect can do what the one of the context can.
structure Target.Serves (t : Target) (c : Context) : Prop where
  dialect   : c.dialect.Within (c.retarget t).dialect
  interface : c.interface.RetargetsTo t.interface
  resources : c.resources.RetargetsTo (c.retarget t).resources
  indexed   : ∀ op ∈ c.program.operands, op.register = .constantBuffer → 2 ≤ op.indices.length
  unchecked : c.options.checked = false

variable {c : Context} {t : Target} {op : Operand} {id : OperandId} {inst : Instruction}

theorem Target.Serves.inScope (h : t.Serves c) (scope : Scope) : t.Serves { c with scope } :=
  ⟨h.dialect, h.interface, h.resources, h.indexed, h.unchecked⟩

theorem Target.Serves.atIndex (h : t.Serves c) (index : Nat) (saturate : Bool) :
    t.Serves { c with index, saturate } :=
  ⟨h.dialect, h.interface, h.resources, h.indexed, h.unchecked⟩

theorem Target.Serves.has_eq_false (h : t.Serves c) {cap : Capability}
    (hc : (c.retarget t).has cap = false) : c.has cap = false :=
  Bool.eq_false_iff.mpr fun hcap => Bool.eq_false_iff.mp hc (h.dialect cap hcap)

namespace Context

theorem program_retarget : (c.retarget t).program = c.program :=
  rfl

theorem stage_retarget : (c.retarget t).stage = c.stage :=
  rfl

theorem carries_orUnresolved {c' : Context} {α β : Type} {R : α → β → Prop} {o : Option α}
    {o' : Option β} {what what' : Unresolved} (h : ∀ a, o = some a → ∃ b, o' = some b ∧ R a b) :
    Carries R (c.orUnresolved what o) (c'.orUnresolved what' o') := by
  cases o
  case none => exact .error
  case some a =>
    have ⟨b, hb, hr⟩ := h a rfl
    exact hb ▸ .pure hr

theorem mem_operands_of_operand (h : c.operand id = .ok op) : op ∈ c.program.operands := by
  unfold operand Program.operand at h
  split at h <;> cases h
  exact Array.mem_of_getElem? ‹_›

theorem allows_namedConstants {slot slot' : UInt32} {ms ms' : List Member}
    {want want' : ValueType} {components : List Nat} (h : t.Serves c)
    (hms : ms.map Member.plain = ms'.map Member.plain) :
    Allows (c.namedConstants slot ms op components want)
      ((c.retarget t).namedConstants slot' ms' op components want') := by
  refine .bind (carries_orUnresolved (R := Eq) fun a ha => ⟨a, ha, rfl⟩) ?_
  rintro register _ rfl
  refine .bind (.each fun component => ?_) fun _ _ _ => .pure trivial
  refine .bind (Options.allows_requireWords h.unchecked) fun _ _ _ => ?_
  cases hl' : Member.laneAt (c.retarget t).dialect ms' register component
  case uncovered =>
    rw [Member.laneAt_eq_uncovered_congr hms hl']
    exact .error
  all_goals exact fun _ _ => ⟨_, rfl, trivial⟩

-- Named constants have a fixed index, which an array of registers takes as well.
theorem allows_registerSource_of_namedConstants {c' : Context} {slot : UInt32} {ms : List Member}
    {want want' : ValueType} {components : List Nat} {buffer : UniformBuffer}
    {nested : OperandId → Except LiftError Expr} (hk : op.register = .constantBuffer)
    (hi : 2 ≤ op.indices.length) (hb : c'.constantBuffer op = .ok buffer) :
    Allows (c.namedConstants slot ms op components want)
      (c'.registerSource nested op want' components) := by
  intro _ h
  have ⟨register, hregister, _⟩ := bind_eq_ok_iff.mp h
  have hindex : op.indices[1]? = some (.imm register) := by
    rw [List.getElem?_eq_getElem hi] at hregister ⊢
    generalize op.indices[1] = index at hregister ⊢
    cases index
    case imm => exact congrArg (fun n => some (Index.imm n)) (Except.ok.inj hregister)
    all_goals cases hregister
  have helement : c'.element nested (.constants buffer.slot) op 1 =
      .ok (.index (.var (.constants buffer.slot)) (.number register)) := by
    rw [element, nthIndex, hindex]
    rfl
  have hbase : c'.base nested op =
      .ok (.index (.var (.constants buffer.slot)) (.number register), .float) := by
    simp only [base, hk]
    exact bind_eq_ok_iff.mpr ⟨buffer, hb, bind_eq_ok_iff.mpr ⟨_, helement, rfl⟩⟩
  exact ⟨_, by rw [registerSource, hbase]; rfl, trivial⟩

variable (h : t.Serves c)

include h

theorem allows_require {f : Feature} : Allows (c.require f) ((c.retarget t).require f) :=
  h.dialect.allows_require

theorem allows_immediateWord {component : Nat} :
    Allows (c.immediateWord op component) ((c.retarget t).immediateWord op component) := by
  unfold immediateWord
  cases op.immediate
  case none => exact .error
  case some immediate =>
    cases immediate
    case words => exact .pure trivial
    case longs => exact .bind (allows_require h) fun _ _ _ => .pure trivial

theorem carries_constantBuffer :
    Carries UniformBuffer.RetargetsTo (c.constantBuffer op) ((c.retarget t).constantBuffer op) :=
  .same fun _ => carries_orUnresolved fun _ hb => h.resources.constantBuffer hb

section Nested

variable {nested nested' : OperandId → Except LiftError Expr}

variable (hn : ∀ id, Allows (nested id) (nested' id))

include hn

theorem allows_indexExpr {index : Index} :
    Allows (c.indexExpr nested index) ((c.retarget t).indexExpr nested' index) := by
  cases index
  case imm => exact .pure trivial
  case relative id => exact hn id
  case immRelative id => exact .bind (hn id) fun _ _ _ => .pure trivial
  case wide => exact .bind (allows_require h) fun _ _ _ => .pure trivial
  case wideRelative id =>
    exact .bind (allows_require h) fun _ _ _ => .bind (hn id) fun _ _ _ => .pure trivial

theorem allows_flatIndex {stride : UInt32} {outer inner : Index} :
    Allows (c.flatIndex nested stride outer inner)
      ((c.retarget t).flatIndex nested' stride outer inner) := by
  unfold flatIndex
  split
  case h_1 => exact .same fun _ => .pure trivial
  case h_2 =>
    exact .bind (allows_indexExpr h hn) fun _ _ _ =>
      .bind (allows_indexExpr h hn) fun _ _ _ => .pure trivial

theorem allows_element {name name' : Name} {i : Nat} :
    Allows (c.element nested name op i) ((c.retarget t).element nested' name' op i) :=
  .same fun _ => .bind (allows_indexExpr h hn) fun _ _ _ => .pure trivial

theorem allows_vertexElement {file : RegisterFile} {stride : UInt32} :
    Allows (c.vertexElement nested file stride op)
      ((c.retarget t).vertexElement nested' file stride op) :=
  .same fun _ => .same fun _ => .bind (allows_flatIndex h hn) fun _ _ _ => .pure trivial

theorem allows_base : Allows (c.base nested op) ((c.retarget t).base nested' op) := by
  have element {name name' : Name} {i : Nat} :
      Allows (c.element nested name op i >>= fun e => pure (e, ValueType.float))
        ((c.retarget t).element nested' name' op i >>= fun e => pure (e, ValueType.float)) :=
    .bind (allows_element h hn) fun _ _ _ => .pure trivial
  have vertexElement {file : RegisterFile} {stride : UInt32} :
      Allows (c.vertexElement nested file stride op >>= fun e => pure (e, ValueType.float))
        ((c.retarget t).vertexElement nested' file stride op >>=
          fun e => pure (e, ValueType.float)) :=
    .bind (allows_vertexElement h hn) fun _ _ _ => .pure trivial
  unfold base
  dsimp only
  rw [stage_retarget]
  cases op.register
  case temp => exact .same fun _ => .pure trivial
  case indexableTemp => exact .same fun _ => .same fun _ => element
  case input =>
    cases c.stage
    case geometry | hull | domain => exact .ite vertexElement element
    all_goals exact element
  case inputControlPoint => exact .ite vertexElement .error
  case outputControlPoint => exact .ite (.ite vertexElement element) .error
  case inputPatchConstant =>
    cases c.stage
    case hull | domain => exact element
    all_goals exact .error
  case output =>
    unfold retarget
    dsimp only
    cases c.scope <;> exact element
  case constantBuffer => exact .bind (carries_constantBuffer h) fun _ _ _ => element
  case immediateConstantBuffer =>
    exact .ite .error (.bind (allows_element h hn) fun _ _ _ => .pure trivial)
  case inputCoverageMask => exact .bind (allows_require h) fun _ _ _ => .pure trivial
  case inputPrimitiveId | inputGsInstanceId | outputControlPointId | inputForkInstanceId
      | inputJoinInstanceId | inputThreadId | inputThreadGroupId | inputThreadIdInGroup
      | inputThreadIdInGroupFlattened | inputDomainPoint =>
    exact .pure trivial
  all_goals exact .error

variable {want want' : ValueType} {components lanes : List Nat}

theorem allows_registerSource :
    Allows (c.registerSource nested op want components)
      ((c.retarget t).registerSource nested' op want' components) :=
  .bind (allows_base h hn) fun (_, _) (_, _) _ => .pure trivial

theorem allows_rawSourceWith :
    Allows (c.rawSourceWith nested id want lanes)
      ((c.retarget t).rawSourceWith nested' id want' lanes) := by
  refine .same_of_ok fun op hop => ?_
  extract_lets components
  cases hk : op.register
  case immediate32 | immediate64 =>
    refine .bind (.each fun component => ?_) fun _ _ _ => .pure trivial
    exact .bind (allows_immediateWord h) fun _ _ _ => .pure trivial
  case constantBuffer =>
    have hi := h.indexed op (mem_operands_of_operand hop) hk
    refine .bind_of_ok (carries_constantBuffer h) fun b b' _ hb' hr => ?_
    cases hm' : b'.members
    case some ms' =>
      have ⟨ms, hm, hms⟩ := hr ms' hm'
      rw [hm]
      exact allows_namedConstants h hms
    case none =>
      cases b.members
      case some ms => exact allows_registerSource_of_namedConstants hk hi hb'
      case none => exact allows_registerSource h hn
  all_goals exact allows_registerSource h hn

theorem allows_sourceWith :
    Allows (c.sourceWith nested id want lanes)
      ((c.retarget t).sourceWith nested' id want' lanes) :=
  .bind (allows_rawSourceWith h hn) fun _ _ _ => .same fun _ => .pure trivial

end Nested

theorem allows_indexSource {depth : Nat} :
    Allows (c.indexSource depth id) ((c.retarget t).indexSource depth id) := by
  induction depth generalizing id
  case zero => exact .error
  case succ depth hi => exact allows_sourceWith h fun _ => hi

variable {want want' : ValueType} {lanes : List Nat} {i : Nat}

theorem allows_source :
    Allows (c.source id want lanes) ((c.retarget t).source id want' lanes) :=
  allows_sourceWith h fun _ => allows_indexSource h

theorem allows_rawSource :
    Allows (c.rawSource id want lanes) ((c.retarget t).rawSource id want' lanes) :=
  allows_rawSourceWith h fun _ => allows_indexSource h

theorem allows_argSource :
    Allows (c.argSource inst i want lanes) ((c.retarget t).argSource inst i want' lanes) :=
  .same fun _ => allows_source h

theorem carries_destination :
    Carries (Option.Rel fun dst dst' => dst.components = dst'.components) (c.destination id)
      ((c.retarget t).destination id) := by
  refine .same fun op => .ite (.pure .none) ?_
  cases op.register
  case outputDepth | outputDepthGreaterEqual | outputDepthLessEqual | outputCoverageMask =>
    exact .bind (allows_require h) fun _ _ _ => .pure (.some rfl)
  case temp | indexableTemp | output =>
    exact .bind (allows_base h fun _ => allows_indexSource h) fun (_, _) (_, _) _ =>
      .pure (.some rfl)
  all_goals exact .error

theorem carries_argDestination :
    Carries (Option.Rel fun dst dst' => dst.components = dst'.components)
      (c.argDestination inst i) ((c.retarget t).argDestination inst i) :=
  .same fun _ => carries_destination h

end Context

end ShaderLift
