import ShaderLift.Proofs.Retarget.Sources

/-!
Moves, arithmetic, bit manipulation, conversions and double precision under more capabilities.
-/

namespace ShaderLift

open Glsl

namespace Context

variable {c : Context} {t : Target} {inst : Instruction} {types : AluTypes}

theorem exists_hold (c : Context) (ps : List Pending) (s : Progress) :
    ∃ r, (c.hold ps).run s = .ok r := by
  induction ps generalizing s
  case nil => exact ⟨_, rfl⟩
  case cons p ps hi =>
    have ⟨((stmts, names), s'), hr⟩ := hi { s with fresh := s.fresh + 1 }
    exact ⟨_, bind_eq_ok_iff.mpr ⟨_, hr, rfl⟩⟩

-- Results can always be written.
theorem allows_commit {α : Type} {x : Emit α} {ps : List Pending} :
    Emit.Allows x (c.commit ps) := by
  intro _ s _ _
  suffices ∃ r, (c.commit ps).run s = .ok r from
    have ⟨r, hr⟩ := this
    ⟨r, hr, trivial⟩
  unfold commit
  split
  case h_1 | h_2 => exact ⟨_, rfl⟩
  case h_3 =>
    have ⟨((stmts, names), s'), hr⟩ := exists_hold c ps s
    exact ⟨_, bind_eq_ok_iff.mpr ⟨_, hr, rfl⟩⟩

section Arguments

variable {args args' : List Expr} (ha : List.Forall₂ (fun _ _ => True) args args')

include ha

theorem allows_unary {f f' : Expr → Expr} :
    Emit.Allows (elementwiseValue.unary args f) (elementwiseValue.unary args' f') := by
  unfold elementwiseValue.unary
  split
  case h_1 =>
    cases ha
    cases ‹List.Forall₂ _ [] _›
    exact .pure trivial
  case h_2 => exact .throw

theorem allows_binary {f f' : Expr → Expr → Expr} :
    Emit.Allows (elementwiseValue.binary args f) (elementwiseValue.binary args' f') := by
  unfold elementwiseValue.binary
  split
  case h_1 =>
    cases ha
    cases ‹List.Forall₂ _ [_] _›
    cases ‹List.Forall₂ _ [] _›
    exact .pure trivial
  case h_2 => exact .throw

end Arguments

variable (h : t.Serves c) {function : String} {type : ValueType} {op : Opcode} {n : Nat}

include h

theorem allows_withDestination {body body' : Destination → Except LiftError (List Line)}
    (hb : ∀ dst dst', dst.components = dst'.components → Allows (body dst) (body' dst')) :
    Allows (c.withDestination inst body) ((c.retarget t).withDestination inst body') := by
  refine .bind (carries_argDestination h) fun _ _ hd => ?_
  cases hd
  case none => exact .pure trivial
  case some hd => exact hb _ _ hd

theorem allows_mov : Allows (c.mov inst) ((c.retarget t).mov inst) := by
  refine allows_withDestination h fun dst dst' hd => .same fun id => ?_
  rw [hd]
  refine .ite (.same fun _ => ?_) (.bind Program.allows_naturalType fun _ _ _ => ?_)
  all_goals exact .bind (allows_source h) fun _ _ _ => .pure trivial

theorem allows_choose {test yes no : OperandId} {type' : ValueType} {lanes : List Nat} :
    Allows (c.choose test yes no type lanes) ((c.retarget t).choose test yes no type' lanes) := by
  refine .bind (.each fun lane => ?_) fun _ _ _ => .pure trivial
  exact .bind (allows_source h) fun _ _ _ => .bind (allows_source h) fun _ _ _ =>
    .bind (allows_source h) fun _ _ _ => .pure trivial

theorem allows_movc : Allows (c.movc inst) ((c.retarget t).movc inst) := by
  refine allows_withDestination h fun dst dst' hd => .same fun yes => ?_
  rw [hd]
  refine .ite (.same fun _ => ?_) (.bind Program.allows_naturalType fun _ _ _ => ?_)
  all_goals
    refine .same fun _ => .same fun _ => ?_
    exact .bind (allows_choose h) fun _ _ _ => .pure trivial

theorem allows_swapc : Emit.Allows (c.swapc inst) ((c.retarget t).swapc inst) := by
  refine .same fun test => .same fun a => .same fun b => ?_
  refine .bind (.lift Program.allows_naturalType) fun type type' _ => ?_
  extract_lets result result'
  have hresult (i : Nat) (yes no : OperandId) : Allows (result i yes no) (result' i yes no) := by
    refine .bind (carries_argDestination h) fun _ _ hd => ?_
    cases hd
    case none => exact .pure trivial
    case some dst dst' hd =>
      dsimp only
      rw [hd]
      exact .bind (allows_choose h) fun _ _ _ => .pure trivial
  refine .bind (.lift (hresult 0 b a)) fun _ _ _ => .bind (.lift (hresult 1 a b)) fun _ _ _ => ?_
  exact allows_commit

theorem allows_dot {k : Nat} : Allows (c.dot inst k) ((c.retarget t).dot inst k) :=
  allows_withDestination h fun _ _ _ => .bind (allows_argSource h) fun _ _ _ =>
    .bind (allows_argSource h) fun _ _ _ => .pure trivial

theorem allows_compare {op : BinaryOp} :
    Allows (c.compare inst types function op) ((c.retarget t).compare inst types function op) := by
  refine allows_withDestination h fun dst dst' hd => ?_
  rw [hd]
  exact .bind (allows_argSource h) fun _ _ _ =>
    .bind (allows_argSource h) fun _ _ _ => .pure trivial

theorem allows_wide {a b a' b' : Expr} :
    Emit.Allows (resultValue.wide c type n function a b)
      (resultValue.wide (c.retarget t) type n function a' b') :=
  .bind (.lift (allows_require h)) fun _ _ _ =>
    .bind .step fun _ _ _ => .bind .step fun _ _ _ => .pure trivial

theorem allows_carry {a b a' b' : Expr} :
    Emit.Allows (resultValue.carry c type n function a b)
      (resultValue.carry (c.retarget t) type n function a' b') :=
  .bind (.lift (allows_require h)) fun _ _ _ => .bind .step fun _ _ _ => .pure trivial

theorem allows_resultValue {isFirst : Bool} {args args' : List Expr}
    (ha : List.Forall₂ (fun _ _ => True) args args') :
    Emit.Allows (c.resultValue op isFirst args type n)
      ((c.retarget t).resultValue op isFirst args' type n) := by
  unfold resultValue
  split
  case h_1 | h_2 =>
    cases ha
    exact .pure trivial
  case h_13 => exact .throw
  all_goals
    cases ha
    cases ‹List.Forall₂ _ [_] _›
    cases ‹List.Forall₂ _ [] _›
  case h_4 => exact .bind (.lift (allows_require h)) fun _ _ _ => .pure trivial
  case h_5 | h_6 => exact allows_wide h
  case h_11 | h_12 => exact allows_carry h
  all_goals exact .pure trivial

theorem allows_twoResult {i : Nat} :
    Emit.Allows (c.twoResult inst types i) ((c.retarget t).twoResult inst types i) := by
  refine .bind (.lift (carries_argDestination h)) fun _ _ hd => ?_
  cases hd
  case none => exact .pure trivial
  case some dst dst' hd =>
    dsimp only
    rw [hd]
    refine .bind (.each fun _ => .lift (allows_source h)) fun _ _ ha => ?_
    exact .bind (allows_resultValue h ha) fun (_, _) (_, _) _ => .pure trivial

theorem allows_twoResults :
    Emit.Allows (c.twoResults inst types) ((c.retarget t).twoResults inst types) :=
  .bind (allows_twoResult h) fun _ _ _ => .bind (allows_twoResult h) fun _ _ _ => allows_commit

theorem allows_derivative {e e' : Expr} :
    Emit.Allows (c.derivative op e) ((c.retarget t).derivative op e') := by
  refine .ite .throw ?_
  cases hd' : (c.retarget t).has .derivatives
  case true => exact fun _ _ _ _ => ⟨_, rfl, trivial⟩
  case false =>
    cases he' : (c.retarget t).has .derivativesExt
    case true => exact fun _ _ _ _ => ⟨_, rfl, trivial⟩
    case false =>
      rw [h.has_eq_false hd', h.has_eq_false he']
      exact .bind (.lift (allows_require h)) fun _ _ _ => .pure trivial

theorem allows_elementwiseValue {args args' : List Expr}
    (ha : List.Forall₂ (fun _ _ => True) args args') :
    Emit.Allows (c.elementwiseValue op args n types)
      ((c.retarget t).elementwiseValue op args' n types) := by
  have bitwise {f f' : Expr → Expr → Expr} :
      Emit.Allows (elementwiseValue.bitwise c args f)
        (elementwiseValue.bitwise (c.retarget t) args' f') :=
    .bind (.lift (allows_require h)) fun _ _ _ => allows_binary ha
  have bitfield {function : String} :
      Emit.Allows (elementwiseValue.bitfield c args function)
        (elementwiseValue.bitfield (c.retarget t) args' function) :=
    .bind (.lift (allows_require h)) fun _ _ _ => allows_unary ha
  unfold elementwiseValue
  cases op
  case add | iadd | mul | div | min | imin | umin | max | imax | umax => exact allows_binary ha
  case mad | imad | umad =>
    dsimp only
    split
    case h_1 =>
      cases ha
      cases ‹List.Forall₂ _ [_, _] _›
      cases ‹List.Forall₂ _ [_] _›
      cases ‹List.Forall₂ _ [] _›
      exact .pure trivial
    case h_2 => exact .throw
  case frc | exp | log | sqrt | rsq | rcp | roundNi | roundPi | ineg | itof | utof | ftoi | ftou =>
    exact allows_unary ha
  case roundNe | not => exact .bind (.lift (allows_require h)) fun _ _ _ => allows_unary ha
  case roundZ =>
    dsimp only
    split <;> split <;> exact allows_unary ha
  case derivRtx | derivRty | derivRtxCoarse | derivRtxFine | derivRtyCoarse | derivRtyFine =>
    dsimp only
    split
    case h_1 =>
      cases ha
      cases ‹List.Forall₂ _ [] _›
      exact allows_derivative h
    case h_2 => exact .throw
  case ishl | ishr | ushr | and | or | xor => exact bitwise
  case countBits | firstBitLo | bfrev => exact bitfield
  all_goals exact .throw

theorem allows_elementwise :
    Emit.Allows (c.elementwise inst types) ((c.retarget t).elementwise inst types) := by
  refine .bind (.lift (carries_argDestination h)) fun _ _ hd => ?_
  cases hd
  case none => exact .pure trivial
  case some dst dst' hd =>
    dsimp only
    rw [hd]
    refine .bind (.each fun _ => .lift (allows_source h)) fun _ _ ha => ?_
    exact .bind (allows_elementwiseValue h ha) fun _ _ _ => .pure trivial

theorem allows_laneValue {lane : Nat} :
    Allows (c.laneValue inst types lane) ((c.retarget t).laneValue inst types lane) := by
  unfold laneValue
  split
  case h_3 | h_4 =>
    refine .bind (allows_argSource h) fun _ _ _ => .bind (allows_argSource h) fun _ _ _ => ?_
    exact .bind (allows_argSource h) fun _ _ _ => .pure trivial
  case h_5 =>
    refine .bind (allows_argSource h) fun _ _ _ => .bind (allows_argSource h) fun _ _ _ => ?_
    refine .bind (allows_argSource h) fun _ _ _ => .bind (allows_argSource h) fun _ _ _ => ?_
    exact .pure trivial
  all_goals exact .bind (allows_argSource h) fun _ _ _ => .pure trivial

theorem allows_perLane : Allows (c.perLane inst types) ((c.retarget t).perLane inst types) := by
  have lanes : Allows (c.withDestination inst fun dst => do
        let lanes ← dst.components.mapM (c.laneValue inst types)
        return c.storeLine dst (c.construct types.result lanes) types.result)
      ((c.retarget t).withDestination inst fun dst => do
        let lanes ← dst.components.mapM ((c.retarget t).laneValue inst types)
        return (c.retarget t).storeLine dst ((c.retarget t).construct types.result lanes)
          types.result) := by
    refine allows_withDestination h fun dst dst' hd => ?_
    rw [hd]
    exact .bind (.each fun _ => allows_laneValue h) fun _ _ _ => .pure trivial
  unfold perLane
  split <;> exact .bind (allows_require h) fun _ _ _ => lanes

theorem allows_doubleSource {i pair : Nat} :
    Allows (c.doubleSource inst i pair) ((c.retarget t).doubleSource inst i pair) :=
  .same fun _ => .bind (allows_rawSource h) fun _ _ _ => .same fun _ => .pure trivial

theorem allows_doubleValue {pair k : Nat} :
    Allows (c.doubleValue inst pair k) ((c.retarget t).doubleValue inst pair k) := by
  unfold doubleValue
  split
  case h_1 | h_2 | h_3 | h_4 | h_5 =>
    exact .bind (allows_doubleSource h) fun _ _ _ =>
      .bind (allows_doubleSource h) fun _ _ _ => .pure trivial
  case h_6 =>
    refine .bind (allows_doubleSource h) fun _ _ _ => .bind (allows_doubleSource h) fun _ _ _ => ?_
    exact .bind (allows_doubleSource h) fun _ _ _ => .pure trivial
  case h_7 => exact .bind (allows_doubleSource h) fun _ _ _ => .pure trivial
  case h_8 => exact allows_doubleSource h
  case h_9 =>
    refine .bind (allows_argSource h) fun _ _ _ => .bind (allows_doubleSource h) fun _ _ _ => ?_
    exact .bind (allows_doubleSource h) fun _ _ _ => .pure trivial
  all_goals exact .bind (allows_argSource h) fun _ _ _ => .pure trivial

theorem allows_doubleResult :
    Allows (c.doubleResult inst) ((c.retarget t).doubleResult inst) := by
  refine .bind (allows_require h) fun _ _ _ => allows_withDestination h fun dst dst' hd => ?_
  rw [Destination.pairs, Destination.pairs, hd]
  exact .bind (.each fun (_, _) => .bind (allows_doubleValue h) fun _ _ _ => .pure trivial)
    fun _ _ _ => .pure trivial

theorem allows_narrowedValue {k : Nat} :
    Allows (c.narrowedValue inst k) ((c.retarget t).narrowedValue inst k) := by
  refine .bind (allows_doubleSource h) fun _ _ _ => ?_
  split
  case h_1 | h_2 | h_3 => exact .pure trivial
  all_goals exact .bind (allows_doubleSource h) fun _ _ _ => .pure trivial

theorem allows_fromDouble :
    Allows (c.fromDouble inst types) ((c.retarget t).fromDouble inst types) := by
  refine .bind (allows_require h) fun _ _ _ => allows_withDestination h fun dst dst' hd => ?_
  rw [hd]
  exact .bind (.each fun _ => allows_narrowedValue h) fun _ _ _ => .pure trivial

theorem allows_evaluatedLane {function' : String} {extra extra' : List Expr} {register : UInt32}
    {op : Operand} {lane : Nat} :
    Allows (c.evaluatedLane function extra register op lane)
      ((c.retarget t).evaluatedLane function' extra' register op lane) := by
  refine .bind (R := fun _ _ => True) (carries_orUnresolved fun v hv => ?_)
    fun _ _ _ => .pure trivial
  have ⟨v', hv'⟩ := h.interface.exists_varying hv
  exact ⟨v', hv', trivial⟩

theorem allows_evaluate : Allows (c.evaluate inst) ((c.retarget t).evaluate inst) := by
  refine .ite .error (.bind (allows_require h) fun _ _ _ => ?_)
  refine allows_withDestination h fun dst dst' hd => ?_
  rw [hd]
  refine .same fun _ => .same fun op => .same fun register => ?_
  split
  case' h_2 | h_3 => refine .bind (allows_argSource h) fun _ _ _ => ?_
  all_goals
    refine .bind (R := fun _ _ => True) (.pure trivial) fun (_, _) (_, _) _ => ?_
    exact .bind (.each fun _ => allows_evaluatedLane h) fun _ _ _ => .pure trivial

end Context

end ShaderLift
