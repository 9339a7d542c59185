import ShaderLift.Lift.Arithmetic
import ShaderLift.Proofs.Invariance.Sources

/-!
Moves, arithmetic, bit manipulation, conversions and double precision do not depend on declarations
and places.
-/

namespace ShaderLift

open Glsl

namespace Context

variable {strict : Prop} {c : Context} {m : Move} {inst : Instruction} {types : AluTypes}

theorem hold_move {ps : List Pending} : (c.move m).hold ps = c.hold ps := by
  induction ps
  case nil => rfl
  case cons p ps hi =>
    unfold hold
    rw [hi]
    rfl

theorem commit_move {ps : List Pending} : (c.move m).commit ps = c.commit ps := by
  unfold commit
  simp only [hold_move]
  rfl

variable (h : m.Keeps strict c) {op : Opcode}

include h

theorem agrees_withDestination {body body' : Destination → Except LiftError (List Line)}
    (hb : ∀ dst, Agrees strict (body dst) (body' dst)) :
    Agrees strict (c.withDestination inst body) ((c.move m).withDestination inst body') := by
  refine .bind (agrees_argDestination h) fun dst => ?_
  cases dst
  case none => exact .refl _
  case some dst => exact hb dst

theorem agrees_mov : Agrees strict (c.mov inst) ((c.move m).mov inst) := by
  refine agrees_withDestination h fun dst => .same fun id => ?_
  refine .ite (.same fun _ => ?_) (.same fun _ => ?_)
  all_goals exact .bind (agrees_source h) fun _ => .refl _

theorem agrees_choose {test yes no : OperandId} {type : ValueType} {lanes : List Nat} :
    Agrees strict (c.choose test yes no type lanes) ((c.move m).choose test yes no type lanes) := by
  refine .bind (.mapM fun lane => ?_) fun _ => .refl _
  exact .bind (agrees_source h) fun _ => .bind (agrees_source h) fun _ =>
    .bind (agrees_source h) fun _ => .refl _

theorem agrees_movc : Agrees strict (c.movc inst) ((c.move m).movc inst) := by
  refine agrees_withDestination h fun dst => .same fun yes => ?_
  refine .ite (.same fun _ => ?_) (.same fun _ => ?_)
  all_goals
    exact .same fun _ => .same fun _ => .bind (agrees_choose h) fun _ => .refl _

theorem agrees_swapc : Emit.Agrees strict (c.swapc inst) ((c.move m).swapc inst) := by
  refine .same fun test => .same fun a => .same fun b => .same fun type => ?_
  extract_lets result result'
  have hresult (i : Nat) (yes no : OperandId) :
      Agrees strict (result i yes no) (result' i yes no) := by
    refine .bind (agrees_argDestination h) fun dst => ?_
    cases dst
    case none => exact .refl _
    case some => exact .bind (agrees_choose h) fun _ => .refl _
  refine .bind (.lift (hresult 0 b a)) fun _ => .bind (.lift (hresult 1 a b)) fun _ => ?_
  rw [commit_move]
  exact .refl _

theorem agrees_dot {k : Nat} : Agrees strict (c.dot inst k) ((c.move m).dot inst k) :=
  agrees_withDestination h fun _ => .bind (agrees_argSource h) fun _ =>
    .bind (agrees_argSource h) fun _ => .refl _

theorem agrees_compare {function : String} {op : BinaryOp} :
    Agrees strict (c.compare inst types function op) ((c.move m).compare inst types function op) :=
  agrees_withDestination h fun _ => .bind (agrees_argSource h) fun _ =>
    .bind (agrees_argSource h) fun _ => .refl _

theorem agrees_resultValue {isFirst : Bool} {args : List Expr} {type : ValueType} {n : Nat} :
    Emit.Agrees strict (c.resultValue op isFirst args type n)
      ((c.move m).resultValue op isFirst args type n) := by
  have wide {function : String} {a b : Expr} :
      Emit.Agrees strict (resultValue.wide c type n function a b)
        (resultValue.wide (c.move m) type n function a b) :=
    .bind (.lift (agrees_require h)) fun _ => .refl _
  have carry {function : String} {a b : Expr} :
      Emit.Agrees strict (resultValue.carry c type n function a b)
        (resultValue.carry (c.move m) type n function a b) :=
    .bind (.lift (agrees_require h)) fun _ => .refl _
  unfold resultValue
  split
  case h_4 => exact .bind (.lift (agrees_require h)) fun _ => .refl _
  case h_5 | h_6 => exact wide
  case h_11 | h_12 => exact carry
  all_goals exact .refl _

theorem agrees_twoResult {i : Nat} :
    Emit.Agrees strict (c.twoResult inst types i) ((c.move m).twoResult inst types i) := by
  refine .bind (.lift (agrees_argDestination h)) fun dst => ?_
  cases dst
  case none => exact .refl _
  case some dst =>
    refine .bind (.mapM fun _ => .lift (agrees_source h)) fun _ => ?_
    exact .bind (agrees_resultValue h) fun _ => .refl _

theorem agrees_twoResults :
    Emit.Agrees strict (c.twoResults inst types) ((c.move m).twoResults inst types) := by
  refine .bind (agrees_twoResult h) fun _ => .bind (agrees_twoResult h) fun _ => ?_
  rw [commit_move]
  exact .refl _

theorem agrees_derivative {e : Expr} :
    Emit.Agrees strict (c.derivative op e) ((c.move m).derivative op e) := by
  refine .ite (.throw h.unsupported) (.ite (.ite (.refl _) ?_) (.refl _))
  exact .bind (.lift (agrees_require h)) fun _ => .refl _

theorem agrees_elementwiseValue {args : List Expr} {n : Nat} :
    Emit.Agrees strict (c.elementwiseValue op args n types)
      ((c.move m).elementwiseValue op args n types) := by
  have bitwise {f : Expr → Expr → Expr} :
      Emit.Agrees strict (elementwiseValue.bitwise c args f)
        (elementwiseValue.bitwise (c.move m) args f) :=
    .bind (.lift (agrees_require h)) fun _ => .refl _
  have bitfield {function : String} :
      Emit.Agrees strict (elementwiseValue.bitfield c args function)
        (elementwiseValue.bitfield (c.move m) args function) :=
    .bind (.lift (agrees_require h)) fun _ => .refl _
  unfold elementwiseValue
  cases op
  case roundNe | not => exact .bind (.lift (agrees_require h)) fun _ => .refl _
  case derivRtx | derivRty | derivRtxCoarse | derivRtxFine | derivRtyCoarse | derivRtyFine =>
    dsimp only
    split
    case h_1 => exact agrees_derivative h
    case h_2 => exact .refl _
  case ishl | ishr | ushr | and | or | xor => exact bitwise
  case countBits | firstBitLo | bfrev => exact bitfield
  case add | iadd | mul | div | mad | imad | umad | min | imin | umin | max | imax | umax | frc
      | exp | log | sqrt | rsq | rcp | roundNi | roundPi | roundZ | ineg | itof | utof | ftoi
      | ftou =>
    exact .refl _
  all_goals exact .throw h.unsupported

theorem agrees_elementwise :
    Emit.Agrees strict (c.elementwise inst types) ((c.move m).elementwise inst types) := by
  refine .bind (.lift (agrees_argDestination h)) fun dst => ?_
  cases dst
  case none => exact .refl _
  case some dst =>
    refine .bind (.mapM fun _ => .lift (agrees_source h)) fun _ => ?_
    exact .bind (agrees_elementwiseValue h) fun _ => .refl _

theorem agrees_laneValue {lane : Nat} :
    Agrees strict (c.laneValue inst types lane) ((c.move m).laneValue inst types lane) := by
  unfold laneValue
  split
  case h_3 | h_4 =>
    exact .bind (agrees_argSource h) fun _ => .bind (agrees_argSource h) fun _ =>
      .bind (agrees_argSource h) fun _ => .refl _
  case h_5 =>
    exact .bind (agrees_argSource h) fun _ => .bind (agrees_argSource h) fun _ =>
      .bind (agrees_argSource h) fun _ => .bind (agrees_argSource h) fun _ => .refl _
  all_goals exact .bind (agrees_argSource h) fun _ => .refl _

theorem agrees_perLane : Agrees strict (c.perLane inst types) ((c.move m).perLane inst types) := by
  have lanes : Agrees strict (c.withDestination inst fun dst => do
        let lanes ← dst.components.mapM (c.laneValue inst types)
        return c.storeLine dst (c.construct types.result lanes) types.result)
      ((c.move m).withDestination inst fun dst => do
        let lanes ← dst.components.mapM ((c.move m).laneValue inst types)
        return (c.move m).storeLine dst ((c.move m).construct types.result lanes) types.result) :=
    agrees_withDestination h fun _ => .bind (.mapM fun _ => agrees_laneValue h) fun _ => .refl _
  unfold perLane
  split <;> exact .bind (agrees_require h) fun _ => lanes

theorem agrees_doubleSource {i pair : Nat} :
    Agrees strict (c.doubleSource inst i pair) ((c.move m).doubleSource inst i pair) :=
  .same fun _ => .bind (agrees_rawSource h) fun _ => .refl _

theorem agrees_doubleValue {pair k : Nat} :
    Agrees strict (c.doubleValue inst pair k) ((c.move m).doubleValue inst pair k) := by
  unfold doubleValue
  split
  case h_1 | h_2 | h_3 | h_4 | h_5 =>
    exact .bind (agrees_doubleSource h) fun _ => .bind (agrees_doubleSource h) fun _ => .refl _
  case h_6 =>
    exact .bind (agrees_doubleSource h) fun _ => .bind (agrees_doubleSource h) fun _ =>
      .bind (agrees_doubleSource h) fun _ => .refl _
  case h_7 => exact .bind (agrees_doubleSource h) fun _ => .refl _
  case h_8 => exact agrees_doubleSource h
  case h_9 =>
    exact .bind (agrees_argSource h) fun _ => .bind (agrees_doubleSource h) fun _ =>
      .bind (agrees_doubleSource h) fun _ => .refl _
  all_goals exact .bind (agrees_argSource h) fun _ => .refl _

theorem agrees_doubleResult :
    Agrees strict (c.doubleResult inst) ((c.move m).doubleResult inst) := by
  refine .bind (agrees_require h) fun _ => agrees_withDestination h fun dst => ?_
  exact .bind (.mapM fun _ => .bind (agrees_doubleValue h) fun _ => .refl _) fun _ => .refl _

theorem agrees_narrowedValue {k : Nat} :
    Agrees strict (c.narrowedValue inst k) ((c.move m).narrowedValue inst k) := by
  refine .bind (agrees_doubleSource h) fun _ => ?_
  split
  case h_1 | h_2 | h_3 => exact .refl _
  all_goals exact .bind (agrees_doubleSource h) fun _ => .refl _

theorem agrees_fromDouble :
    Agrees strict (c.fromDouble inst types) ((c.move m).fromDouble inst types) :=
  .bind (agrees_require h) fun _ => agrees_withDestination h fun _ =>
    .bind (.mapM fun _ => agrees_narrowedValue h) fun _ => .refl _

theorem agrees_evaluatedLane {function : String} {extra : List Expr} {register : UInt32}
    {op : Operand} {lane : Nat} :
    Agrees strict (c.evaluatedLane function extra register op lane)
      ((c.move m).evaluatedLane function extra register op lane) :=
  .bind (agrees_orUnresolved h) fun _ => .refl _

theorem agrees_evaluate : Agrees strict (c.evaluate inst) ((c.move m).evaluate inst) := by
  refine .ite (.error h.unsupported) (.bind (agrees_require h) fun _ => ?_)
  refine agrees_withDestination h fun dst => .same fun _ => .same fun op => ?_
  refine .bind (agrees_orUnsupported h) fun register => ?_
  split
  case' h_2 | h_3 => refine .bind (agrees_argSource h) fun _ => ?_
  all_goals
    exact .same fun _ => .bind (.mapM fun _ => agrees_evaluatedLane h) fun _ => .refl _

end Context

end ShaderLift
