import ShaderLift.Proofs.Flow.Shape
import ShaderLift.Proofs.Lift.Body
import ShaderLift.Proofs.Lift.Header
import ShaderLift.Lift.Shader

/-!
The bodies of functions, instruction by instruction. Each instruction of a span adds the lines that
its step gives, and those show its role in the block structure.
-/

namespace ShaderLift

open Glsl Std.Do

set_option mvcgen.warning false

namespace Emit

variable {α β : Type} {x : Emit α} {f : α → Emit β} {a a' : α} {b : β} {s s' : Progress}

theorem run_bind_eq_ok :
    (x >>= f).run s = .ok (b, s') ↔ ∃ a t, x.run s = .ok (a, t) ∧ (f a).run t = .ok (b, s') := by
  rw [StateT.run_bind]
  cases x.run s
  case error => simp [bind, Except.bind]
  case ok r => simp [bind, Except.bind, Prod.ext_iff]

theorem run_pure_eq_ok : (pure a : Emit α).run s = .ok (a', s') ↔ a = a' ∧ s = s' := by
  rw [StateT.run_pure]
  simp [pure, Except.pure]

theorem run_lift_bind_eq_ok {x : Except LiftError α} :
    (liftM x >>= f).run s = .ok (b, s') ↔ ∃ a, x = .ok a ∧ (f a).run s = .ok (b, s') := by
  cases x
  case error e =>
    have hrun : (liftM (.error e : Except LiftError α) >>= f).run s = .error e := rfl
    simp [hrun]
  case ok a =>
    have hrun : (liftM (.ok a : Except LiftError α) >>= f).run s = (f a).run s := rfl
    simp [hrun]

theorem of_run_eq_ok {P : α → Prop} (h : ⦃⌜True⌝⦄ x ⦃⇓? a => ⌜P a⌝⦄) (hr : x.run s = .ok (a, s')) :
    P a :=
  (returns_iff (x := x.run s) (P := fun r => P r.1)).mp (fun _ => h s trivial) (a, s') hr

end Emit

section

variable {N : Name → Prop} {role : Flow.Role} {line : Line} {lines : List Line}
variable (hN : ∀ name, N name → Plain name.text)

include hN

theorem Line.Flat.balanced (h : line.Flat N) : Balanced (braceWord [line]) := by
  cases line
  case stmts => exact Line.balanced_stmts hN h
  all_goals cases h

theorem Emitted.balanced (h : Emitted N lines) : Balanced (braceWord lines) := by
  cases h
  case flat h => exact balanced_braceWord fun line hl => Line.Flat.balanced hN (h line hl)
  case block h =>
    have hbody := balanced_braceWord fun line hl => Line.Flat.balanced hN (h line hl)
    exact balanced_block hN trivial hbody

-- Instructions in a role write the braces of the role.
theorem Stepped.shows (h : Stepped N role lines) : role.Shows (braceWord lines) := by
  cases h
  case opener h => simp [Flow.Role.Shows, Line.text?, Head.braces_text hN h]
  case otherwise => simp [Flow.Role.Shows]
  case startCase label before hl hb =>
    have hb : braceWord before = [] := List.flatMap_eq_nil_iff.mpr fun line h => hb line h ▸ rfl
    have hlabel := (CaseLabel.plain_text hN hl).braces
    simp [Flow.Role.Shows, hb, Line.text?, hlabel, Balanced.nil]
  case closer before hb =>
    have hbreak : braces ((Line.stmt (.jump .breakOut)).text?.getD "").toList = [] := by decide
    have hb : braceWord before = [] := by
      refine List.flatMap_eq_nil_iff.mpr fun line h => ?_
      cases hb line h
      case inl h => exact h ▸ rfl
      case inr h => exact h ▸ hbreak
    simp [Flow.Role.Shows, hb]
  case other hr he =>
    have hb := Emitted.balanced hN he
    cases role
    case opener | divider | closer => cases hr
    all_goals exact hb

end

namespace Context

variable {c : Context} {lines : List Line} {s s' : Progress} {depth i n : Nat}

-- The context of an instruction.
def focus (c : Context) (i : Nat) (inst : Instruction) : Context :=
  { c with index := i, saturate := inst.controls.saturate }

-- What instruction `i` may add to a function.
def Writes (c : Context) (i : Nat) (lines : List Line) : Prop :=
  ∃ inst isLast s s', c.program.instructions[i]? = some inst ∧
    ((c.focus i inst).step inst isLast).run s = .ok (lines, s')

-- The same in a function that ends in front of `stop`, where alone an instruction is the last one.
def WritesBefore (c : Context) (stop i : Nat) (lines : List Line) : Prop :=
  ∃ inst isLast s s', c.program.instructions[i]? = some inst ∧ (isLast = true → i + 1 = stop) ∧
    ((c.focus i inst).step inst isLast).run s = .ok (lines, s')

theorem WritesBefore.writes {stop : Nat} (h : c.WritesBefore stop i lines) : c.Writes i lines :=
  have ⟨inst, isLast, s, s', hi, _, hr⟩ := h
  ⟨inst, isLast, s, s', hi, hr⟩

theorem Writes.shows (hN : ∀ name, c.names name → Plain name.text) (h : c.Writes i lines) :
    ∃ role, Flow.roleAt c.program.instructions i = some role ∧ role.Shows (braceWord lines) := by
  have ⟨inst, isLast, s, s', hi, hr⟩ := h
  have hstep := Emit.of_run_eq_ok (step_spec (c := c.focus i inst) (List.mem_of_getElem? hi)) hr
  exact ⟨_, Flow.roleAt_eq_of_getElem? hi, Stepped.shows hN hstep⟩

theorem exists_pieces_of_range (h : (c.range n i depth).run s = .ok (lines, s')) :
    ∃ piece, lines = (List.range' i n).flatMap piece ∧
      ∀ k, i ≤ k → k < i + n → c.WritesBefore (i + n) k (piece k) := by
  induction n generalizing i depth s s' lines
  case zero =>
    have ⟨hl, _⟩ := Emit.run_pure_eq_ok.mp h
    exact ⟨fun _ => [], by simp [← hl], fun k hk hlt => absurd hlt (Nat.not_lt_of_le hk)⟩
  case succ n hi =>
    simp only [range] at h
    split at h
    case h_2 => cases h
    case h_1 inst hinst =>
      have ⟨first, t, hfirst, h⟩ := Emit.run_bind_eq_ok.mp h
      have ⟨rest, t', hrest, h⟩ := Emit.run_bind_eq_ok.mp h
      have ⟨hl, _⟩ := Emit.run_pure_eq_ok.mp h
      have ⟨piece, hpieces, hwrites⟩ := hi hrest
      refine ⟨Function.update piece i first, ?lines, fun k hk hlt => ?writes⟩
      case lines =>
        have hupdate : (List.range' (i + 1) n).flatMap (Function.update piece i first) =
            (List.range' (i + 1) n).flatMap piece := by
          refine List.flatMap_congr fun k hk => Function.update_of_ne ?_ ..
          exact Nat.ne_of_gt (List.mem_range'_1.mp hk).left
        rw [List.range'_succ, List.flatMap_cons, hupdate, Function.update_self, ← hpieces, hl]
      case writes =>
        cases Nat.lt_or_eq_of_le hk
        case inl hk =>
          rw [Function.update_of_ne (Nat.ne_of_gt hk), ← Nat.succ_add_eq_add_succ]
          exact hwrites k hk (by omega)
        case inr hk =>
          subst hk
          rw [Function.update_self]
          exact ⟨inst, _, s, t, hinst, by simp +contextual, hfirst⟩

end Context

end ShaderLift
