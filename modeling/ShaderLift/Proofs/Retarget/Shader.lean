import ShaderLift.Proofs.Retarget.Body

/-!
Lifting is monotone in what the dialect can do: a program that can be lifted for one dialect can be
lifted for every dialect with further capabilities, newer versions of the same family among them.
-/

namespace ShaderLift

open Glsl

theorem Version.atLeast_trans {v v' v'' : Version} (h : v''.atLeast v') (h' : v'.atLeast v) :
    v''.atLeast v := by
  simp only [atLeast, Bool.and_eq_true, decide_eq_true_eq] at h h' ⊢
  exact ⟨h.left.trans h'.left, UInt32.le_trans h'.right h.right⟩

-- A newer version of a family can do what an older one can.
theorem Dialect.within_ofVersion {v v' : Version} (h : v'.atLeast v) :
    (ofVersion v).Within (ofVersion v') := by
  intro cap hcap
  have hes : v'.isEs = v.isEs := by
    simp only [Version.atLeast, Bool.and_eq_true, decide_eq_true_eq] at h
    exact h.left
  simp only [ofVersion, Capabilities.ofVersion, Capability.isDefault, hes] at hcap ⊢
  have ⟨first, hfirst, hv⟩ : ∃ first,
      (if v.isEs then cap.entry.es else cap.entry.desktop) = some first ∧ v.atLeast first := by
    cases hfirst : if v.isEs then cap.entry.es else cap.entry.desktop
    case none => simp [hfirst] at hcap
    case some first => exact ⟨first, rfl, by simpa [hfirst] using hcap⟩
  rw [hfirst]
  exact Version.atLeast_trans h hv

theorem Stage.allows_requireIn {d d' : Dialect} (h : d.Within d') {stage : Stage} :
    Allows (stage.requireIn d) (stage.requireIn d') := by
  unfold requireIn
  cases stage
  case vertex | pixel => exact .pure trivial
  all_goals exact h.allows_require

namespace Program

theorem allows_lift (p : Program) (o : Options) (version : Version) (rules : Option Dialect)
    (hw : o.checked = false)
    (hp : ∀ op ∈ p.operands, op.register = .constantBuffer → 2 ≤ op.indices.length)
    (h : o.dialect.Within (o.retarget version rules).dialect) :
    Allows (p.lift o) (p.lift (o.retarget version rules)) := by
  unfold lift
  refine .bind (Stage.allows_requireIn h) fun _ _ _ => .same fun flow => ?_
  refine .ite (.same fun phases => ?_) (.same fun phases => ?_)
  all_goals
    refine .bind (Interface.carries_build h) ?_
    rintro ⟨i, sizes⟩ ⟨i', _⟩ ⟨hi, rfl⟩
    refine .bind (Options.allows_requireWords hw) fun _ _ _ => ?_
    refine .bind (Resources.carries_collect h) fun r r' hr => ?_
    refine .bind (allows_temps hr hw) fun temps temps' _ => ?_
    obtain ⟨buffers, rfl, hb⟩ := hr
    extract_lets c write c' write'
    let t : Target := ⟨version, rules, i', buffers, temps'⟩
    have ht : t.Serves c := ⟨h, hi, ⟨buffers, rfl, hb⟩, hp, hw⟩
    have hc : c' = c.retarget t := rfl
    have hwrite : Emit.Allows write write' := by
      simp only [write, write', hc]
      cases phases
      case none => exact Context.allows_singleFunctions ht
      case some => exact Context.allows_phasedFunctions ht
    refine .bind (hwrite {} {}) fun (_, _) (_, _) _ => ?_
    rw [hc]
    exact .bind (Context.allows_decls ht) fun _ _ _ => .pure trivial

end Program

-- A build that checks its numbers may find one that is too large where the other dialect has a
-- block, and stop.
theorem Program.lift_mono (p : Program) (o : Options) (hw : o.checked = false)
    (hp : ∀ op ∈ p.operands, op.register = .constantBuffer → 2 ≤ op.indices.length) :
    (∀ d d' : Dialect, d.capabilities.Subset d'.capabilities →
      ∀ s, p.lift { o with rules := some d } = .ok s →
        ∃ s', p.lift { o with rules := some d' } = .ok s') ∧
    ∀ v v' : Version, v'.atLeast v →
      ∀ s, p.lift { o with version := v, rules := none } = .ok s →
        ∃ s', p.lift { o with version := v', rules := none } = .ok s' := by
  constructor
  case left =>
    intro d d' h s hs
    have ⟨s', hs', _⟩ := allows_lift p { o with rules := some d } o.version (some d') hw hp h s hs
    exact ⟨s', hs'⟩
  case right =>
    intro v v' h s hs
    have hd := Dialect.within_ofVersion h
    have ⟨s', hs', _⟩ := allows_lift p { o with version := v, rules := none } v' none hw hp hd s hs
    exact ⟨s', hs'⟩

-- A pixel shader that reads a vector which starts in the middle of a register. The vector has a
-- name where there are no uniform blocks, and none where it would lie elsewhere in a block.
def unalignedConstant : Program where
  declarations := [⟨.constantBuffer 0 1 false, 0, 0⟩]
  instructions :=
    [{ opcode := .mov, controls := .alu false 0, operands := [0, 1], position := 0 }]
  operands :=
    #[{ register := .output, selection := .mask .xyzw, indices := [.imm 0] },
      { register := .constantBuffer, selection := .swizzle ⟨1, 2, 3, 3⟩
        indices := [.imm 0, .imm 0] }]
  constantBuffers := [⟨"Light", 0, 16, [⟨"direction", 4, 12, .vector .float 3⟩]⟩]

theorem Program.lift_mono_unalignedConstant :
    (∀ op ∈ unalignedConstant.operands, op.register = .constantBuffer → 2 ≤ op.indices.length) ∧
    Version.gl33.atLeast .gl20 ∧
    (Dialect.ofVersion .gl20).capabilities.Subset (Dialect.ofVersion .gl33).capabilities ∧
    (∃ s, unalignedConstant.lift { rules := some (.ofVersion .gl20), checked := false } = .ok s) ∧
    (∃ s, unalignedConstant.lift { rules := some (.ofVersion .gl33), checked := false } = .ok s) ∧
    (∃ s, unalignedConstant.lift { version := .gl20, checked := false } = .ok s) ∧
    (∃ s, unalignedConstant.lift { version := .gl33, checked := false } = .ok s) := by
  have hp : ∀ op ∈ unalignedConstant.operands,
      op.register = .constantBuffer → 2 ≤ op.indices.length := by decide
  have hd : (Dialect.ofVersion .gl20).Within (.ofVersion .gl33) := Dialect.within_ofVersion rfl
  obtain ⟨s, hs⟩ : ∃ s, unalignedConstant.lift
      { rules := some (.ofVersion .gl20), checked := false } = .ok s := by
    decide +kernel
  obtain ⟨s', hs'⟩ :
      ∃ s, unalignedConstant.lift { version := .gl20, checked := false } = .ok s := by
    decide +kernel
  have hmono := lift_mono unalignedConstant { checked := false } rfl hp
  exact ⟨hp, rfl, hd, ⟨s, hs⟩, hmono.left _ _ hd s hs, ⟨s', hs'⟩, hmono.right _ _ rfl s' hs'⟩

end ShaderLift
