import ShaderLift.Container.Program
import ShaderLift.Proofs.Lift.Assembly
import ShaderLift.Proofs.Lift.Results

/-!
The names of blocks in a whole shader. Only instructions with two results take them, and no two
instructions take the same, because each continues where the one before it has stopped, in the same
function or in another one.
-/

namespace ShaderLift

open Glsl

namespace Context

variable {c : Context} {inst : Instruction} {isLast : Bool} {lines : List Line} {i : Nat}
variable {s s' : Progress}

theorem declared_of_inert (h : Inert lines) : lines.flatMap Line.declared = [] :=
  List.flatMap_eq_nil_iff.mpr fun line hl => (h line hl).declares

theorem fresh_of_step (h : (c.step inst isLast).run s = .ok (lines, s')) :
    Fresh s.fresh s'.fresh (lines.flatMap Line.declared) := by
  cases ht : inst.opcode.hasTwoResults
  case true =>
    obtain ⟨_, _, _, _, _, hfresh⟩ := written_of_step ht h
    exact hfresh
  case false =>
    obtain ⟨hsaid, hle⟩ := says_step.of_run h
    have hdeclares : ¬(c.vocabulary inst).Declares := by simp [vocabulary, ht]
    have hnone : lines.flatMap Line.declared = [] := by
      cases hsaid
      case inl hsteers => exact declared_of_inert hsteers.inert
      case inr hcalls =>
        exact List.flatMap_eq_nil_iff.mpr fun line hl => (hcalls line hl).declared hdeclares
    exact hnone ▸ .nil hle

theorem fresh_of_body {start stop : Nat} (h : (c.body start stop).run s = .ok (lines, s')) :
    Fresh s.fresh s'.fresh (lines.flatMap Line.declared) := by
  refine of_range (R := fun s s' lines => Fresh s.fresh s'.fresh (lines.flatMap Line.declared))
    (fun s => .nil (Nat.le_refl _)) (fun _ _ _ _ _ h h' => ?append)
    (fun _ _ _ _ _ _ _ hr => fresh_of_step hr) h
  rw [List.flatMap_append]
  exact h.append h'

namespace Assembled

variable {fs : List Function} {rs : List Flow.Span}

theorem fresh (h : c.Assembled s s' fs rs) :
    Fresh s.fresh s'.fresh (fs.flatMap Function.declared) := by
  induction h
  case nil => exact .nil (Nat.le_refl _)
  case framing hf _ hi =>
    rw [List.flatMap_cons, Function.declared, declared_of_inert hf.inert]
    exact hi
  case body hsplit hfront hback _ hrun _ hi =>
    have hdeclared := fresh_of_body hrun
    rw [List.flatMap_cons, Function.declared, hsplit, List.flatMap_append, List.flatMap_append,
      declared_of_inert hfront.inert, declared_of_inert hback.inert, List.nil_append,
      List.append_nil]
    exact hdeclared.append hi

theorem exists_body (h : c.Assembled s s' fs rs) :
    ∀ r ∈ rs, ∃ f ∈ fs, ∃ (scope : Scope) (before lines after : List Line) (t t' : Progress),
      f.body = before ++ lines ++ after ∧
        ({ c with scope }.body r.first r.stop).run t = .ok (lines, t') := by
  induction h
  case nil => exact List.forall_mem_nil _
  case framing hi =>
    intro r hr
    obtain ⟨f, hf, hbody⟩ := hi r hr
    exact ⟨f, List.mem_cons_of_mem _ hf, hbody⟩
  case body hsplit _ _ _ hrun _ hi =>
    refine List.forall_mem_cons.mpr ⟨?_, fun r hr => ?_⟩
    case refine_1 => exact ⟨_, List.mem_cons_self, _, _, _, _, _, _, hsplit, hrun⟩
    case refine_2 =>
      obtain ⟨f, hf, hbody⟩ := hi r hr
      exact ⟨f, List.mem_cons_of_mem _ hf, hbody⟩

end Assembled

end Context

theorem Fresh.nodup_text {m n : Nat} {names : List Name} (h : Fresh m n names) :
    (names.map Name.text).Nodup := by
  refine h.nodup.map_on fun a ha b hb htext => ?_
  obtain ⟨j, rfl, _⟩ := h.within a ha
  obtain ⟨k, rfl, _⟩ := h.within b hb
  exact congrArg Name.scratch (Nat.repr_inj.mp (append_cancel_left htext))

namespace Program

variable {p : Program} {o : Options} {s : Shader}

theorem lift_stages_results (h : p.lift o = .ok s) :
    ((s.source.functions.toList.flatMap Function.declared).map Name.text).Nodup ∧
    ∃ c phases, p.Lifted o s c phases ∧ ∀ r ∈ c.spans phases,
      ∃ f ∈ s.source.functions.toList, ∃ (scope : Scope) (piece : Nat → List Line)
        (before after : List Line),
        f.body = before ++ (List.range' r.first (r.stop - r.first)).flatMap piece ++ after ∧
        ∀ i inst, r.first ≤ i → i < r.stop → p.instructions[i]? = some inst →
          inst.opcode.hasTwoResults → ∃ first second,
            ({ c with scope }.focus i inst).Results inst 0 first ∧
            ({ c with scope }.focus i inst).Results inst 1 second ∧
            ({ c with scope }.focus i inst).Stages (first ++ second) (piece i) ∧
            (ReadsFirst ((piece i).flatMap Line.statements) ↔
              (first ++ second).Pairwise Pending.Precedes) := by
  obtain ⟨c, phases, l⟩ := exists_lifted h
  obtain ⟨_, hrun, _⟩ := l.written
  obtain ⟨fs, rs, hassembled, hfs, hrs⟩ :=
    Context.exists_assembled_of_write (Interface.moves_of_build l.interface) hrun
  refine ⟨(hassembled.fresh.perm (hfs.flatMap_right _)).nodup_text, c, phases, l, fun r hr => ?_⟩
  obtain ⟨f, hf, scope, before, lines, after, t, t', hsplit, hbody⟩ :=
    hassembled.exists_body r (hrs.mem_iff.mpr hr)
  obtain ⟨piece, rfl, hpieces⟩ := Context.exists_pieces_of_range hbody
  refine ⟨f, hfs.mem_iff.mp hf, scope, piece, before, after, hsplit, ?_⟩
  intro i inst hi hlt hinst ht
  obtain ⟨inst', _, _, _, hinst', _, hstep⟩ := hpieces i hi (by omega)
  rw [← l.program] at hinst
  cases hinst.symm.trans hinst'
  obtain ⟨first, second, hfirst, hsecond, hstages, _⟩ := Context.written_of_step ht hstep
  refine ⟨first, second, hfirst, hsecond, hstages, hstages.readsFirst_iff ?_⟩
  exact List.forall_mem_append.mpr ⟨hfirst.settled, hsecond.settled⟩

-- A product of two registers that goes to the same registers, and a single result.
def aliasedProduct : Program where
  instructions :=
    [⟨.imul, .alu false 0, [0, 1, 2, 3], 0⟩, ⟨.sinCos, .alu false 0, [4, 0, 2], 0⟩,
      ⟨.ret, .flow, [], 0⟩]
  operands :=
    #[{ register := .temp, selection := .mask .xyzw, indices := [.imm 0] },
      { register := .temp, selection := .mask .xyzw, indices := [.imm 1] },
      { register := .temp, indices := [.imm 0] }, { register := .temp, indices := [.imm 1] },
      { register := .null }]

theorem lift_stages_results_aliasedProduct :
    ∃ s, aliasedProduct.lift { version := .gl43 } = .ok s ∧
      (s.source.functions.toList.flatMap Function.declared).map Name.text =
        ["tmp0", "tmp1", "tmp2", "tmp3"] ∧
      ((s.source.functions.toList.flatMap Function.declared).map Name.text).Nodup ∧
      ∃ c phases, aliasedProduct.Lifted { version := .gl43 } s c phases ∧
        ∃ f ∈ s.source.functions.toList, ∃ (scope : Scope) (piece : Nat → List Line)
          (before after : List Line), f.body = before ++ [0, 1].flatMap piece ++ after ∧
          ∀ i < 2, ∃ inst first second, aliasedProduct.instructions[i]? = some inst ∧
            ({ c with scope }.focus i inst).Results inst 0 first ∧
            ({ c with scope }.focus i inst).Results inst 1 second ∧
            ({ c with scope }.focus i inst).Stages (first ++ second) (piece i) ∧
            (ReadsFirst ((piece i).flatMap Line.statements) ↔
              (first ++ second).Pairwise Pending.Precedes) := by
  obtain ⟨s, h, hnames⟩ : ∃ s, aliasedProduct.lift { version := .gl43 } = .ok s ∧
      (s.source.functions.toList.flatMap Function.declared).map Name.text =
        ["tmp0", "tmp1", "tmp2", "tmp3"] := by
    decide +kernel
  obtain ⟨flow, hflow, hmain⟩ :
      ∃ flow, aliasedProduct.requireFlow = .ok flow ∧ flow.mainEnd = 2 := by
    decide +kernel
  obtain ⟨hnodup, c, phases, l, hspans⟩ := lift_stages_results h
  have hend : c.flow.mainEnd = 2 := Except.ok.inj (hflow.symm.trans l.flow) ▸ hmain
  have hphases : phases = none := by
    cases phases
    case none => rfl
    case some => exact absurd (l.hull.mp rfl) (by decide)
  have hspan : (⟨0, 2⟩ : Flow.Span) ∈ c.spans phases := by
    simp [hphases, Context.spans, Flow.bodies, hend]
  obtain ⟨f, hf, scope, piece, before, after, hbody, hpieces⟩ := hspans _ hspan
  refine ⟨s, h, hnames, hnodup, c, phases, l, f, hf, scope, piece, before, after, hbody, ?_⟩
  intro i hi
  obtain ⟨inst, hinst, ht⟩ :
      ∃ inst, aliasedProduct.instructions[i]? = some inst ∧ inst.opcode.hasTwoResults := by
    interval_cases i <;> exact ⟨_, rfl, rfl⟩
  obtain ⟨first, second, hstages⟩ := hpieces i inst (Nat.zero_le i) hi hinst ht
  exact ⟨inst, first, second, hinst, hstages⟩

end Program

-- `dcl_indexableTemp x0[2], 4; sincos r0.x, x0[r0.x].x, r1.x; ret`.
def dependentTarget : List UInt32 :=
  [0x50, 16, 0x04000069, 0, 2, 4, 0x0900004d, 0x00100012, 0, 0x04203012, 0, 0x0010000a, 0,
    0x0010000a, 1, 0x0100003e]

theorem Program.reads_last_dependentTarget : ∃ s, Shader.ofTokens dependentTarget {} = .ok s ∧
    ∃ f ∈ s.source.functions.toList,
      ["        r0.x = tmp0;", "        x0[floatBitsToInt(r0.x)].x = tmp1;"] <:+: f.text ∧
        ¬ReadsFirst (f.body.flatMap Line.statements) := by
  decide +kernel

end ShaderLift
