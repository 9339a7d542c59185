import ShaderLift.Proofs.Flow.Insertion
import ShaderLift.Proofs.Invariance.Body
import ShaderLift.Proofs.Lift.Lifted

/-!
An instruction that does nothing can be put almost anywhere outside of hull shaders, and the shader
stays the same. Only where a switch ends does it matter which instruction stands in front.
-/

namespace ShaderLift

open Glsl ShaderLift.Flow

structure Instruction.IsNop (inst : Instruction) : Prop where
  opcode   : inst.opcode = .nop
  operands : inst.operands = []

-- One list has an instruction more than the other at position `k`, which does nothing.
structure Padded (insts insts' : List Instruction) (k : Nat) : Prop where
  before : ∀ i < k, Alike insts insts' i i
  nop    : ∃ inst, insts'[k]? = some inst ∧ inst.IsNop
  after  : ∀ i, k ≤ i → Alike insts insts' i (i + 1)

theorem padded {before after : List Instruction} {nop : Instruction} (h : nop.IsNop)
    (hcase : ∀ last ∈ before.getLast?, ∀ next ∈ after.head?,
      ¬(last.opcode.labelsCase ∧ next.opcode = .endSwitch)) :
    Padded (before ++ after) (before ++ nop :: after) before.length := by
  have hlt {i : Nat} (hi : i < before.length) :
      (before ++ nop :: after)[i]? = (before ++ after)[i]? := by
    rw [List.getElem?_append_left hi, List.getElem?_append_left hi]
  have hle {i : Nat} (hi : before.length ≤ i) :
      (before ++ nop :: after)[i + 1]? = (before ++ after)[i]? := by
    rw [List.getElem?_append_right hi, List.getElem?_append_right (Nat.le_succ_of_le hi),
      Nat.succ_sub hi, List.getElem?_cons_succ]
  have hnop : (before ++ nop :: after)[before.length]? = some nop := by simp
  have hnew : (some nop).any (·.opcode.labelsCase) = false := by
    simp [h.opcode, Opcode.labelsCase]
  refine ⟨fun i hi => ⟨hlt hi, fun _ _ _ => ?_⟩, ⟨nop, hnop, h⟩, fun i hi => ⟨hle hi, ?_⟩⟩
  case refine_1 =>
    cases i
    case zero => rfl
    case succ i => rw [caseBefore, caseBefore, hlt (Nat.lt_of_succ_lt hi)]
  case refine_2 =>
    intro inst hinst hend
    rw [caseBefore]
    rcases Nat.lt_or_eq_of_le hi with hlt | rfl
    case inl =>
      obtain ⟨i, rfl⟩ := Nat.exists_eq_add_one_of_ne_zero (Nat.ne_zero_of_lt hlt)
      rw [caseBefore, hle (Nat.le_of_lt_succ hlt)]
    case inr =>
      -- The one in front was the last of `before`, and now it is the one that does nothing.
      rw [hnop, hnew]
      cases hlength : before.length
      case zero => rfl
      case succ n =>
        have hlast : (before ++ after)[n]? = before.getLast? := by
          rw [List.getLast?_eq_getElem?, hlength, List.getElem?_append_left (by omega)]
          rfl
        have hnext : inst ∈ after.head? := by
          rwa [List.getElem?_append_right hi, Nat.sub_self, ← List.head?_eq_getElem?] at hinst
        rw [caseBefore, hlast]
        cases hb : before.getLast?
        case none => rfl
        case some last => simpa [hend] using hcase last hb inst hnext

theorem depthAfter_eq {op : Opcode} {depth : Nat} (h : 0 ≤ depth + op.role.shift) :
    (Context.depthAfter depth op : Int) = depth + op.role.shift := by
  cases op
  case endIf | endLoop | endSwitch =>
    simp only [Context.depthAfter, Opcode.role, Role.shift] at h ⊢
    omega
  all_goals rfl

namespace Context

variable {c : Context} {m : Move} {inst : Instruction} {count i j k depth : Nat}

-- A range starts behind the instruction that does nothing, if one stands at its start.
theorem range_nop (hi : c.program.instructions[i]? = some inst) (h : inst.IsNop) :
    c.range (count + 1) i depth = c.range count (i + 1) depth := by
  obtain ⟨op, controls, operands, position⟩ := inst
  obtain ⟨rfl, rfl⟩ : op = .nop ∧ operands = [] := ⟨h.opcode, h.operands⟩
  rw [range, hi]
  exact bind_pure (c.range count (i + 1) depth)

section Ranges

variable (hlabel : ∀ label, (c.flow.subroutine? label).isNone = (m.flow.subroutine? label).isNone)

include hlabel

-- A range that holds the instruction that does nothing.
theorem agrees_range_padded (h : Padded c.program.instructions m.instructions k) (hik : i ≤ k)
    (hki : k ≤ i + count) (hlength : i + count ≤ c.program.instructions.length)
    (hdepth : depthAt c.program.instructions i = depth)
    (hnonneg : ∀ n ≤ c.program.instructions.length, 0 ≤ depthAt c.program.instructions n)
    (hret : ∀ n, i ≤ n → n < i + count → ¬returnsAt c.program.instructions n) :
    Emit.Agrees False (c.range count i depth) ((c.move m).range (count + 1) i depth) := by
  induction count generalizing i depth <;> rcases Nat.lt_or_eq_of_le hik with hlt | rfl
  case zero.inl => omega
  case succ.inl count hi =>
    obtain ⟨inst, hinst⟩ : ∃ inst, c.program.instructions[i]? = some inst :=
      ⟨_, List.getElem?_eq_getElem (by omega)⟩
    have hrole := roleAt_eq_of_getElem? hinst
    have hnext := depthAt_succ hrole
    have := hnonneg (i + 1) (by omega)
    have hafter : (depthAfter depth inst.opcode : Int) = depth + inst.opcode.role.shift :=
      depthAfter_eq (by omega)
    refine agrees_range_succ hlabel nofun hinst (h.before i hlt) (fun hop => ?_)
      (hi ?_ ?_ ?_ ?_ fun n hn hstop => hret n (by omega) (by omega))
    case refine_1 =>
      -- It may no longer be the last, but then it stands in a block.
      have hne : depth ≠ 0 := fun hzero => by
        refine hret i (le_refl i) (by omega) ⟨?_, by omega⟩
        rw [hrole, hop]
        rfl
      simp [hne]
    all_goals omega
  all_goals
    obtain ⟨inst, hnop, hinst⟩ := h.nop
    have hnop : (c.move m).program.instructions[i]? = some inst := hnop
    rw [range_nop hnop hinst]
    refine agrees_range hlabel nofun fun n _ => ?_
    rw [Nat.add_right_comm]
    exact h.after (i + n) (Nat.le_add_right i n)

theorem agrees_body {a b : Nat} (h : Padded c.program.instructions m.instructions k)
    (hbody : Body c.program.instructions ⟨a, b⟩) (hlength : b ≤ c.program.instructions.length)
    (hnonneg : ∀ n ≤ c.program.instructions.length, 0 ≤ depthAt c.program.instructions n) :
    Emit.Agrees False (c.body a b)
      ((c.move m).body (if a ≤ k then a else a + 1) (shiftFrom k b)) := by
  have hab : a ≤ b := hbody.ordered
  have hstop : a + (b - a) = b := by omega
  unfold body
  by_cases hak : a ≤ k
  case neg =>
    -- All of it stands behind the instruction that does nothing.
    rw [if_neg hak, shiftFrom_of_le (by omega), Nat.add_sub_add_right]
    refine agrees_range hlabel nofun fun n _ => ?_
    rw [Nat.add_right_comm]
    exact h.after (a + n) (by omega)
  case pos =>
    rw [if_pos hak]
    cases Nat.lt_or_ge b k
    case inl hbk =>
      rw [shiftFrom_of_lt hbk]
      exact agrees_range hlabel nofun fun n _ => h.before (a + n) (by omega)
    case inr hbk =>
      rw [shiftFrom_of_le hbk, Nat.succ_sub hab]
      refine agrees_range_padded hlabel h hak (by omega) (by omega) hbody.first hnonneg ?_
      exact fun n hn hlt hret => hbody.goes_on n ⟨hn, hlt.trans_eq hstop⟩ (.inr hret)

end Ranges

section Functions

variable {arena : Arena} (h : Padded c.program.instructions m.instructions k)
variable (hflow : ofInstructions c.program.instructions arena = .ok c.flow)
variable (hsubs : m.flow.subroutines = c.flow.subroutines.map (Subroutine.moved (shiftFrom k)))

include h hflow hsubs

theorem agrees_subroutines {subs : List Subroutine} (hmem : subs ⊆ c.flow.subroutines) :
    Emit.Agrees False (c.subroutines subs)
      ((c.move m).subroutines (subs.map (Subroutine.moved (shiftFrom k)))) := by
  induction subs
  case nil => exact .refl _
  case cons sub subs hi =>
    have ⟨hsub, hmem⟩ := List.cons_subset.mp hmem
    have cut := cut_bodies hflow
    have hspan : sub.body ∈ c.flow.bodies := List.mem_cons_of_mem _ (List.mem_map_of_mem hsub)
    let c' : Context := { c with scope := .subroutine }
    have hbody : Emit.Agrees False (c'.body (sub.start + 1) sub.stop)
        ((c'.move m).body (if sub.start + 1 ≤ k then sub.start + 1 else sub.start + 1 + 1)
          (shiftFrom k sub.stop)) :=
      agrees_body (c := c') (subroutine?_moved hsubs) h (cut.body _ hspan) (cut.within _ hspan)
        fun _ => depth_nonneg hflow
    have hstart : shiftFrom k sub.start + 1 =
        if sub.start + 1 ≤ k then sub.start + 1 else sub.start + 1 + 1 := by
      unfold shiftFrom
      split_ifs <;> omega
    rw [← hstart] at hbody
    exact .bind hbody fun _ => .bind (hi hmem) fun _ => .refl _

theorem agrees_singleFunctions (hmain : m.flow.mainEnd = shiftFrom k c.flow.mainEnd) :
    Emit.Agrees False c.singleFunctions (c.move m).singleFunctions := by
  have cut := cut_bodies hflow
  have hspan : ⟨0, c.flow.mainEnd⟩ ∈ c.flow.bodies := List.mem_cons_self
  have hbody : Emit.Agrees False (c.body 0 c.flow.mainEnd)
      ((c.move m).body 0 (shiftFrom k c.flow.mainEnd)) :=
    agrees_body (subroutine?_moved hsubs) h (cut.body _ hspan) (cut.within _ hspan) fun _ =>
      depth_nonneg hflow
  have hlabels : m.flow.subroutines.map (·.label) = c.flow.subroutines.map (·.label) := by
    rw [hsubs, List.map_map]
    rfl
  have hflow' : (c.move m).flow = m.flow := rfl
  unfold singleFunctions
  rw [hflow', hlabels, hsubs, hmain]
  refine .bind (agrees_subroutines h hflow hsubs (List.Subset.refl _)) fun _ => ?_
  exact .bind hbody fun _ => .refl _

end Functions

end Context

section Collected

variable {d : Dialect} {o : Options} {p : Program} {r : Resources} {nop : Instruction}
variable {before after : List Instruction}

theorem Program.requireFlow_eq_ok_iff {flow : Flow} (hflow : p.flow = none) :
    p.requireFlow = .ok flow ↔ ofInstructions p.instructions p.operands = .ok flow := by
  unfold requireFlow
  rw [hflow]
  cases ofInstructions p.instructions p.operands <;> simp [Except.mapError]

theorem Resources.agrees_sampleUse {inst : Instruction} {i j : Nat} :
    Agrees False (r.sampleUse p i inst) (r.sampleUse p j inst) := by
  unfold sampleUse
  cases inst.opcode.sampleOperands?
  case none => exact .refl _
  case some operands =>
    refine .same fun texture => ?_
    cases texture
    case none => exact .refl _
    case some texture =>
      refine .ite (.refl _) (.ite (.error nofun) ?_)
      cases operands.sampler
      case none => exact .refl _
      case some position =>
        refine .same fun sampler => ?_
        cases sampler
        case none => exact .error nofun
        case some => exact .ite (.error nofun) (.refl _)

theorem Resources.agrees_scan {fetched : List UInt32} {insts : List Instruction} {i j : Nat} :
    Agrees False (scan p r fetched (insts.zipIdx i)) (scan p r fetched (insts.zipIdx j)) := by
  induction insts generalizing r fetched i j
  case nil => exact .refl _
  case cons inst insts hi =>
    exact .bind agrees_sampleUse fun _ => .same fun _ => hi

variable (h : nop.IsNop)

include h

theorem Resources.agrees_scan_nop {fetched : List UInt32} {i j : Nat} :
    Agrees False (scan p r fetched ((before ++ after).zipIdx i))
      (scan p r fetched ((before ++ nop :: after).zipIdx j)) := by
  induction before generalizing r fetched i j
  case nil =>
    obtain ⟨op, controls, operands, position⟩ := nop
    obtain rfl : op = .nop := h.opcode
    exact agrees_scan
  case cons inst insts hi =>
    exact .bind agrees_sampleUse fun _ => .same fun _ => hi

theorem flatMap_operands_nop :
    (before ++ nop :: after).flatMap (·.operands) = (before ++ after).flatMap (·.operands) := by
  simp [h.operands]

theorem any_operands_nop {P : OperandId → Bool} :
    (before ++ nop :: after).any (·.operands.any P) = (before ++ after).any (·.operands.any P) := by
  simp [h.operands]

theorem Program.writtenTemps_nop {temps : TempTypes} :
    p.writtenTemps d r temps (before ++ nop :: after) =
      p.writtenTemps d r temps (before ++ after) := by
  induction before generalizing temps
  case nil =>
    obtain ⟨op, controls, operands, position⟩ := nop
    obtain rfl : op = .nop := h.opcode
    rfl
  case cons inst insts hi => simp only [List.cons_append, writtenTemps, hi]

variable (hinsts : p.instructions = before ++ after)

include hinsts

theorem Program.temps_nop :
    { p with instructions := before ++ nop :: after }.temps o d r = p.temps o d r := by
  unfold temps
  simp only [writtenTemps_relist, writtenTemps_nop h, flatMap_operands_nop h, hinsts]
  rfl

theorem Program.extent_nop {entries : Signature} {kinds : List RegisterKind} :
    { p with instructions := before ++ nop :: after }.extent o entries kinds =
      p.extent o entries kinds := by
  unfold extent stretches
  simp only [flatMap_operands_nop h, hinsts]
  rfl

theorem Interface.build_nop :
    build d o { p with instructions := before ++ nop :: after } none = build d o p none := by
  unfold build Program.fileSizes
  simp only [Program.extent_nop h hinsts]
  rfl

theorem Resources.agrees_collect :
    Agrees False (collect d p) (collect d { p with instructions := before ++ nop :: after }) := by
  unfold collect
  simp only [scan_relist, hinsts]
  exact .bind (agrees_scan_nop h) fun _ => .refl _

theorem Context.agrees_shader {c : Context} {flow : Flow} (hprogram : c.program = p)
    (hcase : ∀ last ∈ before.getLast?, ∀ next ∈ after.head?,
      ¬(last.opcode.labelsCase ∧ next.opcode = .endSwitch))
    (hflow : ofInstructions p.instructions p.operands = .ok c.flow)
    (hsubs : flow.subroutines =
      c.flow.subroutines.map (Subroutine.moved (shiftFrom before.length)))
    (hmain : flow.mainEnd = shiftFrom before.length c.flow.mainEnd) :
    Agrees False c.shader
      { c with program := { p with instructions := before ++ nop :: after }, flow }.shader := by
  subst hprogram
  let m : Move := ⟨c.program.declarations, before ++ nop :: after, flow, c.index⟩
  have hpadded : Padded c.program.instructions m.instructions before.length :=
    hinsts ▸ padded h hcase
  have hdecls : (c.move m).decls = c.decls := by
    have hprogram : (c.move m).program.instructions = before ++ nop :: after := rfl
    unfold decls depthLayout
    simp only [hprogram, any_operands_nop h, hinsts]
    rfl
  refine .bind (agrees_singleFunctions hpadded hflow hsubs hmain {}) fun _ => ?_
  exact .bind (.of_eq hdecls.symm) fun _ => .refl _

end Collected

theorem Program.lift_eq_ok_of_nop (p : Program) (o : Options) {before after : List Instruction}
    {nop : Instruction} {s : Shader} (hstage : p.stage ≠ .hull) (hflow : p.flow = none)
    (hinsts : p.instructions = before ++ after) (hnop : nop.IsNop)
    (hcase : ∀ last ∈ before.getLast?, ∀ next ∈ after.head?,
      ¬(last.opcode.labelsCase ∧ next.opcode = .endSwitch))
    (h : p.lift o = .ok s) :
    { p with instructions := before ++ nop :: after }.lift o = .ok s := by
  have hstage' : { p with instructions := before ++ nop :: after }.stage ≠ .hull := hstage
  rw [lift_eq hstage] at h
  rw [lift_eq hstage']
  have ⟨_, hin, h⟩ := bind_eq_ok_iff.mp h
  have ⟨flow, hold, h⟩ := bind_eq_ok_iff.mp h
  have hold := (requireFlow_eq_ok_iff hflow).mp hold
  have hplain : nop.opcode.role = .plain := by
    rw [hnop.opcode]
    rfl
  obtain ⟨flow', hnew, hsubs, hmain⟩ := ofInstructions_insert hplain (hinsts ▸ hold)
  have hflow' : { p with instructions := before ++ nop :: after }.flow = none := hflow
  have hnew := (requireFlow_eq_ok_iff hflow').mpr hnew
  refine bind_eq_ok_iff.mpr ⟨_, hin, bind_eq_ok_iff.mpr ⟨flow', hnew, ?_⟩⟩
  simp only [Interface.build_nop hnop hinsts, temps_nop hnop hinsts]
  have ⟨(interface, sizes), hbuild, h⟩ := bind_eq_ok_iff.mp h
  have ⟨_, hnumbers, h⟩ := bind_eq_ok_iff.mp h
  have ⟨resources, hcollect, h⟩ := bind_eq_ok_iff.mp h
  have ⟨temps, htemps, h⟩ := bind_eq_ok_iff.mp h
  have hcollect := ((Resources.agrees_collect hnop hinsts).ok_iff resources).mp hcollect
  refine bind_eq_ok_iff.mpr ⟨_, hbuild, bind_eq_ok_iff.mpr ⟨_, hnumbers, ?_⟩⟩
  refine bind_eq_ok_iff.mpr ⟨resources, hcollect, bind_eq_ok_iff.mpr ⟨temps, htemps, ?_⟩⟩
  exact ((Context.agrees_shader hnop hinsts rfl hcase hold hsubs hmain).ok_iff s).mp h

-- A switch whose last part is empty, in a subroutine.
def switched : Program where
  declarations := [⟨.input 0 none 0 (some .constant), 0, 0⟩, ⟨.output 1 none 0, 0, 0⟩]
  instructions :=
    [⟨.call, .flow, [3], 0⟩, ⟨.ret, .flow, [], 0⟩, ⟨.label, .flow, [3], 0⟩,
      ⟨.beginSwitch, .flow, [0], 0⟩, ⟨.caseLabel, .flow, [2], 0⟩, ⟨.mov, .alu false 0, [1, 0], 0⟩,
      ⟨.breakOut, .flow, [], 0⟩, ⟨.defaultLabel, .flow, [], 0⟩, ⟨.endSwitch, .flow, [], 0⟩,
      ⟨.ret, .flow, [], 0⟩]
  operands :=
    #[{ register := .input, indices := [.imm 0], selection := .select 0 },
      { register := .output, indices := [.imm 0] },
      { register := .immediate32, immediate := some (.words ⟨1, 0, 0, 0⟩ 1) },
      { register := .label, indices := [.imm 0] }]

theorem Program.lift_eq_ok_of_nop_switched :
    ∃ s, switched.lift {} = .ok s ∧
      { switched with
        instructions := switched.instructions.take 5 ++
          (⟨.nop, .flow, [], 0⟩ : Instruction) :: switched.instructions.drop 5 }.lift {} =
        .ok s := by
  obtain ⟨s, h⟩ : ∃ s, switched.lift {} = .ok s := ⟨_, rfl⟩
  refine ⟨s, h, lift_eq_ok_of_nop switched {} (by decide) rfl rfl ⟨rfl, rfl⟩ ?_ h⟩
  decide

end ShaderLift
