import ShaderLift.Proofs.Retarget.Resources

/-!
The interface of a stage under more capabilities: its variables keep their places, and those that
had been integers stay integers.
-/

namespace ShaderLift

open Glsl

-- The same choices for another dialect.
def Options.retarget (o : Options) (version : Version) (rules : Option Dialect) : Options :=
  { o with version, rules }

theorem Interface.varyings_append (i j : Interface) :
    (i ++ j).varyings = i.varyings ++ j.varyings :=
  rfl

-- Which components of which register a variable fills.
def Varying.place (v : Varying) : UInt32 × WriteMask :=
  (v.register, v.mask)

-- The same places are filled; the types of what fills them may differ.
def Interface.RetargetsTo (i i' : Interface) : Prop :=
  i.varyings.map Varying.place = i'.varyings.map Varying.place

theorem Interface.RetargetsTo.append {i i' j j' : Interface} (hi : i.RetargetsTo i')
    (hj : j.RetargetsTo j') : (i ++ j).RetargetsTo (i' ++ j') := by
  rw [RetargetsTo, varyings_append, varyings_append, List.map_append, List.map_append, hi, hj]

theorem Interface.RetargetsTo.exists_varying {i i' : Interface} (h : i.RetargetsTo i')
    {register : UInt32} {component : Nat} {v : Varying}
    (hv : i.varying? register component = some v) :
    ∃ v', i'.varying? register component = some v' := by
  have find?_eq (i : Interface) : (i.varying? register component).map Varying.place =
      (i.varyings.map Varying.place).find? fun (r, mask) =>
        r = register && mask.contains component := by
    rw [List.find?_map]
    rfl
  have hkey := find?_eq i
  rw [hv, h, ← find?_eq i'] at hkey
  have ⟨v', hv', _⟩ := Option.map_eq_some_iff.mp hkey.symm
  exact ⟨v', hv'⟩

namespace Border

variable {b : Border} {version : Version} {rules : Option Dialect} {clip : Nat} {e : SignatureEntry}

def retarget (b : Border) (version : Version) (rules : Option Dialect) : Border :=
  let options := b.options.retarget version rules
  { b with options, dialect := options.dialect }

theorem stage_retarget : (b.retarget version rules).stage = b.stage :=
  rfl

section Within

variable (h : b.dialect.Within (b.retarget version rules).dialect)

include h

theorem allows_require {f : Feature} :
    Allows (b.require f) ((b.retarget version rules).require f) :=
  h.allows_require

theorem varyingType_ne_float (ht : b.varyingType e ≠ .float) :
    (b.retarget version rules).varyingType e ≠ .float := by
  unfold varyingType at ht
  split at ht
  case isFalse => exact absurd rfl ht
  case isTrue hio =>
    have hio : (b.retarget version rules).dialect.has .inOutKeywords := h _ hio
    rw [varyingType, if_pos hio]
    generalize ValueType.ofComponentType e.componentType = t at ht
    cases t
    case float => exact absurd rfl ht
    case int => exact ValueType.noConfusion
    case uint =>
      simp only [ValueType.lower]
      split <;> simp

theorem allows_interpolation :
    Allows (b.interpolation e (b.varyingType e))
      ((b.retarget version rules).interpolation e ((b.retarget version rules).varyingType e)) := by
  unfold interpolation
  by_cases ht' : (b.retarget version rules).varyingType e ≠ .float
  case pos =>
    rw [if_pos ht']
    exact fun _ _ => ⟨_, rfl, trivial⟩
  case neg =>
    rw [if_neg ht', if_neg fun ht => ht' (varyingType_ne_float h ht)]
    cases e.interpolation
    case none => exact .pure trivial
    case some mode => cases mode <;>
      first
      | exact .pure trivial
      | exact .bind (allows_require h) fun _ _ _ => .pure trivial

theorem carries_vertexInput :
    Carries Interface.RetargetsTo (b.vertexInput e) ((b.retarget version rules).vertexInput e) := by
  unfold vertexInput
  dsimp only
  cases e.systemValue
  case vertexId | instanceId => exact .bind (allows_require h) fun _ _ _ => .pure rfl
  all_goals exact .pure rfl

theorem carries_pixelInput :
    Carries Interface.RetargetsTo (b.pixelInput clip e)
      ((b.retarget version rules).pixelInput clip e) := by
  unfold pixelInput
  dsimp only
  cases e.systemValue
  case position | isFrontFace => exact .pure rfl
  case sampleIndex | primitiveId | renderTargetArrayIndex | viewportArrayIndex | clipDistance
      | cullDistance =>
    exact .bind (allows_require h) fun _ _ _ => .pure rfl
  all_goals exact .bind (allows_interpolation h) fun _ _ _ => .pure rfl

theorem carries_arrayInput :
    Carries Interface.RetargetsTo (b.arrayInput clip e)
      ((b.retarget version rules).arrayInput clip e) := by
  unfold arrayInput
  dsimp only
  cases e.systemValue
  case clipDistance =>
    exact .ite (.bind (allows_require h) fun _ _ _ => .pure rfl) (.pure rfl)
  case cullDistance => exact .bind (allows_require h) fun _ _ _ => .pure rfl
  all_goals exact .pure rfl

theorem carries_input :
    Carries Interface.RetargetsTo (b.input clip e) ((b.retarget version rules).input clip e) := by
  rw [input, input, stage_retarget]
  cases b.stage
  case vertex => exact carries_vertexInput h
  case pixel => exact carries_pixelInput h
  case compute => exact .pure rfl
  all_goals exact carries_arrayInput h

theorem carries_hullOutput :
    Carries Interface.RetargetsTo (b.hullOutput e) ((b.retarget version rules).hullOutput e) := by
  unfold hullOutput
  dsimp only
  cases e.systemValue
  case clipDistance | cullDistance => exact .bind (allows_require h) fun _ _ _ => .pure rfl
  all_goals exact .pure rfl

theorem carries_vertexOutput :
    Carries Interface.RetargetsTo (b.vertexOutput clip e)
      ((b.retarget version rules).vertexOutput clip e) := by
  unfold vertexOutput
  dsimp only
  cases e.systemValue
  case position => exact .pure rfl
  case clipDistance | cullDistance => exact .bind (allows_require h) fun _ _ _ => .pure rfl
  case renderTargetArrayIndex | viewportArrayIndex =>
    exact .ite (.pure rfl) (.bind (allows_require h) fun _ _ _ => .pure rfl)
  case' primitiveId => refine .ite (.pure rfl) ?_
  all_goals
    refine .ite (.pure rfl) (.ite ?_ (.pure rfl))
    exact .bind (allows_require h) fun _ _ _ => .pure rfl

theorem carries_output :
    Carries Interface.RetargetsTo (b.output clip e) ((b.retarget version rules).output clip e) := by
  have varyings_pixelOutput (b : Border) : (b.pixelOutput e).varyings = [] := by
    unfold pixelOutput
    dsimp only
    split <;> rfl
  rw [output, output, stage_retarget]
  cases b.stage
  case pixel => exact .pure (by simp only [Interface.RetargetsTo, varyings_pixelOutput])
  case hull => exact carries_hullOutput h
  case compute => exact .pure rfl
  all_goals exact carries_vertexOutput h

end Within

theorem carries_entries {one one' : Nat → SignatureEntry → Except LiftError Interface}
    (h : ∀ clip e, Carries Interface.RetargetsTo (one clip e) (one' clip e)) {es : Signature} :
    Carries Interface.RetargetsTo (entries one clip es) (entries one' clip es) := by
  induction es generalizing clip
  case nil => exact .pure rfl
  case cons e es hi =>
    refine .ite hi (.bind (h clip e) fun _ _ hpart => ?_)
    exact .bind hi fun _ _ hrest => .pure (hpart.append hrest)

theorem varyings_patch : (b.patch e).varyings = [] := by
  unfold patch
  extract_lets isHull copy
  have varyings_copy (terminal : Terminal) : (copy terminal).varyings = [] := by
    simp only [copy]
    split <;> rfl
  split
  case isTrue => exact varyings_copy _
  case isFalse =>
    split
    case isTrue => rfl
    case isFalse => exact varyings_copy _

end Border

theorem Interface.carries_build {o : Options} {version : Version} {rules : Option Dialect}
    (h : o.dialect.Within (o.retarget version rules).dialect) {p : Program}
    {phases : Option Phases} :
    Carries (fun a b => a.1.RetargetsTo b.1 ∧ a.2 = b.2) (build o.dialect o p phases)
      (build (o.retarget version rules).dialect (o.retarget version rules) p phases) := by
  refine .same fun inputs => .same fun outputs => .same fun patch => .same fun sizes => ?_
  refine .bind (Border.carries_entries fun _ _ => Border.carries_input h) fun i i' hi => ?_
  refine .bind (Border.carries_entries fun _ _ => Border.carries_output h) fun j j' hj => ?_
  have patches (b : Border) (i : Interface) :
      (patch.foldl (fun i e => i ++ b.patch e) i).varyings = i.varyings := by
    induction patch generalizing i
    case nil => rfl
    case cons e es hi =>
      rw [List.foldl_cons, hi, varyings_append, Border.varyings_patch, List.append_nil]
  refine .same fun _ => .pure ⟨(hi.append hj).append ?_, rfl⟩
  simp only [RetargetsTo, patches]

end ShaderLift
