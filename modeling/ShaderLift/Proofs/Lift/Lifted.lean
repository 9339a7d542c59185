import ShaderLift.Lift.Shader
import ShaderLift.Proofs.Outcome

/-!
What a lifted program is made from: the context that its functions are written in.
-/

namespace ShaderLift

variable {p : Program} {o : Options} {s : Shader}

open Glsl

namespace Context

def write (c : Context) : Option Phases → Emit Functions
  | some phases => c.phasedFunctions phases
  | none => c.singleFunctions

end Context

-- What went into a lifted program.
structure Program.Lifted (p : Program) (o : Options) (s : Shader) (c : Context)
    (phases : Option Phases) : Prop where
  program   : c.program = p
  options   : c.options = o
  dialect   : c.dialect = o.dialect
  flow      : p.requireFlow = .ok c.flow
  hull      : phases.isSome ↔ p.stage = .hull
  split     : ∀ ps, phases = some ps → Phases.split p = .ok ps
  interface : Interface.build c.dialect o p phases = .ok (c.interface, c.sizes)
  numbers   : o.requireWords (Resources.numbers c.dialect p) = .ok ()
  resources : Resources.collect c.dialect p = .ok c.resources
  temps     : p.temps o c.dialect c.resources = .ok c.temps
  written   : ∃ progress, (c.write phases).run {} = .ok (s.source.functions, progress) ∧
    s.source.preamble = c.preamble progress.extensions
  decls     : c.decls = .ok s.source.decls

theorem Program.exists_lifted_main (h : p.lift o = .ok s) :
    ∃ c phases, p.Lifted o s c phases ∧ c.scope = .main ∧
      s.bindings = { HostBindings.ofDecls s.source.decls with
        attributes := c.interface.attributes, fragOutputs := c.interface.fragOutputs } := by
  unfold lift at h
  have ⟨_, _, h⟩ := bind_eq_ok_iff.mp h
  have ⟨flow, hflow, h⟩ := bind_eq_ok_iff.mp h
  extract_lets rest at h
  have ⟨phases, hhull, hsplit, h⟩ : ∃ phases : Option Phases, (phases.isSome ↔ p.stage = .hull) ∧
      (∀ ps, phases = some ps → Phases.split p = .ok ps) ∧ rest phases = .ok s := by
    split at h
    case isTrue hs =>
      have ⟨phases, hp, h⟩ := bind_eq_ok_iff.mp h
      cases hsplit : Phases.split p <;> rw [hsplit] at hp <;> cases hp
      case ok.refl ps =>
        exact ⟨some ps, by simp [hs], by simp, h⟩
    case isFalse hs => exact ⟨none, by simp [hs], by simp, h⟩
  have ⟨⟨interface, sizes⟩, hbuild, h⟩ := bind_eq_ok_iff.mp h
  have ⟨_, hnumbers, h⟩ := bind_eq_ok_iff.mp h
  have ⟨resources, hcollect, h⟩ := bind_eq_ok_iff.mp h
  have ⟨temps, htemps, h⟩ := bind_eq_ok_iff.mp h
  have ⟨⟨functions, progress⟩, hwrite, h⟩ := bind_eq_ok_iff.mp h
  have ⟨decls, hdecls, h⟩ := bind_eq_ok_iff.mp h
  have hs := Except.ok.inj h
  subst hs
  let c : Context :=
    { program := p, dialect := o.dialect, options := o, flow, interface, sizes, resources, temps }
  refine ⟨c, phases, ?_, rfl, rfl⟩
  exact {
    program := rfl, options := rfl, dialect := rfl, flow := hflow, hull := hhull, split := hsplit,
    interface := hbuild, numbers := hnumbers, resources := hcollect, temps := htemps
    decls := hdecls
    written := ⟨progress, by cases phases <;> exact hwrite, rfl⟩ }

theorem Program.exists_lifted_bindings (h : p.lift o = .ok s) : ∃ c phases, p.Lifted o s c phases ∧
      s.bindings = { HostBindings.ofDecls s.source.decls with
        attributes := c.interface.attributes, fragOutputs := c.interface.fragOutputs } :=
  have ⟨c, phases, l, _, hb⟩ := exists_lifted_main h
  ⟨c, phases, l, hb⟩

theorem Program.exists_lifted (h : p.lift o = .ok s) : ∃ c phases, p.Lifted o s c phases :=
  have ⟨c, phases, l, _⟩ := exists_lifted_bindings h
  ⟨c, phases, l⟩

end ShaderLift
