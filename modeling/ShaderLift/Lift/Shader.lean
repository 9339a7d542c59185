import ShaderLift.Lift.Body
import ShaderLift.Lift.Header

/-!
Lifting a whole program to the text of a shader.
-/

namespace ShaderLift

open Glsl

structure Shader where
  stage    : Stage
  version  : Version
  source   : Source
  bindings : HostBindings
  deriving Repr

namespace Shader

def text (s : Shader) : String :=
  s.source.text

def phaseTexts? (s : Shader) : Option (Triple String) :=
  match s.source.functions with
  | .phased controlPoint forks joins _ =>
    some ⟨phasesText controlPoint, phasesText forks, phasesText joins⟩
  | .single _ _ _ _ => none

end Shader

namespace Context

def call (function : String) (args : List Expr) : Line :=
  .stmt (.eval (.call function args))

def subroutines (c : Context) : List Subroutine → Emit (List Function)
  | [] => return []
  | s :: ss => do
    let body ← { c with scope := .subroutine }.body (s.start + 1) s.stop
    return ⟨"void " ++ subroutineName s.label ++ "()", body⟩ :: (← c.subroutines ss)

def prologue (c : Context) : List Line :=
  c.interface.load ++ c.resources.immediatesInit c.dialect

def singleFunctions (c : Context) : Emit Functions := do
  let subroutines ← c.subroutines c.flow.subroutines
  let body ← c.body 0 c.flow.mainEnd
  let epilogue := if c.flushesAtReturn then [Line.stmt .flush] else []
  let store : Function := ⟨"void store_outputs()", c.interface.store⟩
  return .single
    (if c.stage = .compute then none else some store)
    (c.flow.subroutines.map (·.label))
    ⟨"void main()", c.prologue ++ body ++ epilogue⟩
    subroutines

-- Without a control-point phase the input points are passed through.
def passThrough (c : Context) : List Line :=
  (List.range (min c.sizes.outputs c.sizes.inputs).toNat).map fun r =>
    let register := UInt32.ofNat r
    let point := Expr.binary .add
      (.binary .mul (.builtin "InvocationID") (.number c.sizes.inputs)) (.number register)
    .stmt (.assign (fileRegister .outputs register) (.index (.var (.file .inputPoints)) point))

def controlPointFunctions (c : Context) (phase : Option Phase) : Emit (List Function) := do
  let driver (lines : List Line) : Function :=
    ⟨"void hs_control_point_phase()", lines ++ c.interface.store⟩
  match phase with
  | none => return [driver c.passThrough]
  | some phase =>
    let body ← { c with scope := .controlPoint }.body phase.start phase.stop
    return [⟨"void hs_cp_main()", body⟩, driver [call "hs_cp_main" []]]

def phaseName (kind : String) (k : Nat) : String :=
  "hs_" ++ kind ++ "_phase" ++ toString k

def phaseFunctions (c : Context) (kind : String) : (k : Nat) → List Phase → Emit (List Function)
  | _, [] => return []
  | k, phase :: phases => do
    let body ← c.body phase.start phase.stop
    return ⟨"void " ++ phaseName kind k ++ "(int phase_instance)", body⟩ ::
      (← c.phaseFunctions kind (k + 1) phases)

def runPhase (kind : String) (phase : Phase) (k : Nat) : List Line :=
  if phase.instances ≤ 1 then [call (phaseName kind k) [.int 0]]
  else block (.times phase.instances) [call (phaseName kind k) [.var .loopIndex]]

-- The functions of phases of one kind, and the one that runs them all and `after` behind them.
def patchFunctions (c : Context) (kind : String) (phases : List Phase) (after : List Line) :
    Emit (List Function) := do
  let functions ← c.phaseFunctions kind 0 phases
  let runs := phases.zipIdx.flatMap fun (phase, k) => runPhase kind phase k
  return functions ++ [⟨"void hs_" ++ kind ++ "_phases()", runs ++ after⟩]

-- The first invocation of a hull shader runs the phases of the patch when all are done with the
-- control points.
def hullMain (c : Context) : Function :=
  let patchPhases := c.interface.pointLoad ++ [call "hs_fork_phases" [], call "hs_join_phases" []]
  ⟨"void main()",
    c.prologue ++ [call "hs_control_point_phase" [], call "barrier" []] ++
      block (.when (.binary .eq (.builtin "InvocationID") (.int 0))) patchPhases⟩

def phasedFunctions (c : Context) (phases : Phases) : Emit Functions := do
  let controlPoint ← c.controlPointFunctions phases.controlPoint
  let forks ← { c with scope := .fork }.patchFunctions "fork" phases.forks []
  let joins ← { c with scope := .join }.patchFunctions "join" phases.joins c.interface.patchStore
  return .phased controlPoint forks joins c.hullMain

end Context

def Stage.requireIn (d : Dialect) : Stage → Except LiftError Unit
  | geometry => d.require .geometryShaders none
  | hull => d.require .hullShaders none
  | domain => d.require .domainShaders none
  | compute => d.require .computeShaders none
  | vertex | pixel => return

namespace Program

-- The block structure of a program, worked out if it has not been yet.
def requireFlow (p : Program) : Except LiftError Flow :=
  match p.flow with
  | some flow => .ok flow
  | none => (Flow.ofInstructions p.instructions p.operands).mapError .unbalanced

def lift (p : Program) (o : Options) : Except LiftError Shader := do
  let d := o.dialect
  p.stage.requireIn d
  let flow ← p.requireFlow
  let phases ← if p.stage = .hull then some <$> Phases.split p else pure none
  let (interface, sizes) ← Interface.build d o p phases
  o.requireWords (Resources.numbers d p)
  let resources ← Resources.collect d p
  let temps ← p.temps o d resources
  let c : Context :=
    { program := p, dialect := d, options := o, flow, interface, sizes, resources, temps }
  let write : Emit Functions :=
    match phases with
    | some phases => c.phasedFunctions phases
    | none => c.singleFunctions
  let (functions, progress) ← write.run {}
  let decls ← c.decls
  return {
    stage := p.stage
    version := d.version
    source := ⟨c.preamble progress.extensions, decls, functions⟩
    bindings :=
      { HostBindings.ofDecls decls with
        attributes := interface.attributes
        fragOutputs := interface.fragOutputs } }

end Program

end ShaderLift
