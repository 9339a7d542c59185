import ShaderLift.Proofs.Effects.Flushes
import ShaderLift.Proofs.Glsl.Marks

/-!
How the functions of a shader are put together: the bodies of spans of instructions are written one
after the other, each with what is carried along from the one before it, and what stands around them
neither accesses single texels, nor declares names, nor labels parts of a `switch`.
-/

namespace ShaderLift

open Glsl

namespace Glsl

variable {line : Line} {lines lines' : List Line} {f : String} {args : List Expr}

structure Line.Inert (line : Line) : Prop where
  calls    : ∀ call ∈ line.calls, AccessFree call.1
  declares : line.declared = []

def Inert (lines : List Line) : Prop :=
  ∀ line ∈ lines, line.Inert

-- Flow control, which sets no variables either.
structure Line.Steers (line : Line) : Prop where
  inert : line.Inert
  sets  : ∀ name, line.assignments name = []

def Steers (lines : List Line) : Prop :=
  ∀ line ∈ lines, line.Steers

theorem Line.Calls.inert (h : line.Calls .least) : line.Inert :=
  ⟨fun call hc => (h.said call hc).right, h.declared id⟩

namespace Steers

theorem inert (h : Steers lines) : Inert lines :=
  fun line hl => (h line hl).inert

theorem nil : Steers [] :=
  List.forall_mem_nil _

theorem single (h : line.Steers) : Steers [line] :=
  List.forall_mem_singleton.mpr h

theorem append (h : Steers lines) (h' : Steers lines') : Steers (lines ++ lines') :=
  List.forall_mem_append.mpr ⟨h, h'⟩

theorem call (hf : AccessFree f) (ha : ∀ e ∈ args, e.calls = []) :
    Steers [Context.call f args] := by
  have hcalls : Expr.callsOf args = [] := by
    rw [Expr.callsOf_eq]
    exact List.flatMap_eq_nil_iff.mpr ha
  refine single ⟨⟨?_, rfl⟩, fun _ => rfl⟩
  simpa [Context.call, Line.stmt, Line.calls, Stmt.calls, Expr.calls, hcalls] using hf

theorem jump {j : Jump} : Steers [.stmt (.jump j)] := by
  have hname {label : UInt32} : AccessFree (subroutineName label) :=
    AccessFree.append (by decide)
  refine single ⟨⟨?_, rfl⟩, fun _ => rfl⟩
  cases j <;> simp +decide [Line.stmt, Line.calls, Stmt.calls, Jump.calls, hname]

theorem jumpIf {test : Expr} {j : Jump} (ht : test.Calls .least) :
    Steers [.stmt (.jumpIf test j)] := by
  refine single ⟨⟨?_, rfl⟩, fun _ => rfl⟩
  have hj := (jump (j := j) _ List.mem_cons_self).inert.calls
  simp only [Line.stmt, Line.calls, Stmt.calls, List.flatMap_singleton] at hj ⊢
  exact List.forall_mem_append.mpr ⟨fun call hc => (ht call hc).right, hj⟩

theorem flush : Steers [.stmt .flush] :=
  single ⟨⟨by decide, rfl⟩, fun _ => rfl⟩

end Steers

-- Lines that no instruction is lifted to.
structure Line.Frames (line : Line) : Prop where
  inert      : line.Inert
  unlabelled : ∀ label, line ≠ .caseLabel label

def Framing (lines : List Line) : Prop :=
  ∀ line ∈ lines, line.Frames

namespace Framing

theorem nil : Framing [] :=
  List.forall_mem_nil _

theorem append (h : Framing lines) (h' : Framing lines') : Framing (lines ++ lines') :=
  List.forall_mem_append.mpr ⟨h, h'⟩

theorem of_calls (h : ∀ line ∈ lines, line.Calls .least) : Framing lines := by
  refine fun line hl => ⟨(h line hl).inert, ?_⟩
  rintro label rfl
  exact (h _ hl).quiet Vocabulary.quiet_least

theorem block {head : Head} (hh : head.Calls .least) (h : Framing lines) :
    Framing (Glsl.block head lines) :=
  have hhead : (Line.enter head).Calls .least := hh
  append (List.forall_mem_cons.mpr ⟨⟨hhead.inert, nofun⟩, h⟩)
    (List.forall_mem_singleton.mpr ⟨⟨List.forall_mem_nil _, rfl⟩, nofun⟩)

theorem call (hf : AccessFree f) (ha : ∀ e ∈ args, e.calls = []) :
    Framing [Context.call f args] :=
  List.forall_mem_singleton.mpr ⟨(Steers.call hf ha).inert _ List.mem_cons_self, nofun⟩

theorem inert (h : Framing lines) : Inert lines :=
  fun line hl => (h line hl).inert

theorem not_mem_marks (h : Framing lines) : .label ∉ marks lines := by
  intro hm
  obtain ⟨line, hl, hmark⟩ := List.mem_filterMap.mp hm
  cases line
  case caseLabel label => exact (h _ hl).unlabelled label rfl
  all_goals simp [Line.mark?] at hmark

end Framing

end Glsl

theorem Calculated.calls {V : Vocabulary} {silent : Bool} {lines : List Line}
    (h : Calculated V silent lines) : ∀ line ∈ lines, line.Calls V := by
  have hstmts {ss : List Stmt} (hs : ∀ s ∈ ss, s.Calls V) :
      ∀ line ∈ ss.map Line.stmt, line.Calls V :=
    List.forall_mem_map.mpr fun s hm => Line.calls_stmt.mpr (hs s hm)
  cases h
  case nothing => exact List.forall_mem_nil _
  case flat hc => exact hstmts hc
  case block hc =>
    refine List.forall_mem_append.mpr ⟨?_, List.forall_mem_singleton.mpr trivial⟩
    exact List.forall_mem_cons.mpr ⟨trivial, hstmts hc⟩

namespace Context

variable {c : Context} {inst : Instruction} {isLast : Bool} {lines : List Line}
variable {s s' t : Progress}

-- What instructions say that are not for flow control is in their vocabulary.
def Says (c : Context) (inst : Instruction) (lines : List Line) : Prop :=
  Steers lines ∨ ∀ line ∈ lines, line.Calls (c.vocabulary inst)

theorem steers_emitVertex (he : inst.opcode.Emits) : Gives Steers (c.emitVertex inst) := by
  have sent (plain onStream : String) (stream : UInt32) (hp : AccessFree plain)
      (hs : AccessFree onStream) : Steers [.stmt (.eval (if stream = 0 then .call plain []
        else .call onStream [.number stream]))] := by
    split
    case isTrue => exact .call hp (List.forall_mem_nil _)
    case isFalse => exact .call hs (List.forall_mem_singleton.mpr rfl)
  have emit (stream : UInt32) :=
    Steers.flush.append (sent "EmitVertex" "EmitStreamVertex" stream (by decide) (by decide))
  have cut (stream : UInt32) :=
    sent "EndPrimitive" "EndStreamPrimitive" stream (by decide) (by decide)
  have rest {stream : UInt32} {lines : List Line} (h : Steers lines) : Gives Steers (do
      if stream ≠ 0 then
        c.require .multipleStreams
      return lines) :=
    .ite (fun _ => .skip fun _ => .pure h) fun _ => .pure h
  refine .ite (fun _ => .error) fun _ => ?_
  generalize inst.opcode = op at he
  cases he
  case emit | emitStream => exact .skip fun stream => rest (emit stream)
  case cut | cutStream => exact .skip fun stream => rest (cut stream)
  case emitThenCut | emitThenCutStream =>
    exact .skip fun stream => rest ((emit stream).append (cut stream))

theorem accessFree_caseLabel :
    Gives (fun label => ∀ call ∈ (Line.caseLabel label).calls, AccessFree call.1)
      (c.caseLabel inst) := by
  refine .skip fun _ => .skip fun op => ?_
  cases op.immediate
  case none => exact .error
  case some immediate =>
    cases immediate
    case words => exact .pure fun call hc => ((calls_intLiteral (V := .least)) call hc).right
    case longs => exact .error

theorem steers_startCase {label : CaseLabel}
    (hl : ∀ call ∈ (Line.caseLabel label).calls, AccessFree call.1) :
    Emit.Gives Steers (startCase label) := by
  refine .bind Emit.gives_get fun s _ => ?_
  refine .bind (Emit.gives_modify fun _ => Nat.le_refl _) fun _ _ => .pure ?_
  refine .append ?_ (.single ⟨⟨hl, rfl⟩, fun _ => rfl⟩)
  split
  case isTrue => exact .single ⟨⟨by decide, rfl⟩, fun _ => rfl⟩
  case isFalse => exact .nil

theorem steers_endSwitch : Emit.Gives Steers c.endSwitch := by
  rw [endSwitch_eq]
  refine .bind Emit.gives_get fun s _ => ?_
  refine .bind (Emit.gives_modify fun _ => Nat.le_refl _) fun _ _ => .pure ?_
  refine .append (.append ?_ ?_) (.single ⟨⟨by decide, rfl⟩, fun _ => rfl⟩)
  case refine_1 =>
    split
    case isTrue => exact .jump
    case isFalse => exact .nil
  case refine_2 =>
    split
    case isTrue => exact .single ⟨⟨by decide, rfl⟩, fun _ => rfl⟩
    case isFalse => exact .nil

theorem says_lines : Emit.Gives (c.Says inst) (c.lines inst isLast) := by
  have steers {x : Emit (List Line)} (h : Emit.Gives Steers x) : Emit.Gives (c.Says inst) x :=
    .mono h fun _ => .inl
  have jumpIf {j : Jump} :
      Gives Steers (do return [Line.stmt (.jumpIf (← c.condition inst) j)]) :=
    .bind calls_condition fun _ ht => .pure (.jumpIf ht)
  have head {h : Head} (hh : h.Calls .least) : Steers [.enter h] :=
    have hline : (Line.enter h).Calls .least := hh
    .single ⟨hline.inert, fun _ => rfl⟩
  by_cases hd : inst.opcode.Directs
  case neg =>
    rw [lines_of_not_directs hd]
    exact .mono calculated_instruction fun _ h => .inr h.calls
  unfold Context.lines
  generalize hop : inst.opcode = op at hd
  cases hd
  case nop | customData | hsControlPointPhase | hsForkPhase | hsJoinPhase | hsDecls =>
    exact steers (.pure .nil)
  case orElse | endIf | endLoop => exact steers (.pure (.single ⟨⟨by decide, rfl⟩, fun _ => rfl⟩))
  case beginLoop => exact steers (.pure (head trivial))
  case beginIf => exact steers (.bind (.lift calls_condition) fun _ he => .pure (head he))
  case beginSwitch =>
    refine steers (.skip fun _ => .skip fun _ => .bind (.lift (calls_source .least)) fun _ he => ?_)
    exact .bind (Emit.gives_modify fun _ => Nat.le_refl _) fun _ _ => .pure (head he)
  case caseLabel =>
    exact steers (.bind (.lift accessFree_caseLabel) fun _ hl => steers_startCase hl)
  case defaultLabel => exact steers (steers_startCase (List.forall_mem_nil _))
  case endSwitch => exact steers steers_endSwitch
  case breakOut | continueLoop => exact steers (.pure .jump)
  case ret =>
    refine steers (.pure ?_)
    split
    case isTrue => exact .nil
    case isFalse => exact .jump
  case retIf | breakIf | continueIf => exact steers (.lift jumpIf)
  case discard => exact steers (.ite (fun _ => .fail) fun _ => .lift jumpIf)
  case call => exact steers (.skip fun _ => .pure .jump)
  case callIf => exact steers (.skip fun _ => .lift jumpIf)
  case label | abort | debugBreak => exact .fail
  case emission he =>
    have hlines := steers_emitVertex (c := c) (hop ▸ he)
    cases he <;> exact steers (.lift hlines)
  case sync =>
    exact .lift (.mono (calculated_synchronize hop) fun _ h => .inr h.calls)

theorem says_step : Emit.Gives (c.Says inst) (c.step inst isLast) :=
  .skip fun _ => says_lines

-- What holds of each instruction holds of a whole body, if it goes through append.
theorem of_range {R : Progress → Progress → List Line → Prop} (hnil : ∀ s, R s s [])
    (happend : ∀ s t s' lines lines', R s t lines → R t s' lines' → R s s' (lines ++ lines'))
    (hstep : ∀ i inst isLast s s' lines, c.program.instructions[i]? = some inst →
      ((c.focus i inst).step inst isLast).run s = .ok (lines, s') → R s s' lines)
    {n i depth : Nat} (h : (c.range n i depth).run s = .ok (lines, s')) : R s s' lines := by
  induction n generalizing i depth s lines
  case zero =>
    have ⟨hl, hs⟩ := Emit.run_pure_eq_ok.mp h
    exact hl ▸ hs ▸ hnil s
  case succ n hi =>
    simp only [range] at h
    split at h
    case h_2 => cases h
    case h_1 inst hinst =>
      obtain ⟨first, t, hfirst, h⟩ := Emit.run_bind_eq_ok.mp h
      obtain ⟨rest, t', hrest, h⟩ := Emit.run_bind_eq_ok.mp h
      obtain ⟨hl, hs⟩ := Emit.run_pure_eq_ok.mp h
      subst hl hs
      exact happend _ _ _ _ _ (hstep i inst _ _ _ _ hinst hfirst) (hi hrest)

-- Functions that are written from one state to another, and the spans that their bodies are of.
inductive Assembled (c : Context) : Progress → Progress → List Function → List Flow.Span → Prop
  | nil {s : Progress} : Assembled c s s [] []
  | framing {s s' : Progress} {f fs rs} (frames : Framing f.body) (rest : Assembled c s s' fs rs) :
      Assembled c s s' (f :: fs) rs
  | body {s t s' : Progress} {scope before lines after f fs r rs}
      (split : f.body = before ++ lines ++ after) (front : Framing before) (back : Framing after)
      (ends : (marks after).head? ≠ some .closing)
      (run : ({ c with scope }.body r.first r.stop).run s = .ok (lines, t))
      (rest : Assembled c t s' fs rs) : Assembled c s s' (f :: fs) (r :: rs)

namespace Assembled

variable {fs gs : List Function} {rs qs : List Flow.Span}

theorem append (h : c.Assembled s t fs rs) (h' : c.Assembled t s' gs qs) :
    c.Assembled s s' (fs ++ gs) (rs ++ qs) := by
  induction h
  case nil => exact h'
  case framing hf _ hi => exact .framing hf (hi h')
  case body hs hb ha he hr _ hi => exact .body hs hb ha he hr (hi h')

theorem single {f : Function} {scope : Scope} {first stop : Nat}
    (h : ({ c with scope }.body first stop).run s = .ok (f.body, t))
    (rest : c.Assembled t s' fs rs) : c.Assembled s s' (f :: fs) (⟨first, stop⟩ :: rs) :=
  have hsplit : f.body = [] ++ f.body ++ [] := by simp
  .body hsplit .nil .nil (by decide) h rest

end Assembled

-- The instructions of each function of a shader.
def spans (c : Context) : Option Phases → List Flow.Span
  | none => c.flow.bodies
  | some phases => phases.toList.map Phase.span

section Functions

variable {fs : List Function} {kind : String}

theorem assembled_subroutines {subs : List Subroutine}
    (h : (c.subroutines subs).run s = .ok (fs, s')) :
    c.Assembled s s' fs (subs.map Subroutine.body) := by
  induction subs generalizing s fs
  case nil =>
    obtain ⟨hfs, hs⟩ := Emit.run_pure_eq_ok.mp h
    subst hfs hs
    exact .nil
  case cons hi =>
    obtain ⟨body, t, hbody, h⟩ := Emit.run_bind_eq_ok.mp h
    obtain ⟨rest, t', hrest, h⟩ := Emit.run_bind_eq_ok.mp h
    obtain ⟨hfs, hs⟩ := Emit.run_pure_eq_ok.mp h
    subst hfs hs
    exact .single hbody (hi hrest)

theorem assembled_phaseFunctions {k : Nat} {scope : Scope} {phases : List Phase}
    (h : ({ c with scope }.phaseFunctions kind k phases).run s = .ok (fs, s')) :
    c.Assembled s s' fs (phases.map Phase.span) := by
  induction phases generalizing k s fs
  case nil =>
    obtain ⟨hfs, hs⟩ := Emit.run_pure_eq_ok.mp h
    subst hfs hs
    exact .nil
  case cons hi =>
    obtain ⟨body, t, hbody, h⟩ := Emit.run_bind_eq_ok.mp h
    obtain ⟨rest, t', hrest, h⟩ := Emit.run_bind_eq_ok.mp h
    obtain ⟨hfs, hs⟩ := Emit.run_pure_eq_ok.mp h
    subst hfs hs
    exact .single hbody (hi hrest)

theorem framing_runPhase {phase : Phase} {k : Nat} : Framing (runPhase kind phase k) := by
  have hname : AccessFree (phaseName kind k) :=
    ((AccessFree.append (f := "hs_") (by decide)).append).append
  have hcall {e : Expr} (he : e.calls = []) : Framing [call (phaseName kind k) [e]] :=
    .call hname (List.forall_mem_singleton.mpr he)
  unfold runPhase
  split
  case isTrue => exact hcall rfl
  case isFalse => exact .block trivial (hcall rfl)

theorem assembled_patchFunctions {scope : Scope} {phases : List Phase} {after : List Line}
    (ha : Framing after)
    (h : ({ c with scope }.patchFunctions kind phases after).run s = .ok (fs, s')) :
    c.Assembled s s' fs (phases.map Phase.span) := by
  obtain ⟨gs, t, hgs, h⟩ := Emit.run_bind_eq_ok.mp h
  obtain ⟨hfs, hs⟩ := Emit.run_pure_eq_ok.mp h
  subst hfs hs
  have hruns : Framing (phases.zipIdx.flatMap fun x => runPhase kind x.1 x.2) :=
    List.forall_mem_flatMap.mpr fun _ _ => framing_runPhase
  have hdriver := Assembled.framing (c := c) (s := t) (f := ⟨"void hs_" ++ kind ++ "_phases()", _⟩)
    (hruns.append ha) .nil
  simpa using (assembled_phaseFunctions hgs).append hdriver

variable (hi : c.interface.Moves)

include hi

theorem assembled_controlPointFunctions {phase? : Option Phase}
    (h : (c.controlPointFunctions phase?).run s = .ok (fs, s')) :
    c.Assembled s s' fs (phase?.toList.map Phase.span) := by
  have hstore : Framing c.interface.store := .of_calls hi.store.calls
  cases phase?
  case none =>
    obtain ⟨hfs, hs⟩ := Emit.run_pure_eq_ok.mp h
    subst hfs hs
    have hpass : Framing c.passThrough :=
      .of_calls (List.forall_mem_map.mpr fun _ _ => Line.calls_stmt.mpr (by simp [fileRegister]))
    exact .framing (hpass.append hstore) .nil
  case some phase =>
    obtain ⟨body, t, hbody, h⟩ := Emit.run_bind_eq_ok.mp h
    obtain ⟨hfs, hs⟩ := Emit.run_pure_eq_ok.mp h
    subst hfs hs
    have hcall : Framing [call "hs_cp_main" []] := .call (by decide) (List.forall_mem_nil _)
    exact .single hbody (.framing (hcall.append hstore) .nil)

theorem framing_hullMain : Framing c.hullMain.body := by
  have hcall {f : String} (hf : AccessFree f) : Framing [call f []] :=
    .call hf (List.forall_mem_nil _)
  have hphases : Framing (c.interface.pointLoad ++
      ([call "hs_fork_phases" []] ++ [call "hs_join_phases" []])) :=
    (Framing.of_calls hi.pointLoad.calls).append ((hcall (by decide)).append (hcall (by decide)))
  have hsync : Framing ([call "hs_control_point_phase" []] ++ [call "barrier" []]) :=
    (hcall (by decide)).append (hcall (by decide))
  refine ((Framing.of_calls (calls_prologue hi)).append hsync).append (.block ?_ hphases)
  simp [Head.Calls]

-- Main is written after its subroutines, but stands in front of them.
theorem exists_assembled_of_singleFunctions {fs : Functions}
    (h : c.singleFunctions.run s = .ok (fs, s')) :
    ∃ gs rs, c.Assembled s s' gs rs ∧ gs.Perm fs.toList ∧ rs.Perm c.flow.bodies := by
  obtain ⟨subs, t, hsubs, h⟩ := Emit.run_bind_eq_ok.mp h
  obtain ⟨body, t', hbody, h⟩ := Emit.run_bind_eq_ok.mp h
  obtain ⟨hfs, hs⟩ := Emit.run_pure_eq_ok.mp h
  subst hfs hs
  have hmain : c.Assembled t t' [⟨"void main()", c.prologue ++ body ++ c.epilogue⟩]
      [⟨0, c.flow.mainEnd⟩] := by
    have hflush : Framing c.epilogue ∧ (marks c.epilogue).head? ≠ some .closing := by
      unfold epilogue
      split
      case isTrue =>
        exact ⟨fun line hl => ⟨Steers.flush.inert line hl, List.mem_singleton.mp hl ▸ nofun⟩,
          by decide⟩
      case isFalse => exact ⟨.nil, by decide⟩
    have hbody : ({ c with scope := c.scope }.body 0 c.flow.mainEnd).run t = .ok (body, t') := hbody
    exact .body rfl (.of_calls (calls_prologue hi)) hflush.left hflush.right hbody .nil
  have hwritten := (assembled_subroutines hsubs).append hmain
  have hbodies : List.Perm (c.flow.subroutines.map Subroutine.body ++ [⟨0, c.flow.mainEnd⟩])
      c.flow.bodies := List.perm_append_singleton _ _
  by_cases hcompute : c.stage = .compute
  case pos =>
    refine ⟨_, _, hwritten, ?_, hbodies⟩
    simp only [Functions.toList, if_pos hcompute]
    exact List.perm_append_singleton _ _
  case neg =>
    have hstore : Framing c.interface.store := .of_calls hi.store.calls
    refine ⟨_, _, .framing (f := ⟨"void store_outputs()", c.interface.store⟩) hstore hwritten, ?_,
      hbodies⟩
    simp only [Functions.toList, if_neg hcompute]
    exact (List.perm_append_singleton _ _).cons _

theorem exists_assembled_of_phasedFunctions {fs : Functions} {phases : Phases}
    (h : (c.phasedFunctions phases).run s = .ok (fs, s')) :
    ∃ gs rs, c.Assembled s s' gs rs ∧ gs.Perm fs.toList ∧
      rs.Perm (phases.toList.map Phase.span) := by
  obtain ⟨points, t, hpoints, h⟩ := Emit.run_bind_eq_ok.mp h
  obtain ⟨forks, t', hforks, h⟩ := Emit.run_bind_eq_ok.mp h
  obtain ⟨joins, t'', hjoins, h⟩ := Emit.run_bind_eq_ok.mp h
  obtain ⟨hfs, hs⟩ := Emit.run_pure_eq_ok.mp h
  subst hfs hs
  have hpoints := assembled_controlPointFunctions hi hpoints
  have hforks := assembled_patchFunctions .nil hforks
  have hjoins := assembled_patchFunctions (.of_calls hi.patchStore.calls) hjoins
  refine ⟨_, _, ((hpoints.append hforks).append hjoins).append
    (.framing (framing_hullMain hi) .nil), .refl _, ?_⟩
  simp [Phases.toList]

theorem exists_assembled_of_write {fs : Functions} {phases : Option Phases}
    (h : (c.write phases).run s = .ok (fs, s')) :
    ∃ gs rs, c.Assembled s s' gs rs ∧ gs.Perm fs.toList ∧ rs.Perm (c.spans phases) := by
  cases phases
  case none => exact exists_assembled_of_singleFunctions hi h
  case some => exact exists_assembled_of_phasedFunctions hi h

end Functions

-- Single texels are accessed by instructions only.
def Accesses (c : Context) (line : Line) : Prop :=
  ∀ call ∈ line.calls, AccessFree call.1 ∨
    ∃ inst ∈ c.program.instructions, c.resources.Accesses c.program inst call.1 call.2

theorem accesses_of_inert (h : Inert lines) : ∀ line ∈ lines, c.Accesses line :=
  fun line hl call hc => .inl ((h line hl).calls call hc)

theorem accesses_of_body {scope : Scope} {start stop : Nat}
    (h : ({ c with scope }.body start stop).run s = .ok (lines, s')) :
    ∀ line ∈ lines, c.Accesses line := by
  refine of_range (c := { c with scope }) (R := fun _ _ lines => ∀ line ∈ lines, c.Accesses line)
    (fun _ => List.forall_mem_nil _) (fun _ _ _ _ _ h h' => List.forall_mem_append.mpr ⟨h, h'⟩)
    (fun i inst isLast _ _ _ hinst hr => ?_) h
  obtain hsteers | hcalls := (says_step.of_run hr).left
  case inl => exact accesses_of_inert hsteers.inert
  case inr =>
    intro line hl call hc
    exact ((hcalls line hl).said call hc).imp And.right
      fun h => ⟨inst, List.mem_of_getElem? hinst, h⟩

theorem Assembled.accesses {fs : List Function} {rs : List Flow.Span}
    (h : c.Assembled s s' fs rs) : ∀ f ∈ fs, ∀ line ∈ f.body, c.Accesses line := by
  induction h
  case nil => exact List.forall_mem_nil _
  case framing hf _ hi => exact List.forall_mem_cons.mpr ⟨accesses_of_inert hf.inert, hi⟩
  case body hsplit hfront hback _ hrun _ hi =>
    refine List.forall_mem_cons.mpr ⟨?_, hi⟩
    rw [hsplit, List.forall_mem_append, List.forall_mem_append]
    exact ⟨⟨accesses_of_inert hfront.inert, accesses_of_body hrun⟩, accesses_of_inert hback.inert⟩

end Context

theorem Program.Lifted.accesses {p : Program} {o : Options} {s : Shader} {c : Context}
    {phases : Option Phases} (l : p.Lifted o s c phases) :
    ∀ f ∈ s.source.functions.toList, ∀ call ∈ f.calls, AccessFree call.1 ∨
      ∃ inst ∈ p.instructions, c.resources.Accesses p inst call.1 call.2 := by
  obtain ⟨_, hrun, _⟩ := l.written
  obtain ⟨fs, _, hfs, hperm, _⟩ :=
    Context.exists_assembled_of_write (Interface.moves_of_build l.interface) hrun
  intro f hf
  refine List.forall_mem_flatMap.mpr fun line hl => ?_
  rw [← l.program]
  exact hfs.accesses f (hperm.mem_iff.mpr hf) line hl

end ShaderLift
