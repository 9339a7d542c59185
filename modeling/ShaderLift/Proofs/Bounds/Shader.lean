import ShaderLift.Proofs.Bounds.Body
import ShaderLift.Proofs.Bounds.Interface
import ShaderLift.Proofs.Hull.Phases
import ShaderLift.Proofs.Lift.Functions

/-!
Lifting a decoded program refers to nothing that is not there, but for the number of the sample in a
fetch from a multisampled texture by an instruction for textures with one sample. Its functions
subscript register files by the indices of operands and the registers of signature entries.
-/

namespace ShaderLift

open Glsl

-- A function subscripts register files by `A` only.
def Glsl.Function.Subscripts (A : RegisterFile → UInt32 → Prop) (f : Function) : Prop :=
  EachLine A f.body

namespace Context

variable {c : Context} {E : LiftError → Prop} {A : RegisterFile → UInt32 → Prop}

-- Instructions of all functions end in lines that subscript register files by `A`, or with an
-- excuse.
def Steps (E : LiftError → Prop) (A : RegisterFile → UInt32 → Prop) (c : Context) : Prop :=
  ∀ scope i inst isLast, (scope = .fork ∨ scope = .join → c.stage = .hull) →
    c.program.instructions[i]? = some inst →
    Emit.Ends E (EachLine A) (({ c with scope }.focus i inst).step inst isLast)

theorem subscripts_call {function : String} {args : List Expr} (h : ∀ e ∈ args, e.Subscripts A) :
    (call function args).Subscripts A :=
  Line.subscripts_stmt.mpr (Expr.eachSubscripts_iff.mpr h)

theorem eachLine_calls {first second : String} : EachLine A [call first [], call second []] :=
  List.forall_mem_cons.mpr ⟨subscripts_call (List.forall_mem_nil _),
    EachLine.singleton.mpr (subscripts_call (List.forall_mem_nil _))⟩

theorem eachLine_runPhase {kind : String} {phase : Phase} {k : Nat} :
    EachLine A (runPhase kind phase k) := by
  unfold runPhase
  split
  case isTrue => exact EachLine.singleton.mpr (subscripts_call (by simp))
  case isFalse => exact EachLine.block trivial (EachLine.singleton.mpr (subscripts_call (by simp)))

theorem eachLine_passThrough (h : ∀ r < c.sizes.outputs, A .outputs r) :
    EachLine A c.passThrough := by
  refine List.forall_mem_map.mpr fun r hr => Line.subscripts_stmt.mpr ⟨?_, nofun, trivial, by simp⟩
  have hr : r < c.sizes.outputs.toNat := by
    have hr := List.mem_range.mp hr
    rw [UInt32.toNat_min] at hr
    omega
  refine subscripts_fileRegister (h _ (UInt32.lt_iff_toNat_lt.mpr ?_))
  rwa [UInt32.toNat_ofNat_of_lt' (hr.trans c.sizes.outputs.toNat_lt)]

section Functions

variable (h : c.Steps E A) {scope : Scope}

include h

theorem ends_range {count i depth : Nat} (hscope : scope = .fork ∨ scope = .join → c.stage = .hull)
    (hn : i + count ≤ c.program.instructions.length) :
    Emit.Ends E (EachLine A) ({ c with scope }.range count i depth) := by
  induction count generalizing i depth
  case zero => exact .pure .nil
  case succ count hi =>
    have hinst := List.getElem?_eq_getElem (l := c.program.instructions) (i := i) (by omega)
    simp only [range, hinst]
    refine .bind (h scope i _ _ hscope hinst) fun _ hlines => ?_
    exact .bind (hi (by omega)) fun _ hrest => .pure (EachLine.append_iff.mpr ⟨hlines, hrest⟩)

theorem ends_body {r : Flow.Span} (hr : r.Whole c.program.instructions)
    (hscope : scope = .fork ∨ scope = .join → c.stage = .hull) :
    Emit.Ends E (EachLine A) ({ c with scope }.body r.first r.stop) :=
  ends_range h hscope (by have := hr.ordered; have := hr.within; omega)

theorem ends_subroutines {ss : List Subroutine}
    (hs : ∀ s ∈ ss, s.body.Whole c.program.instructions) :
    Emit.Ends E (fun fs => ∀ f ∈ fs, f.Subscripts A) (c.subroutines ss) := by
  induction ss
  case nil => exact .pure (List.forall_mem_nil _)
  case cons s ss hi =>
    have ⟨hs, hss⟩ := List.forall_mem_cons.mp hs
    refine .bind (ends_body h hs (by nofun)) fun _ hbody => .bind (hi hss) fun _ hrest => ?_
    exact .pure (List.forall_mem_cons.mpr ⟨hbody, hrest⟩)

variable (hi : c.interface.Subscripts A)

include hi

omit h in
theorem eachLine_prologue : EachLine A c.prologue := by
  refine EachLine.append_iff.mpr ⟨hi.load, ?_⟩
  unfold Resources.immediatesInit
  split
  case isTrue => exact .nil
  case isFalse =>
    have row {words : List UInt32} : (Resources.floatRow c.dialect words).Subscripts A := by
      refine Expr.eachSubscripts_iff.mpr (List.forall_mem_map.mpr fun word _ => ?_)
      split <;> exact subscripts_literal
    exact List.forall_mem_map.mpr fun (_, _) _ => Line.subscripts_stmt.mpr ⟨by simp, row⟩

omit h in
theorem subscripts_hullMain : c.hullMain.Subscripts A := by
  refine EachLine.append_iff.mpr
    ⟨EachLine.append_iff.mpr ⟨eachLine_prologue hi, eachLine_calls⟩, EachLine.block ?_ ?_⟩
  · simp [Line.Subscripts]
  · exact EachLine.append_iff.mpr ⟨hi.pointLoad, eachLine_calls⟩

theorem ends_singleFunctions (hmain : c.scope = .main)
    (hb : ∀ r ∈ c.flow.bodies, r.Whole c.program.instructions) :
    Emit.Ends E (fun fs => ∀ f ∈ fs.toList, f.Subscripts A) c.singleFunctions := by
  have ⟨hbody, hs⟩ := List.forall_mem_cons.mp hb
  refine .bind (ends_subroutines h (List.forall_mem_map.mp hs)) fun _ hsubs => ?_
  refine .bind (ends_body h hbody (by simp [hmain])) fun _ hlines => .pure ?_
  refine List.forall_mem_append.mpr ⟨?store, List.forall_mem_cons.mpr ⟨?main, hsubs⟩⟩
  case store =>
    split
    case isTrue => exact List.forall_mem_nil _
    case isFalse => exact List.forall_mem_singleton.mpr hi.store
  case main =>
    refine EachLine.append_iff.mpr ⟨EachLine.append_iff.mpr ⟨eachLine_prologue hi, hlines⟩, ?_⟩
    split
    case isTrue => exact EachLine.singleton.mpr (Line.subscripts_stmt.mpr trivial)
    case isFalse => exact .nil

variable (hull : c.stage = .hull)

include hull

omit hi in
theorem ends_patchFunctions {kind : String} {phases : List Phase} {after : List Line}
    (hp : ∀ phase ∈ phases, phase.span.Whole c.program.instructions) (ha : EachLine A after) :
    Emit.Ends E (fun fs => ∀ f ∈ fs, f.Subscripts A)
      ({ c with scope }.patchFunctions kind phases after) := by
  have hphases {k : Nat} : Emit.Ends E (fun fs => ∀ f ∈ fs, f.Subscripts A)
      ({ c with scope }.phaseFunctions kind k phases) := by
    induction phases generalizing k
    case nil => exact .pure (List.forall_mem_nil _)
    case cons phase phases hi =>
      have ⟨hphase, hp⟩ := List.forall_mem_cons.mp hp
      refine .bind (ends_body h hphase fun _ => hull) fun _ hbody => .bind (hi hp) fun _ hrest => ?_
      exact .pure (List.forall_mem_cons.mpr ⟨hbody, hrest⟩)
  refine .bind hphases fun _ hfs => .pure (List.forall_mem_append.mpr ⟨hfs, ?_⟩)
  refine List.forall_mem_singleton.mpr (EachLine.append_iff.mpr ⟨fun line hline => ?_, ha⟩)
  have ⟨(phase, k), _, hline⟩ := List.mem_flatMap.mp hline
  exact eachLine_runPhase line hline

variable (hpass : EachLine A c.passThrough)

include hpass

theorem ends_controlPointFunctions {phase? : Option Phase}
    (hp : ∀ phase ∈ phase?, phase.span.Whole c.program.instructions) :
    Emit.Ends E (fun fs => ∀ f ∈ fs, f.Subscripts A) (c.controlPointFunctions phase?) := by
  match phase? with
  | none =>
    exact .pure (List.forall_mem_singleton.mpr (EachLine.append_iff.mpr ⟨hpass, hi.store⟩))
  | some phase =>
    refine .bind (ends_body h (hp phase rfl) fun _ => hull) fun _ hbody => .pure ?_
    have hcall : EachLine A [call "hs_cp_main" []] :=
      EachLine.singleton.mpr (subscripts_call (List.forall_mem_nil _))
    refine List.forall_mem_cons.mpr ⟨hbody, List.forall_mem_singleton.mpr ?_⟩
    exact EachLine.append_iff.mpr ⟨hcall, hi.store⟩

theorem ends_phasedFunctions {phases : Phases}
    (hp : ∀ phase ∈ phases.toList, phase.span.Whole c.program.instructions) :
    Emit.Ends E (fun fs => ∀ f ∈ fs.toList, f.Subscripts A) (c.phasedFunctions phases) := by
  obtain ⟨⟨hcontrol, hforks⟩, hjoins⟩ := by
    simpa only [Phases.toList, List.forall_mem_append] using hp
  have hcontrol : ∀ phase ∈ phases.controlPoint, phase.span.Whole c.program.instructions :=
    fun phase hphase => hcontrol phase (Option.mem_toList.mpr hphase)
  refine .bind (ends_controlPointFunctions h hi hull hpass hcontrol) fun _ hpoints => ?_
  refine .bind (ends_patchFunctions h hull hforks .nil) fun _ hforks => ?_
  refine .bind (ends_patchFunctions h hull hjoins hi.patchStore) fun _ hjoins => .pure ?_
  refine List.forall_mem_append.mpr ⟨?_, List.forall_mem_singleton.mpr (subscripts_hullMain hi)⟩
  exact List.forall_mem_append.mpr ⟨List.forall_mem_append.mpr ⟨hpoints, hforks⟩, hjoins⟩

end Functions

theorem inRange_stageLayout : c.InRange c.stageLayout := by
  unfold stageLayout
  dsimp only
  cases c.stage
  case geometry =>
    unfold geometryLayout
    dsimp only
    cases c.program.stageInfo.gsInputPrimitive
    case none => exact trivial
    case some primitive =>
      dsimp only
      cases primitive.layoutName? <;> cases c.program.stageInfo.gsInstanceCount.filter (· > 1)
      case none.none => exact .bind Dialect.inRange_require fun _ _ => .pure trivial
      case none.some =>
        refine .bind Dialect.inRange_require fun _ _ => ?_
        refine .bind (P := fun _ => True) (.pure trivial) fun _ _ => ?_
        exact .bind Dialect.inRange_require fun _ _ => .pure trivial
      case some.none => exact .pure trivial
      case some.some =>
        refine .bind (P := fun _ => True) (.pure trivial) fun _ _ => ?_
        exact .bind Dialect.inRange_require fun _ _ => .pure trivial
  case pixel =>
    exact .ite (fun _ => .bind Dialect.inRange_require fun _ _ => .pure trivial) fun _ =>
      .pure trivial
  all_goals exact .pure trivial

theorem inRange_decls (h : c.resources.Paired) : c.InRange c.decls :=
  .bind inRange_stageLayout fun _ _ => .bind Options.inRange_requireWords fun _ _ =>
    .bind (Resources.inRange_decls h) fun _ _ => .bind Options.inRange_requireWords fun _ _ =>
      .pure trivial

end Context

theorem Stage.inRange_requireIn {o : Options} {d : Dialect} {stage : Stage} :
    o.InRange (stage.requireIn d) := by
  unfold requireIn
  cases stage
  case vertex | pixel => exact .pure trivial
  all_goals exact Dialect.inRange_require

namespace Phases

variable {p : Program} {o : Options}

theorem lt_of_mem_declarationsAt {before : Nat → Bool} {i : Nat} (h : i ∈ declarationsAt p before) :
    i < p.declarations.length := by
  have ⟨⟨decl, j⟩, hj, hi⟩ := List.mem_filterMap.mp h
  dsimp only at hi
  split at hi <;> cases hi
  exact List.snd_lt_of_mem_zipIdx hj

theorem lt_of_mem_phase {kind : PhaseKind} {marker stop i : Nat}
    (h : i ∈ (phase p kind marker stop).declarations) : i < p.declarations.length := by
  simp only [phase] at h
  exact lt_of_mem_declarationsAt h

theorem declarations_lt_of_mem_ofMarkers {ms : List (Nat × PhaseKind)} {phase : Phase}
    (h : phase ∈ ofMarkers p ms) : ∀ i ∈ phase.declarations, i < p.declarations.length := by
  fun_induction ofMarkers p ms
  case case1 => cases h
  case case2 =>
    cases List.mem_singleton.mp h
    exact fun _ => lt_of_mem_phase
  case case3 hi =>
    cases List.mem_cons.mp h
    case inl h =>
      subst h
      exact fun _ => lt_of_mem_phase
    case inr h => exact hi h

-- Phases name declarations that are there.
theorem stays_split : o.Stays (fun phases => ∀ phase ∈ phases.toList, ∀ i ∈ phase.declarations,
    i < p.declarations.length) (split p) := by
  unfold split
  split
  case h_1 => exact .pure (List.forall_mem_singleton.mpr (List.forall_mem_nil _))
  case h_2 first kind' rest _ =>
    have hkind {kind : PhaseKind} {phase : Phase}
        (hp : phase ∈ (ofMarkers p ((first, kind') :: rest)).filter (·.kind = kind)) :
        ∀ i ∈ phase.declarations, i < p.declarations.length :=
      declarations_lt_of_mem_ofMarkers (List.mem_of_mem_filter hp)
    dsimp only
    split
    case h_1 => exact trivial
    case h_2 =>
      split
      case h_1 => exact trivial
      case h_2 =>
        refine .pure ?_
        simp only [toList, List.forall_mem_append]
        refine ⟨⟨fun _ hp => ?_, fun _ => hkind⟩, fun _ => hkind⟩
        exact hkind (List.mem_of_head? (Option.mem_toList.mp hp))

end Phases

namespace Program

-- A context in which instructions of a program are lifted, in whichever function.
structure Enters (p : Program) (o : Options) (c : Context) : Prop where
  program   : c.program = p
  options   : c.options = o
  dialect   : c.dialect = o.dialect
  flow      : p.requireFlow = .ok c.flow
  interface : ∃ phases, Interface.build c.dialect o p phases = .ok (c.interface, c.sizes)
  resources : Resources.collect c.dialect p = .ok c.resources
  temps     : p.temps o c.dialect c.resources = .ok c.temps

-- The texture that an instruction fetches from is declared with several samples for each texel.
def FetchesMultisampled (p : Program) (inst : Instruction) : Prop :=
  ∃ id op slot decl dimension samples type, inst.operands[2]? = some id ∧
    p.operands[id]? = some op ∧ op.slot? = some slot ∧ decl ∈ p.declarations ∧
    decl.declared = .resource slot dimension samples type ∧ dimension.isMultisampled

variable {p : Program} {o : Options} {c : Context}

theorem Enters.inScope (h : p.Enters o c) {scope : Scope} : p.Enters o { c with scope } :=
  ⟨h.program, h.options, h.dialect, h.flow, h.interface, h.resources, h.temps⟩

theorem fetchesMultisampled_of_fetchesSample {inst : Instruction} (h : p.Closed)
    (hc : p.Enters o c) (hf : c.FetchesSample inst) : p.FetchesMultisampled inst := by
  have hcollect := Resources.stays_collect (d := c.dialect) (o := o) h
  rw [hc.resources] at hcollect
  obtain ⟨id, op, slot, texture, hid, hop, hslot, htexture, hm⟩ := hf
  have ⟨decl, hdecl, samples, type, hd⟩ := hcollect.right slot texture htexture
  exact ⟨id, op, slot, decl, _, samples, type, hid, hc.program ▸ hop, hslot, hdecl, hd, hm⟩

-- An instruction of a program is lifted in some function, and goes out of range.
def Escapes (p : Program) (o : Options) : Prop :=
  ∃ c i inst isLast s, p.Enters o c ∧ p.instructions[i]? = some inst ∧
    ((c.focus i inst).step inst isLast).run s = .error .outOfRange

-- Where the numbers that subscript register files in a shader come from.
inductive Origin (p : Program) (sizes : FileSizes) (inputs outputs patch : Signature) :
    RegisterFile → UInt32 → Prop
  | operand {scope file k} (inScope : scope = .fork ∨ scope = .join → p.stage = .hull)
      (access : Accesses p sizes scope file k) : Origin p sizes inputs outputs patch file k
  | entry {file k} (conveys : Conveys p.stage inputs outputs patch file k) :
      Origin p sizes inputs outputs patch file k
  | passed {k} (hull : p.stage = .hull) (lt : k < sizes.outputs) :
      Origin p sizes inputs outputs patch .outputs k

section Origins

variable {inputs outputs patch : Signature}

theorem steps_of_enters (h : p.Closed) (hc : p.Enters o c) :
    c.Steps (o.Excuses (p.Escapes o)) (p.Origin c.sizes inputs outputs patch) := by
  intro scope i inst isLast hscope hi s
  have hc : p.Enters o { c with scope } := hc.inScope
  have hinst : p.instructions[i]? = some inst := hc.program ▸ hi
  have hholds : c.program.Holds inst := hc.program ▸ ⟨h, List.mem_of_getElem? hinst⟩
  have hstep := @Context.ends_step ({ c with scope }.focus i inst) inst hholds isLast s
  cases hrun : (({ c with scope }.focus i inst).step inst isLast).run s
  all_goals rw [hrun] at hstep
  case error e =>
    cases e
    case outOfRange => exact ⟨_, i, inst, isLast, s, hc, hinst, hrun⟩
    case overflow =>
      have hchecked : c.options.checked := hstep
      exact hc.options ▸ hchecked
    all_goals exact trivial
  case ok r =>
    have hprogram : c.program = p := hc.program
    refine EachLine.mono (fun file k ha => ?_) hstep
    exact .operand (fun hs => hprogram ▸ hscope hs) (hprogram ▸ ha)

end Origins

theorem ends_write {phases : Option Phases} {inputs outputs patch : Signature} (h : p.Closed)
    (hc : p.Enters o c) (hmain : c.scope = .main)
    (hof : Flow.ofInstructions p.instructions p.operands = .ok c.flow)
    (hhull : phases.isSome → p.stage = .hull)
    (hsplit : ∀ ps, phases = some ps → Phases.split p = .ok ps)
    (hi : c.interface.Subscripts (Conveys p.stage inputs outputs patch)) :
    Emit.Ends (o.Excuses (p.Escapes o))
      (fun fs => ∀ f ∈ fs.toList, f.Subscripts (p.Origin c.sizes inputs outputs patch))
      (c.write phases) := by
  have hsteps : c.Steps (o.Excuses (p.Escapes o)) (p.Origin c.sizes inputs outputs patch) :=
    steps_of_enters h hc
  have hi : c.interface.Subscripts (p.Origin c.sizes inputs outputs patch) :=
    hi.mono fun _ _ => .entry
  cases phases
  case none =>
    exact Context.ends_singleFunctions hsteps hi hmain fun r hr =>
      hc.program ▸ Flow.whole_of_mem_bodies hof hr
  case some phases =>
    have hstage : p.stage = .hull := hhull rfl
    have hpass : EachLine (p.Origin c.sizes inputs outputs patch) c.passThrough :=
      Context.eachLine_passThrough fun _ hr => .passed hstage hr
    have hull : c.stage = .hull := (congrArg Program.stage hc.program).trans hstage
    refine Context.ends_phasedFunctions hsteps hi hull hpass ?_
    exact hc.program ▸ Phases.whole_of_split hof (hsplit phases rfl)

theorem ends_lift {flow : Flow} (h : p.Closed) (hflow : p.requireFlow = .ok flow)
    (hof : Flow.ofInstructions p.instructions p.operands = .ok flow) :
    Ends (o.Excuses (p.Escapes o)) (fun _ => True) (p.lift o) := by
  let Split (phases : Option Phases) : Prop :=
    (phases.isSome → p.stage = .hull) ∧ ∀ ps, phases = some ps → Phases.split p = .ok ps
  have hsplit (hs : p.stage = .hull) : o.Stays Split (some <$> Phases.split p) := by
    rw [← bind_pure_comp]
    refine .bind_of_ok Phases.stays_split fun ps hps _ => .pure ⟨fun _ => hs, fun ps' h => ?_⟩
    exact Option.some.inj h ▸ hps
  unfold lift
  refine .bind Stage.inRange_requireIn.excused fun _ _ => ?_
  rw [hflow]
  refine .bind (P := (· = flow)) (.pure rfl) fun flow hflow' => ?_
  subst hflow'
  refine .ite (fun hs => .bind (hsplit hs).excused fun phases hp => ?_) fun _ =>
    .bind (P := Split) (.pure ⟨nofun, nofun⟩) fun phases hp => ?_
  all_goals
    refine .bind_of_ok (Interface.stays_build h).excused fun (interface, sizes) hi hb => ?_
    have ⟨inputs, outputs, patch, _, _, _, _, hconveys⟩ := hb
    refine .bind Options.inRange_requireWords.excused fun _ _ => ?_
    refine .bind_of_ok (Resources.stays_collect h).excused fun resources hr hpaired => ?_
    refine .bind_of_ok (inRange_temps h).excused fun temps ht _ => ?_
    extract_lets c write
    have hc : p.Enters o c := ⟨rfl, rfl, rfl, hflow, ⟨phases, hi⟩, hr, ht⟩
    have hwrite : Emit.Ends (o.Excuses (p.Escapes o)) (fun _ => True) write := by
      have hwrite : Emit.Ends (o.Excuses (p.Escapes o)) _ (c.write phases) :=
        ends_write h hc rfl hof hp.left hp.right hconveys
      cases phases <;> exact fun s => (hwrite s).mono fun _ _ => trivial
    refine .bind (hwrite {}) fun (_, _) _ => ?_
    exact .bind (Context.inRange_decls hpaired.left).excused fun _ _ => .pure trivial

theorem closed_of_decode {tokens : List UInt32} (h : decode tokens = .ok p) : p.Closed := by
  have ⟨stage, bound, words, es, hframes, hdeclarations, hinstructions⟩ := exists_frames_of_decode h
  have ⟨hs, hes⟩ := sound_of_readFrames Arena.sound_empty hframes
  rw [List.append_nil] at hs
  have hs := hs.perm (perm_references 0)
  rw [← hdeclarations, ← hinstructions] at hs
  refine ⟨fun inst hinst => ?counts, fun inst hinst id hid => ?instructions,
    fun decl hdecl id hid => ?declarations, hs.descends⟩
  case counts =>
    rw [hinstructions] at hinst
    have ⟨e, he, hinst⟩ := List.mem_filterMap.mp hinst
    cases e <;> cases hinst
    exact (hes _ he).count
  case instructions =>
    exact hs.inside id (List.mem_append_left _ (List.mem_flatMap.mpr ⟨inst, hinst, hid⟩))
  case declarations =>
    exact hs.inside id (List.mem_append_right _ (List.mem_flatMap.mpr ⟨decl, hdecl, hid⟩))

-- A program with tables beside it.
def withTables (p : Program) (inputs outputs patch : Signature) (buffers : List ConstantBuffer)
    (bindings : List ResourceBinding) : Program :=
  ((p.withSignatures inputs outputs patch).withConstantBuffers buffers).withBindings bindings

variable {linked : Program} {inputs outputs patch : Signature} {buffers : List ConstantBuffer}
  {bindings : List ResourceBinding}

theorem closed_of_link (h : p.Closed)
    (hlink : (p.withTables inputs outputs patch buffers bindings).link = .ok linked) :
    linked.Closed ∧ ∃ flow, linked.requireFlow = .ok flow ∧
      Flow.ofInstructions linked.instructions linked.operands = .ok flow := by
  have ⟨flow, hflow, hlink⟩ := bind_eq_ok_iff.mp hlink
  cases hlink
  exact ⟨⟨h.counts, h.instructions, h.declarations, h.descends⟩, flow, rfl, hflow⟩

theorem lift_stays_in_range {tokens : List UInt32} (hdecode : decode tokens = .ok p)
    (hlink : (p.withTables inputs outputs patch buffers bindings).link = .ok linked) :
    (linked.lift o = .error .outOfRange → linked.Escapes o) ∧
    (linked.lift o = .error .overflow → o.checked) ∧
    (∀ c i inst isLast s, linked.Enters o c → linked.instructions[i]? = some inst →
      ((c.focus i inst).step inst isLast).run s = .error .outOfRange →
      inst.opcode = .ld ∧ linked.FetchesMultisampled inst) ∧
    (∀ c id dst, linked.Enters o c → linked.Reaches id →
      c.destination id = .ok (some dst) → dst.components ≠ []) ∧
    (∀ d : ResourceDimension, d.offsetCount ≤ 3 ∧ d.sizeCount ≤ 3) ∧
    ∀ phases, Phases.split linked = .ok phases → ∀ phase ∈ phases.toList,
      ∀ i ∈ phase.declarations, i < linked.declarations.length := by
  have ⟨h, flow, hflow, hof⟩ := closed_of_link (closed_of_decode hdecode) hlink
  have hlift := ends_lift (o := o) h hflow hof
  refine ⟨fun herror => ?range, fun herror => ?words, fun c i inst isLast s hc hi herror => ?step,
    fun c id dst hc hid hdst => ?destination, fun d => ⟨d.offsetCount_le, d.sizeCount_le⟩,
    fun phases hp => ?phases⟩
  case range | words =>
    rw [herror] at hlift
    exact hlift
  case step =>
    have hinst : c.program.Holds inst := hc.program ▸ ⟨h, List.mem_of_getElem? hi⟩
    have hstep := @Context.ends_step (c.focus i inst) inst hinst isLast s
    rw [herror] at hstep
    have ⟨hld, hf⟩ := hstep
    exact ⟨hld, fetchesMultisampled_of_fetchesSample h hc hf⟩
  case destination =>
    have hdestination := Context.stays_destination (hc.program ▸ h) (hc.program ▸ hid)
    rw [hdst] at hdestination
    exact (hdestination dst rfl).left
  case phases =>
    have hsplit := Phases.stays_split (p := linked) (o := o)
    rw [hp] at hsplit
    exact hsplit

-- A pixel shader that fetches from a multisampled texture by `ld`.
def fetchWithoutSample : List UInt32 :=
  [0x50, 16, 0x04002058, 0x00107000, 0, 0x5555, 0x02000068, 1, 0x0700002d, 0x001000f2, 0,
    0x00100e46, 0, 0x00107e46, 0, 0x0100003e]

theorem lift_stays_in_range_fetchWithoutSample : ∃ p linked c inst,
    decode fetchWithoutSample = .ok p ∧ (p.withTables [] [] [] [] []).link = .ok linked ∧
    linked.lift {} = .error .outOfRange ∧ linked.Enters {} c ∧ inst ∈ linked.instructions ∧
    inst.opcode = .ld ∧ linked.FetchesMultisampled inst := by
  obtain ⟨p, hdecode, linked, hlink, herror⟩ : ∃ p, decode fetchWithoutSample = .ok p ∧
      ∃ linked, (p.withTables [] [] [] [] []).link = .ok linked ∧
        linked.lift {} = .error .outOfRange := by
    decide +kernel
  obtain ⟨hfails, _, honly, _⟩ := lift_stays_in_range (o := {}) hdecode hlink
  obtain ⟨c, i, inst, isLast, s, hc, hi, hstep⟩ := hfails herror
  obtain ⟨hop, hfetch⟩ := honly c i inst isLast s hc hi hstep
  exact ⟨p, linked, c, inst, hdecode, hlink, herror, hc, List.mem_of_getElem? hi, hop, hfetch⟩

end Program

end ShaderLift
