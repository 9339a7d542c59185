import ShaderLift.Lift.Memory
import ShaderLift.Proofs.Effects.Arithmetic

/-!
Reads of textures, and accesses to buffers, images and shared memory, calculate and do nothing else.
Reads are lifted to nothing exactly if what they read is dropped, and stores to buffers exactly if
they write no component. Atomic operations and stores to images always leave a statement. Single
texels are accessed only as the opcode says, and on what its operand names.
-/

namespace ShaderLift

variable {inst : Instruction}

open Glsl

-- The functions that an access to an image may be.
def UavAccess.Permits (access : UavAccess) (function : String) : Prop :=
  access.reads ∧ function = "imageLoad" ∨ access.writes ∧ function = "imageStore" ∨
    access.atomic ∧ ∃ name, Ordinary name ∧ function = "imageAtomic" ++ name

-- How an instruction of a program accesses single texels.
inductive Resources.Accesses (r : Resources) (p : Program) (inst : Instruction) :
    String → List Expr → Prop
  | fetch {function slot key args} (name : function ∈ ["texelFetch", "texelFetchOffset"])
      (reads : r.fetchKey? slot = some key) :
      Accesses r p inst function (.var (.sampler key) :: args)
  | image {function a slot u args} (access : inst.opcode.uavAccess? = some a)
      (permits : a.Permits function)
      (names : p.slotOf inst .unorderedAccessView a.operand = .ok (some slot))
      (uav : r.uavs.get? slot = some u) (typed : u.isTyped) :
      Accesses r p inst function (.var (.image slot) :: args)

theorem Resources.Accesses.ordinary {r : Resources} {p : Program} {f : String} {es : List Expr}
    (h : r.Accesses p inst f es) : Ordinary f := by
  cases h
  case fetch hf _ =>
    simp only [List.mem_cons, List.not_mem_nil, or_false] at hf
    rcases hf with rfl | rfl <;> decide
  case image hp _ _ _ =>
    rcases hp with ⟨_, rfl⟩ | ⟨_, rfl⟩ | ⟨_, name, hn, rfl⟩
    case inl | inr.inl => decide
    case inr.inr => exact ordinary_append.mpr ⟨by decide, hn⟩

def Opcode.hasTwoResults : Opcode → Bool
  | sinCos | udiv | imul | umul | uaddc | usubb | swapc => true
  | _ => false

-- What an instruction may call, whether it may declare names, and what it may set.
def Context.vocabulary (c : Context) (inst : Instruction) : Vocabulary where
  Says function args := Common function ∨ c.resources.Accesses c.program inst function args
  common h := .inl h
  Declares := inst.opcode.hasTwoResults
  Sets name := name.isTarget
  sets h := h

theorem Context.quiet_vocabulary {c : Context} : (c.vocabulary inst).Quiet :=
  fun h => h.elim And.left Resources.Accesses.ordinary

-- Where the memory is that an operand names.
def Context.Locates (c : Context) (op : Operand) : Memory → Prop
  | .words array _ => ∃ name, array = .var name ∧ name.isTarget
  | .image array _ _ => op.register = .unorderedAccessView ∧ ∃ slot u, op.slot? = some slot ∧
      c.resources.uavs.get? slot = some u ∧ u.isTyped ∧ array = .var (.image slot)

-- A store to a buffer that has no component to write.
def Program.storesNothing (p : Program) (inst : Instruction) : Bool :=
  (p.operandOf? inst 0).any (·.selection.writeMask.isEmpty)

theorem Program.slotOf_eq {p : Program} {i : Nat} {id : OperandId} {op : Operand} {slot : UInt32}
    (hid : inst.operands[i]? = some id) (hop : p.operands[id]? = some op)
    (hslot : op.slot? = some slot) : p.slotOf inst op.register i = .ok (some slot) := by
  simp [Program.slotOf, hid, Program.operand, hop, hslot, bind, Except.bind, pure, Except.pure]

theorem common_legacyLookup {dimension : ResourceDimension} {shadow : Bool} {stem : String}
    (h : dimension.legacyLookup? shadow = some stem) : Common stem := by
  unfold ResourceDimension.legacyLookup? at h
  split at h
  case h_7 => cases h
  all_goals
    cases h
    decide

namespace Context

variable {c : Context} {inst : Instruction} {dimension : ResourceDimension} {e : Expr} {i : Nat}
variable {V : Vocabulary}

theorem gives_orUnresolved {α : Type} {what : Unresolved} {o : Option α} :
    Gives (fun a => o = some a) (c.orUnresolved what o) := by
  cases o
  case none => exact .error
  case some => exact .pure rfl

theorem gives_fetchName {slot : UInt32} :
    Gives (fun e => ∃ key, c.resources.fetchKey? slot = some key ∧ e = .var (.sampler key))
      (c.fetchName slot) :=
  .bind gives_orUnresolved fun key hkey => .pure ⟨key, hkey, rfl⟩

@[simp] theorem calls_resourcePick {op : Operand} {components : List Nat} :
    (resourcePick op components e).Calls V ↔ e.Calls V :=
  Expr.calls_pick

theorem calls_immediateOffset : ∀ e ∈ c.immediateOffset inst dimension, e.Calls V := by
  have vector {n : Nat} {offsets : List Int} : (c.offsetVector n offsets).Calls V := by
    unfold offsetVector
    split <;> simp
  intro e he
  unfold immediateOffset at he
  split at he
  case h_1 =>
    have ⟨_, _, he⟩ := Option.map_eq_some_iff.mp he
    exact he ▸ vector
  case h_2 => cases he

theorem gives_compareCoord {coord reference : Expr} (hc : coord.Calls V) (hr : reference.Calls V) :
    Gives (fun r => r.1.Calls V ∧ ∀ e ∈ r.2, e.Calls V)
      (c.compareCoord dimension coord reference) := by
  cases dimension
  case texture1D | texture2D | texture1DArray | texture2DArray | textureCube | textureCubeArray =>
    exact .pure (by simp +decide [hc, hr])
  all_goals exact .error

theorem common_legacyFunction {shadow : Bool} {lookup : Lookup} :
    Emit.Gives Common (c.legacyFunction dimension shadow lookup) := by
  unfold legacyFunction
  extract_lets rest
  have hrest {stem : String} (hs : Common stem) : Emit.Gives Common (rest stem) := by
    have suffixed {suffix : String} (h : Ordinary suffix) : Common (stem ++ suffix) :=
      hs.append h
    refine .ite (fun _ => .pure hs) fun _ => ?_
    refine .ite (fun _ => .pure (suffixed (by decide))) fun _ => .skip fun _ => ?_
    cases c.has .esProfile <;> cases lookup <;>
      exact .bind Emit.gives_useExtension fun _ _ => .pure (suffixed (by decide))
  cases h : dimension.legacyLookup? shadow
  case none => exact .skip fun _ => hrest (by decide)
  case some => exact hrest (common_legacyLookup h)

theorem common_sampleFunction {s : SampleCall} {lookup : Lookup} :
    Emit.Gives Common (c.sampleFunction s lookup) := by
  refine .ite (fun _ => .pure ?_) fun _ => .ite (fun _ => ?_) fun _ => common_legacyFunction
  case refine_1 => cases lookup <;> cases s.offset.isEmpty <;> decide
  case refine_2 => exact .skip fun _ => common_legacyFunction

@[simp] theorem calls_shadowResult : (c.shadowResult e).Calls V ↔ e.Calls V := by
  unfold shadowResult
  split <;> simp

section Sample

structure SampleCalls (V : Vocabulary) (s : SampleCall) : Prop where
  sampler : s.sampler.Calls V
  coord   : s.coord.Calls V
  offset  : ∀ e ∈ s.offset, e.Calls V

variable {s : SampleCall} (hs : SampleCalls V s)

include hs

theorem SampleCalls.call {function : String} {args more : List Expr} (hf : Common function)
    (ha : ∀ e ∈ args, e.Calls V) (hm : ∀ e ∈ more, e.Calls V) :
    (Expr.call function (args ++ s.offset ++ more)).Calls V := by
  refine Expr.calls_call.mpr ⟨V.common hf, ?_⟩
  exact List.forall_mem_append.mpr ⟨List.forall_mem_append.mpr ⟨ha, hs.offset⟩, hm⟩

theorem calls_sampleLevelZero : Emit.Gives (·.call.Calls V) (c.sampleLevelZero s) := by
  have call {function : String} {args : List Expr} (hf : Common function)
      (ha : ∀ e ∈ args, e.Calls V) : (Expr.call function (args ++ s.offset)).Calls V := by
    simpa using hs.call hf ha (List.forall_mem_nil _)
  refine .ite (fun _ => .fail) fun _ => .bind (.lift (calls_argSource V)) fun _ hr => ?_
  refine .bind (.lift (gives_compareCoord hs.coord hr)) fun (coord, _) ⟨hc, _⟩ => ?_
  cases s.dimension
  case texture2DArray | textureCube =>
    exact .bind common_sampleFunction fun _ hf => .pure (call hf (by simp [hs.sampler, hc]))
  all_goals
    exact .bind common_sampleFunction fun _ hf =>
      .pure (calls_shadowResult.mpr (call hf (by simp [hs.sampler, hc])))

theorem calls_sampleValue : Emit.Gives (·.call.Calls V) (c.sampleValue s) := by
  have call {function : String} {args : List Expr} (hf : Common function)
      (ha : ∀ e ∈ args, e.Calls V) : (Expr.call function (args ++ s.offset)).Calls V := by
    simpa using hs.call hf ha (List.forall_mem_nil _)
  have hpair : ∀ e ∈ [s.sampler, s.coord], e.Calls V := by simp [hs.sampler, hs.coord]
  unfold sampleValue
  extract_lets gather gatherCompare lanes component
  have hcomponent : ∀ e ∈ component, e.Calls V := by
    simp only [component]
    split <;> simp
  have hgather : Common gather := by
    simp only [gather]
    split <;> decide
  have compared {i : Nat} :
      Emit.Gives (·.call.Calls V) (liftM (gatherCompare i) : Emit SampleValue) :=
    .lift (.skip fun _ => .bind (calls_argSource V) fun _ ha =>
      .pure (call hgather (by simp [hs.sampler, hs.coord, ha])))
  cases s.inst.opcode
  case sample => exact .bind common_sampleFunction fun _ hf => .pure (call hf hpair)
  case sampleB =>
    refine .bind (.lift (calls_argSource V)) fun _ ha => ?_
    exact .bind common_sampleFunction fun _ hf =>
      .pure (hs.call hf hpair (List.forall_mem_singleton.mpr ha))
  case sampleL =>
    refine .bind (.lift (calls_argSource V)) fun _ ha => ?_
    exact .bind common_sampleFunction fun _ hf =>
      .pure (call hf (by simp [hs.sampler, hs.coord, ha]))
  case sampleD =>
    refine .bind (.lift (calls_argSource V)) fun _ ha => ?_
    refine .bind (.lift (calls_argSource V)) fun _ hb => ?_
    exact .bind common_sampleFunction fun _ hf =>
      .pure (call hf (by simp [hs.sampler, hs.coord, ha, hb]))
  case sampleC =>
    refine .bind (.lift (calls_argSource V)) fun _ ha => ?_
    refine .bind (.lift (gives_compareCoord hs.coord ha)) fun (coord, apart) ⟨hc, hapart⟩ => ?_
    refine .bind common_sampleFunction fun _ hf => .pure (calls_shadowResult.mpr (call hf ?_))
    simpa [hs.sampler, hc] using hapart
  case sampleCLz => exact calls_sampleLevelZero hs
  case gather4C | gather4PoC => exact compared
  all_goals exact .skip fun _ => .pure (hs.call hgather hpair hcomponent)

end Sample

theorem calculated_sample {operands : SampleOperands} {position : Nat} :
    Emit.Gives (Calculated V (c.program.drops inst 0)) (c.sample inst operands position) := by
  refine .skip fun (texture, key, sampler) => ?_
  refine .bind (.lift (gives_argDestination V)) fun dst? hdst => ?_
  cases dst?
  case none => exact .pure (.nothing hdst)
  case some dst =>
    have ⟨hdrops, ht⟩ := hdst
    rw [hdrops]
    refine .bind (.lift (calls_argSource V)) fun coord hcoord => ?_
    extract_lets rest
    have hrest (offset : List Expr) (ho : ∀ e ∈ offset, e.Calls V) :
        Emit.Gives (Calculated V false) (rest offset) := by
      refine .bind (calls_sampleValue ⟨Expr.calls_var, hcoord, ho⟩) fun result hr =>
        .ite (fun _ => .pure (calculated_storeLine ht (calls_splat.mpr hr))) fun _ => ?_
      exact .skip fun _ => .skip fun _ =>
        .pure (calculated_storeLine ht (calls_resourcePick.mpr hr))
    split
    case h_1 | h_2 =>
      exact .bind (.lift (calls_argSource V)) fun _ ha => hrest _ (List.forall_mem_singleton.mpr ha)
    case h_3 => exact hrest _ fun e he => calls_immediateOffset e (Option.mem_toList.mp he)

theorem calculated_loadTexel :
    Gives (Calculated (c.vocabulary inst) (c.program.drops inst 0)) (c.loadTexel inst) := by
  refine .skip fun _ => .skip fun id => .skip fun (slot, texture) => ?_
  refine .bind gives_fetchName fun name ⟨key, hkey, hname⟩ => ?_
  refine calculated_withDestination fun dst ht => ?_
  refine .bind (calls_argSource (c.vocabulary inst)) fun coord hcoord => ?_
  have fetch {function : String} {args : List Expr}
      (hf : function ∈ ["texelFetch", "texelFetchOffset"])
      (ha : ∀ e ∈ args, e.Calls (c.vocabulary inst)) :
      Gives (Calculated (c.vocabulary inst) false) (do
        let value := resourcePick (← c.operand id) dst.components (.call function (name :: args))
        return c.storeLine dst value (texture.valueType c.dialect)) := by
    subst hname
    refine .skip fun _ => .pure (calculated_storeLine ht (calls_resourcePick.mpr ?_))
    exact Expr.calls_call.mpr ⟨.inr (.fetch hf hkey), List.forall_mem_cons.mpr ⟨Expr.calls_var, ha⟩⟩
  refine .ite (fun _ => fetch (by decide) (by simp [hcoord])) fun _ => ?_
  refine .ite (fun _ => ?_) fun _ => ?_
  case refine_1 =>
    exact .bind (calls_argSource (c.vocabulary inst)) fun _ ha =>
      fetch (by decide) (by simp [hcoord, ha])
  case refine_2 =>
    refine .bind (calls_argSource (c.vocabulary inst)) fun _ ha => ?_
    cases ho : c.immediateOffset inst texture.dimension
    case none => exact fetch (by decide) (by simp [hcoord, ha])
    case some offset =>
      have ho : offset.Calls (c.vocabulary inst) := calls_immediateOffset offset ho
      exact fetch (by decide) (by simp [hcoord, ha, ho])

theorem calculated_queryLod : Gives (Calculated V (c.program.drops inst 0)) (c.queryLod inst) := by
  refine .ite (fun _ => .error) fun _ => .skip fun _ => .skip fun (texture, key, _) => ?_
  refine calculated_withDestination fun dst ht => .bind (calls_argSource V) fun _ ha => ?_
  exact .skip fun _ => .skip fun _ =>
    .pure (calculated_storeLine ht (calls_resourcePick.mpr (by simp +decide [ha])))

theorem calls_sizeVector {name mip : Expr} {wantsLevels : Bool} (hname : name.Calls V)
    (hmip : mip.Calls V) : Gives (Expr.Calls V) (c.sizeVector name mip dimension wantsLevels) := by
  have vector {p : Prop} [Decidable p] {n : Nat} {levels : Expr} (hl : levels.Calls V) :
      (Expr.call (c.vec .int 4) (.call "textureSize" (if p then [name] else [name, mip]) ::
        List.replicate n (Expr.int 0) ++ [levels])).Calls V := by
    refine Expr.calls_call.mpr ⟨V.common common_vec, List.forall_mem_append.mpr ⟨?_, by simp [hl]⟩⟩
    refine List.forall_mem_cons.mpr ⟨?_, fun e he => ?_⟩
    case refine_1 => split <;> simp +decide [hname, hmip]
    case refine_2 => exact List.eq_of_mem_replicate he ▸ Expr.calls_int
  refine .ite (fun _ => .pure (vector (by simp))) fun _ => ?_
  refine .ite (fun _ => .pure (vector (by simp))) fun _ => ?_
  exact .skip fun _ => .pure (vector (by simp +decide [hname]))

theorem calculated_sizeInfo :
    Gives (Calculated V (c.program.drops inst 0)) (c.sizeInfo inst) := by
  refine .skip fun _ => .skip fun id => .skip fun (slot, texture) => ?_
  refine .bind gives_fetchName fun name ⟨_, _, hname⟩ => ?_
  have hname : name.Calls V := hname ▸ Expr.calls_var
  refine calculated_withDestination fun dst ht => ?_
  refine .bind (calls_argSource V) fun _ ha => .skip fun _ => ?_
  refine .bind (calls_sizeVector hname ha) fun size hsize => .pure ?_
  refine calculated_storeLine ht (calls_resourcePick.mpr ?_)
  split <;> simp +decide [hsize]

@[simp] theorem calls_uint {n : UInt32} : (c.uint n).Calls V :=
  calls_literal

theorem gives_memory {id : OperandId} :
    Gives (fun m => ∃ op, c.program.operands[id]? = some op ∧ c.Locates op m) (c.memory id) := by
  refine .bind gives_operand fun op hop => .bind gives_orUnresolved fun slot hslot => ?_
  cases hr : op.register
  case resource => exact .skip fun _ => .pure ⟨op, hop, _, rfl, rfl⟩
  case unorderedAccessView =>
    refine .bind gives_orUnresolved fun uav huav => ?_
    cases hkind : uav.kind
    case buffer => exact .pure ⟨op, hop, _, rfl, rfl⟩
    case typed =>
      exact .pure ⟨op, hop, hr, slot, uav, hslot, huav, by rw [Uav.isTyped, hkind], rfl⟩
  case threadGroupSharedMemory => exact .skip fun _ => .skip fun _ => .pure ⟨op, hop, _, rfl, rfl⟩
  all_goals exact .error

theorem calls_wordAt {array first : Expr} {k : Nat} (ha : array.Calls V) (hf : first.Calls V) :
    (c.wordAt array first k).Calls V := by
  refine Expr.calls_index.mpr ⟨ha, ?_⟩
  split <;> simp [hf]

theorem calls_wordAddress (V : Vocabulary) {layout : MemoryLayout} :
    Gives (Expr.Calls V) (c.wordAddress layout inst i) := by
  refine .bind (calls_argSource V) fun _ ha => ?_
  cases layout
  case raw => exact .pure (by simp [rawWord, ha])
  case structured =>
    exact .bind (calls_argSource V) fun _ hb => .pure (by simp [structuredWord, ha, hb])

theorem calculated_loadBuffer :
    Gives (Calculated V (c.program.drops inst 0)) (c.loadBuffer inst) := by
  refine .skip fun id => .bind gives_memory fun memory hm => ?_
  obtain ⟨_, _, hm⟩ := hm
  cases memory
  case image => exact .error
  case words =>
    obtain ⟨name, rfl, _⟩ := hm
    refine calculated_withDestination fun dst ht => .bind (calls_wordAddress V) fun _ hfirst => ?_
    refine .skip fun _ => .pure (calculated_storeLine ht ?_)
    exact calls_construct (List.forall_mem_map.mpr fun _ _ => calls_wordAt Expr.calls_var hfirst)

theorem calculated_storeBuffer :
    Gives (Calculated V (c.program.storesNothing inst)) (c.storeBuffer inst) := by
  refine .bind gives_arg fun id hid => .bind gives_memory fun memory hm => ?_
  obtain ⟨_, _, hm⟩ := hm
  cases memory
  case image => exact .error
  case words array layout =>
    obtain ⟨name, rfl, hname⟩ := hm
    refine .bind gives_operand fun op hop => .bind (calls_wordAddress V) fun first hfirst => ?_
    have hnothing : c.program.storesNothing inst = op.selection.writeMask.components.isEmpty := by
      simp [Program.storesNothing, Program.operandOf?, hid, hop, WriteMask.isEmpty]
    rw [hnothing]
    refine .mono (.mapM (R := Line.Calculates V) fun k _ => ?_) fun lines hlines =>
      .of_filled ⟨?_, hlines.right⟩
    case refine_1 =>
      have htarget : (c.wordAt (.var name) first k).Targets V :=
        ⟨List.forall_mem_singleton.mpr (V.sets hname), calls_wordAt Expr.calls_var hfirst⟩
      exact .bind (calls_argSource V) fun _ hv =>
        .pure ⟨_, Stmt.calls_assign.mpr ⟨htarget, hv⟩, rfl⟩
    case refine_2 =>
      rw [Bool.eq_iff_iff, List.isEmpty_iff_length_eq_zero, List.isEmpty_iff_length_eq_zero,
        hlines.left]

section Images

variable {id : OperandId} {op : Operand} {slot : UInt32} {a : UavAccess} {array : Expr}
variable {type : ValueType}

theorem calls_access {function : String} {args : List Expr} (ha : inst.opcode.uavAccess? = some a)
    (hid : inst.operands[a.operand]? = some id) (hop : c.program.operands[id]? = some op)
    (hm : c.Locates op (.image array dimension type)) (hp : a.Permits function)
    (hargs : ∀ e ∈ args, e.Calls (c.vocabulary inst)) :
    (Expr.call function (array :: args)).Calls (c.vocabulary inst) := by
  obtain ⟨hr, slot, u, hslot, hu, ht, rfl⟩ := hm
  have hnames := hr ▸ Program.slotOf_eq hid hop hslot
  exact Expr.calls_call.mpr
    ⟨.inr (.image ha hp hnames hu ht), List.forall_mem_cons.mpr ⟨Expr.calls_var, hargs⟩⟩

theorem calculated_loadImage (h : inst.opcode.uavAccess? = some ⟨2, true, false, false⟩) :
    Gives (Calculated (c.vocabulary inst) (c.program.drops inst 0)) (c.loadImage inst) := by
  refine .bind gives_arg fun id hid => .bind gives_memory fun memory hm => ?_
  obtain ⟨op, hop, hm⟩ := hm
  cases memory
  case words => exact .error
  case image =>
    refine calculated_withDestination fun dst ht => ?_
    refine .bind (calls_argSource (c.vocabulary inst)) fun _ ha => ?_
    have hcall := calls_access h hid hop hm (.inl ⟨rfl, rfl⟩) (List.forall_mem_singleton.mpr ha)
    exact .skip fun _ => .pure (calculated_storeLine ht (calls_resourcePick.mpr hcall))

theorem calculated_storeImage (h : inst.opcode.uavAccess? = some ⟨0, false, true, false⟩) :
    Gives (Calculated (c.vocabulary inst) false) (c.storeImage inst) := by
  refine .bind gives_arg fun id hid => .bind gives_memory fun memory hm => ?_
  obtain ⟨op, hop, hm⟩ := hm
  cases memory
  case words => exact .error
  case image =>
    refine .bind (calls_argSource (c.vocabulary inst)) fun _ ha => ?_
    refine .bind (calls_argSource (c.vocabulary inst)) fun _ hv => .pure ?_
    exact .single (calls_access h hid hop hm (.inr (.inl ⟨rfl, rfl⟩)) (by simp [ha, hv]))

end Images

theorem calculated_bufferInfo :
    Gives (Calculated V (c.program.drops inst 0)) (c.bufferInfo inst) := by
  refine calculated_withDestination fun dst ht => .skip fun id => .skip fun op => ?_
  have rest {count : Expr} (hc : count.Calls V) :
      Calculated V false (c.storeLine dst (c.splat .uint dst.components.length count) .uint) :=
    calculated_storeLine ht (calls_splat.mpr hc)
  have memory {m : Memory} (h : c.memory id = .ok m) : ∃ op, c.Locates op m := by
    have hm : Gives _ (c.memory id) := gives_memory
    rw [h] at hm
    have ⟨op, _, hm⟩ := hm
    exact ⟨op, hm⟩
  dsimp only
  split
  case h_1 h | h_2 h =>
    obtain ⟨_, _, rfl, _⟩ := memory h
    exact .pure (rest (by simp +decide))
  case h_3 h =>
    obtain ⟨_, _, _, _, _, _, _, rfl⟩ := memory h
    exact .pure (rest (by simp +decide))
  case h_4 =>
    refine .ite (fun _ => .skip fun (slot, texture) => ?_) fun _ => .error
    refine .ite (fun _ => .error) fun _ => .skip fun _ => ?_
    refine .bind gives_fetchName fun name ⟨_, _, hname⟩ => ?_
    subst hname
    exact .pure (rest (by simp +decide))

theorem calculated_scalarResult {value : Expr} {type : ValueType} (hv : value.Calls V) :
    Gives (Calculated V false) (c.scalarResult inst value type) := by
  refine .bind (gives_argDestination V) fun dst? hdst => ?_
  cases dst?
  case none => exact .pure (.single hv)
  case some dst =>
    exact .pure (.single (calls_store (show Expr.Targets V dst.target from hdst.right) hv))

theorem calls_atomicArgs (V : Vocabulary) {type : ValueType} :
    Gives (fun args => ∀ e ∈ args, e.Calls V) (c.atomicArgs inst i type) := by
  refine .bind (calls_argSource V) fun _ ha => .ite (fun _ => ?_) fun _ => .pure (by simp [ha])
  exact .bind (calls_argSource V) fun _ hb => .pure (by simp [ha, hb])

theorem calls_atomicCall (h : inst.opcode.uavAccess? = some ⟨i, true, true, true⟩) :
    Gives (·.1.Calls (c.vocabulary inst)) (c.atomicCall inst i) := by
  have hname : Ordinary inst.opcode.atomicName := by
    unfold Opcode.atomicName
    split <;> decide
  refine .bind gives_arg fun id hid => .bind gives_memory fun memory hm => ?_
  obtain ⟨op, hop, hm⟩ := hm
  cases memory
  case words array layout =>
    obtain ⟨name, rfl, _⟩ := hm
    have hatomic : Common ("atomic" ++ inst.opcode.atomicName) :=
      Common.append (by decide) hname
    have word {address : Expr} (ha : address.Calls (c.vocabulary inst)) :
        Gives (·.1.Calls (c.vocabulary inst)) (do
          let args ← c.atomicArgs inst (i + 2) .uint
          return (Expr.call ("atomic" ++ inst.opcode.atomicName)
            (.index (.var name) address :: args), ValueType.uint)) :=
      .bind (calls_atomicArgs (c.vocabulary inst)) fun _ hargs =>
        .pure (by simpa [hatomic, ha] using hargs)
    refine .ite (fun _ => .error) fun _ => ?_
    refine .bind (calls_argSource (c.vocabulary inst)) fun _ ha => ?_
    cases layout
    case raw => exact word (by simp [rawWord, ha])
    case structured =>
      exact .bind (calls_argSource (c.vocabulary inst)) fun _ hb =>
        word (by simp [structuredWord, ha, hb])
  case image =>
    refine .skip fun _ => .bind (calls_argSource (c.vocabulary inst)) fun _ ha => ?_
    refine .bind (calls_atomicArgs (c.vocabulary inst)) fun _ hargs => .pure ?_
    exact calls_access h hid hop hm (.inr (.inr ⟨rfl, _, hname, rfl⟩))
      (List.forall_mem_cons.mpr ⟨ha, hargs⟩)

theorem calculated_atomic (h : inst.opcode.uavAccess? =
    some ⟨if inst.opcode.isReturningAtomic then 1 else 0, true, true, true⟩) :
    Gives (Calculated (c.vocabulary inst) false) (c.atomic inst) := by
  refine .ite (fun hr => ?_) fun hr => ?_
  case refine_1 =>
    rw [if_pos hr] at h
    exact .bind (calls_atomicCall h) fun (_, _) hcall => calculated_scalarResult hcall
  case refine_2 =>
    rw [if_neg hr] at h
    exact .bind (calls_atomicCall h) fun (_, _) hcall => .pure (.single hcall)

theorem calculated_counter : Gives (Calculated V false) (c.counter inst) := by
  refine .skip fun id => .skip fun op => .skip fun slot => calculated_scalarResult ?_
  split <;> simp +decide

end Context

end ShaderLift
