import ShaderLift.Proofs.Bounds.Arithmetic

/-!
Textures, buffers, images and shared memory stay in range, with one exception: fetching a texel of a
multisampled texture reads the number of the sample from a fourth operand, which only the
instruction for such textures has.
-/

namespace ShaderLift

open Glsl

theorem ResourceDimension.offsetCount_le (d : ResourceDimension) : d.offsetCount ≤ 3 := by
  cases d <;> decide

-- Memory is named by a variable other than a register file.
def Memory.Outside : Memory → Prop
  | .words array _ => ∃ name, array = .var name ∧ ∀ file, name ≠ .file file
  | .image e _ _ => ∃ name, e = .var name

namespace Context

variable {c : Context} {inst : Instruction} {dimension : ResourceDimension} {layout : MemoryLayout}

-- The texture that an instruction fetches from has several samples for each texel.
def FetchesSample (c : Context) (inst : Instruction) : Prop :=
  ∃ id op slot texture, inst.operands[2]? = some id ∧ c.program.operands[id]? = some op ∧
    op.slot? = some slot ∧ c.resources.textures.get? slot = some texture ∧
    texture.dimension.isMultisampled

theorem stays_texture (h : c.program.Closed) {id : OperandId} (hid : c.program.Reaches id) :
    c.Stays (fun (slot, texture) => ∃ op, c.program.operands[id]? = some op ∧ op.slot? = some slot ∧
      c.resources.textures.get? slot = some texture) (c.texture id) := by
  refine .bind (stays_operand h hid) fun op hop => ?_
  refine .bind stays_orUnresolved fun slot hslot => ?_
  exact .bind stays_orUnresolved fun texture htexture => .pure ⟨op, hop, hslot, htexture⟩

theorem stays_fetchName {slot : UInt32} : c.Stays c.Admits (c.fetchName slot) :=
  .bind stays_orUnresolved fun _ _ => .pure trivial

theorem subscripts_resourcePick {op : Operand} {components : List Nat} {e : Expr}
    {A : RegisterFile → UInt32 → Prop} (he : e.Subscripts A) :
    (resourcePick op components e).Subscripts A :=
  Expr.subscripts_pick.mpr he

theorem admits_immediateOffset : ∀ e ∈ c.immediateOffset inst dimension, c.Admits e := by
  have vector {n : Nat} {offsets : List Int} : c.Admits (c.offsetVector n offsets) := by
    unfold offsetVector
    split <;> simp
  intro e he
  unfold immediateOffset at he
  split at he
  case h_1 =>
    have ⟨_, _, he⟩ := Option.map_eq_some_iff.mp he
    exact he ▸ vector
  case h_2 => cases he

theorem stays_compareCoord {dimension : ResourceDimension} {coord reference : Expr}
    (hc : c.Admits coord) (hr : c.Admits reference) :
    c.Stays (fun r => c.Admits r.1 ∧ ∀ e ∈ r.2, c.Admits e)
      (c.compareCoord dimension coord reference) := by
  cases dimension
  case texture1D | texture2D | texture1DArray | texture2DArray | textureCube | textureCubeArray =>
    exact .pure (by simp [hc, hr])
  all_goals exact trivial

theorem inRange_legacyFunction {shadow : Bool} {lookup : Lookup} :
    c.Emits (fun _ => True) (c.legacyFunction dimension shadow lookup) := by
  unfold legacyFunction
  cases dimension.legacyLookup? shadow
  case' none => refine .bind (.lift inRange_require) fun _ _ => ?_
  all_goals
    refine .bind (P := fun _ => True) (.pure trivial) fun _ _ => ?_
    refine .ite (fun _ => .pure trivial) fun _ => .ite (fun _ => .pure trivial) fun _ => ?_
    refine .bind (.lift inRange_require) fun _ _ => ?_
    cases c.has .esProfile <;> cases lookup <;> exact .bind .step fun _ _ => .pure trivial

theorem inRange_sampleFunction {s : SampleCall} {lookup : Lookup} :
    c.Emits (fun _ => True) (c.sampleFunction s lookup) := by
  refine .ite (fun _ => .pure trivial) fun _ => .ite (fun _ => ?_) fun _ => inRange_legacyFunction
  exact .bind (.lift inRange_require) fun _ _ => inRange_legacyFunction

theorem stays_memory (h : c.program.Closed) {id : OperandId} (hid : c.program.Reaches id) :
    c.Stays Memory.Outside (c.memory id) := by
  refine .bind (stays_operand h hid) fun op _ => .bind stays_orUnresolved fun slot _ => ?_
  cases op.register
  case resource => exact .bind stays_orUnresolved fun _ _ => .pure ⟨_, rfl, nofun⟩
  case unorderedAccessView =>
    refine .bind stays_orUnresolved fun uav _ => ?_
    cases uav.kind
    case buffer => exact .pure ⟨_, rfl, nofun⟩
    case typed => exact .pure ⟨_, rfl⟩
  case threadGroupSharedMemory =>
    exact .bind inRange_require fun _ _ => .bind stays_orUnresolved fun _ _ => .pure ⟨_, rfl, nofun⟩
  all_goals exact trivial

theorem admits_element {array subscript : Expr} (ha : Memory.Outside (.words array layout))
    (hs : c.Admits subscript) : c.Admits (.index array subscript) := by
  obtain ⟨name, rfl, hname⟩ := ha
  exact ⟨fun file _ hfile _ => absurd (Expr.var.inj hfile) (hname file), trivial, hs⟩

theorem admits_wordAt {array first : Expr} {k : Nat} (ha : Memory.Outside (.words array layout))
    (hf : c.Admits first) : c.Admits (c.wordAt array first k) := by
  refine admits_element ha ?_
  split <;> simp [uint, hf]

section Sample

-- What all samples of an instruction have in common subscripts register files by indices only.
structure Sampling (c : Context) (s : SampleCall) : Prop where
  sampler : c.Admits s.sampler
  coord   : c.Admits s.coord
  offset  : ∀ e ∈ s.offset, c.Admits e

variable {s : SampleCall} (h : c.program.Holds s.inst) (hs : c.Sampling s)

include h hs

theorem stays_sampleLevelZero (hn : 5 ≤ s.inst.operands.length) :
    c.Emits (fun r => c.Admits r.call) (c.sampleLevelZero s) := by
  refine .ite (fun _ => .throw trivial) fun _ => ?_
  refine .bind (.lift (stays_argSource h hn)) fun _ hr => ?_
  refine .bind (.lift (stays_compareCoord hs.coord hr)) fun (coord, _) ⟨hc, _⟩ => ?_
  have hsampler := hs.sampler
  have hoffset := hs.offset
  cases s.dimension
  case texture2DArray | textureCube =>
    exact .bind inRange_sampleFunction fun _ _ => .pure (by simpa [hc, hsampler] using hoffset)
  all_goals
    refine .bind inRange_sampleFunction fun _ _ => .pure ?_
    simp only [shadowResult]
    split <;> simpa [hc, hsampler] using hoffset

theorem stays_sampleValue : c.Emits (fun r => c.Admits r.call) (c.sampleValue s) := by
  have hsampler := hs.sampler
  have hcoord := hs.coord
  have hoffset := hs.offset
  have gatherCompare {gather : String} {i : Nat} (hi : i < s.inst.operands.length) :
      c.Stays (fun r => c.Admits r.call) (do
        c.require .textureGather
        let reference ← c.argSource s.inst i .float [0]
        return (⟨.call gather ([s.sampler, s.coord, reference] ++ s.offset), .float, false⟩ :
          SampleValue)) :=
    .bind inRange_require fun _ _ => .bind (stays_argSource h hi) fun _ ha =>
      .pure (by simpa [hsampler, hcoord, ha] using hoffset)
  have gather {f : String} : c.Admits (.call f ([s.sampler, s.coord] ++ s.offset ++
      if s.component = 0 then [] else [Expr.int s.component])) := by
    refine Expr.eachSubscripts_iff.mpr (List.forall_mem_append.mpr ⟨?_, ?_⟩)
    · exact List.forall_mem_append.mpr ⟨by simp [hsampler, hcoord], hoffset⟩
    · split <;> simp
  unfold sampleValue
  dsimp only
  cases hop : s.inst.opcode
  case sample =>
    exact .bind inRange_sampleFunction fun _ _ =>
      .pure (by simpa [hsampler, hcoord] using hoffset)
  case sampleB =>
    refine .bind (.lift (stays_argSource h (h.le hop rfl))) fun _ ha => ?_
    exact .bind inRange_sampleFunction fun _ _ =>
      .pure (by simpa [hsampler, hcoord, or_imp, forall_and, ha] using hoffset)
  case sampleL =>
    refine .bind (.lift (stays_argSource h (h.le hop rfl))) fun _ ha => ?_
    exact .bind inRange_sampleFunction fun _ _ =>
      .pure (by simpa [hsampler, hcoord, ha] using hoffset)
  case sampleD =>
    have hn : 6 ≤ s.inst.operands.length := h.le hop rfl
    refine .bind (.lift (stays_argSource h (by omega))) fun _ ha => ?_
    refine .bind (.lift (stays_argSource h hn)) fun _ hb => ?_
    exact .bind inRange_sampleFunction fun _ _ =>
      .pure (by simpa [hsampler, hcoord, ha, hb] using hoffset)
  case sampleC =>
    refine .bind (.lift (stays_argSource h (h.le hop rfl))) fun _ ha => ?_
    refine .bind (.lift (stays_compareCoord hcoord ha)) fun (coord, apart) ⟨hc, hapart⟩ => ?_
    refine .bind inRange_sampleFunction fun _ _ => .pure ?_
    have hargs : ∀ e ∈ apart ++ s.offset, c.Admits e := List.forall_mem_append.mpr ⟨hapart, hoffset⟩
    simp only [shadowResult]
    split <;> simpa [hsampler, hc] using hargs
  case sampleCLz => exact stays_sampleLevelZero h hs (h.le hop rfl)
  case gather4C | gather4PoC => exact .lift (gatherCompare (h.le hop rfl))
  all_goals exact .bind (.lift inRange_require) fun _ _ => .pure gather

end Sample

variable (h : c.program.Holds inst)

include h

theorem inRange_samplePair {operands : SampleOperands} {position : Nat}
    (ht : operands.texture < inst.operands.length) (hs : position < inst.operands.length) :
    c.InRange (c.samplePair inst operands position) := by
  refine .bind (stays_arg h ht) fun _ hid => .bind (stays_texture h.toClosed hid) fun (_, _) _ => ?_
  refine .bind (stays_arg h hs) fun _ hid => .bind (stays_operand h.toClosed hid) fun _ _ => ?_
  exact .bind stays_orUnresolved fun _ _ => .bind stays_orUnresolved fun _ _ => .pure trivial

theorem stays_sample {operands : SampleOperands} {position : Nat}
    (hn : 3 ≤ inst.operands.length) (ht : operands.texture < inst.operands.length)
    (hs : position < inst.operands.length) :
    c.Emits c.AdmitsAll (c.sample inst operands position) := by
  refine .bind (.lift (inRange_samplePair h ht hs)) fun (texture, key, sampler) _ => ?_
  refine .bind (.lift (stays_argDestination h (by omega))) fun dst? hdst => ?_
  match dst? with
  | none => exact .pure EachLine.nil
  | some dst =>
    have hd := (hdst dst rfl).right
    refine .bind (.lift (stays_argSource h (by omega))) fun coord hcoord => ?_
    extract_lets rest
    have hrest (offset : List Expr) (ho : ∀ e ∈ offset, c.Admits e) :
        c.Emits c.AdmitsAll (rest offset) := by
      refine .bind (stays_sampleValue h ⟨trivial, hcoord, ho⟩) fun result hr =>
        .ite (fun _ => .pure (admitsAll_storeLine hd (subscripts_splat.mpr hr))) fun _ => ?_
      refine .bind (.lift (stays_arg h ht)) fun _ hid => ?_
      exact .bind (.lift (stays_operand h.toClosed hid)) fun _ _ =>
        .pure (admitsAll_storeLine hd (subscripts_resourcePick hr))
    split
    case h_1 | h_2 =>
      exact .bind (.lift (stays_argSource h hn)) fun _ ha =>
        hrest _ (List.forall_mem_singleton.mpr ha)
    case h_3 => exact hrest _ fun e he => admits_immediateOffset e (Option.mem_toList.mp he)

-- Fetching a texel goes out of range only where it looks for the number of a sample.
theorem ends_loadTexel (hn : 3 ≤ inst.operands.length) :
    Ends (c.options.Excuses (inst.operands.length = 3 ∧ c.FetchesSample inst)) c.AdmitsAll
      (c.loadTexel inst) := by
  refine .bind inRange_require.excused fun _ _ => ?_
  have harg : c.Stays (fun id => inst.operands[2]? = some id ∧ c.program.Reaches id)
      (c.arg inst 2) := by
    unfold arg
    rw [List.getElem?_eq_getElem hn]
    exact ⟨rfl, .arg h.mem (List.getElem_mem hn)⟩
  refine .bind harg.excused fun id ⟨hid, hreach⟩ => ?_
  refine .bind (stays_texture h.toClosed hreach).excused fun (slot, texture) ht => ?_
  refine .bind stays_fetchName.excused fun name hname => ?_
  refine ends_withDestination h (by omega) fun dst hd => ?_
  refine .bind (stays_argSource h (by omega)).excused fun coord hcoord => ?_
  have rest {call : Expr} (hcall : c.Admits call) : c.Stays c.AdmitsAll (do
      let value := resourcePick (← c.operand id) dst.components call
      return c.storeLine dst value (texture.valueType c.dialect)) :=
    .bind (stays_operand h.toClosed hreach) fun _ _ =>
      .pure (admitsAll_storeLine hd (subscripts_resourcePick hcall))
  refine .ite (fun _ => (rest (by simp [hname, hcoord])).excused) fun _ =>
    .ite (fun hm => ?_) fun _ => ?_
  · have ⟨op, hop, hslot, htexture⟩ := ht
    have hsample : Ends (c.options.Excuses (inst.operands.length = 3 ∧ c.FetchesSample inst))
        c.program.Reaches (c.arg inst 3) := by
      unfold arg
      cases hi : inst.operands[3]?
      case some => exact .arg h.mem (List.mem_of_getElem? hi)
      case none =>
        have hlength := List.getElem?_eq_none_iff.mp hi
        exact ⟨by omega, id, op, slot, texture, hid, hop, hslot, htexture, hm⟩
    refine .bind (.bind hsample fun _ hid => (stays_source h.toClosed hid).excused) fun _ ha => ?_
    exact (rest (by simp [hname, hcoord, ha])).excused
  · refine .bind (stays_argSource h (by omega)).excused fun _ ha => ?_
    cases ho : c.immediateOffset inst texture.dimension
    case none => exact (rest (by simp [hname, hcoord, ha])).excused
    case some offset =>
      have ho := admits_immediateOffset offset ho
      exact (rest (by simp [hname, hcoord, ha, ho])).excused

theorem stays_queryLod (hn : 4 ≤ inst.operands.length) : c.Stays c.AdmitsAll (c.queryLod inst) := by
  refine .ite (fun _ => trivial) fun _ => .bind inRange_require fun _ _ => ?_
  refine .bind (inRange_samplePair h (Nat.lt_of_succ_lt hn) hn) fun (texture, key, _) _ => ?_
  refine ends_withDestination h (by omega) fun dst hd => ?_
  refine .bind (stays_argSource h (by omega)) fun _ ha => ?_
  exact .bind (stays_arg h (by omega)) fun _ hid =>
    .bind (stays_operand h.toClosed hid) fun _ _ =>
      .pure (admitsAll_storeLine hd (subscripts_resourcePick (by simp [ha])))

omit h in
theorem stays_sizeVector {name mip : Expr} {wantsLevels : Bool} (hname : c.Admits name)
    (hmip : c.Admits mip) : c.Stays c.Admits (c.sizeVector name mip dimension wantsLevels) := by
  have vector {p : Prop} [Decidable p] {n : Nat} {levels : Expr} (hl : c.Admits levels) :
      c.Admits (.call (c.vec .int 4) (.call "textureSize" (if p then [name] else [name, mip]) ::
        List.replicate n (Expr.int 0) ++ [levels])) := by
    refine Expr.eachSubscripts_iff.mpr (List.forall_mem_append.mpr ⟨?_, by simp [hl]⟩)
    refine List.forall_mem_cons.mpr ⟨by split <;> simp [hname, hmip], fun e he => ?_⟩
    rw [List.eq_of_mem_replicate he]
    exact Expr.subscripts_int
  refine .ite (fun _ => .pure (vector (by simp))) fun _ => ?_
  refine .ite (fun _ => .pure (vector (by simp))) fun _ => ?_
  exact .bind inRange_require fun _ _ => .pure (vector (by simp [hname]))

theorem stays_sizeInfo (hn : 3 ≤ inst.operands.length) : c.Stays c.AdmitsAll (c.sizeInfo inst) := by
  refine .bind inRange_require fun _ _ => .bind (stays_arg h hn) fun id hid => ?_
  refine .bind (stays_texture h.toClosed hid) fun (slot, texture) _ => ?_
  refine .bind stays_fetchName fun name hname => ends_withDestination h (by omega) fun dst hd => ?_
  refine .bind (stays_argSource h (by omega)) fun _ ha => ?_
  refine .bind (stays_operand h.toClosed hid) fun _ _ => ?_
  refine .bind (stays_sizeVector hname ha) fun size hsize => .pure ?_
  refine admitsAll_storeLine hd (subscripts_resourcePick ?_)
  split <;> simp [hsize]

theorem stays_wordAddress {i : Nat} (hi : i + 1 < inst.operands.length) :
    c.Stays c.Admits (c.wordAddress layout inst i) := by
  refine .bind (stays_argSource h (by omega)) fun _ ha => ?_
  cases layout
  case raw => exact .pure (by simp [rawWord, uint, ha])
  case structured =>
    exact .bind (stays_argSource h hi) fun _ hb => .pure (by simp [structuredWord, uint, ha, hb])

theorem stays_loadBuffer (hn : 3 ≤ inst.operands.length)
    (hs : inst.opcode ≠ .ldRaw → 4 ≤ inst.operands.length) :
    c.Stays c.AdmitsAll (c.loadBuffer inst) := by
  refine .bind (stays_arg h ?_) fun id hid => ?_
  · split
    case isTrue => exact hn
    case isFalse hop => exact hs hop
  refine .bind (stays_memory h.toClosed hid) fun memory hm => ?_
  cases memory
  case image => exact trivial
  case words =>
    refine ends_withDestination h (by omega) fun dst hd => ?_
    refine .bind (stays_wordAddress h hn) fun _ hfirst => ?_
    refine .bind (stays_operand h.toClosed hid) fun _ _ => .pure (admitsAll_storeLine hd ?_)
    exact subscripts_construct (List.forall_mem_map.mpr fun _ _ => admits_wordAt hm hfirst)

theorem stays_storeBuffer (hn : 3 ≤ inst.operands.length)
    (hs : inst.opcode ≠ .storeRaw → 4 ≤ inst.operands.length) :
    c.Stays c.AdmitsAll (c.storeBuffer inst) := by
  refine .bind (stays_arg h (by omega)) fun id hid =>
    .bind (stays_memory h.toClosed hid) fun memory hm => ?_
  cases memory
  case image => exact trivial
  case words =>
    refine .bind (stays_operand h.toClosed hid) fun _ _ => ?_
    refine .bind (stays_wordAddress h hn) fun _ hfirst => ?_
    refine (Ends.mapM (R := Line.Subscripts c.accesses) fun component _ => ?_).mono fun _ h =>
      h.right
    refine .bind (stays_argSource h ?_) fun _ ha =>
      .pure (Line.subscripts_stmt.mpr ⟨admits_wordAt hm hfirst, ha⟩)
    split
    case isTrue => exact hn
    case isFalse hop => exact hs hop

theorem stays_loadImage (hn : 3 ≤ inst.operands.length) :
    c.Stays c.AdmitsAll (c.loadImage inst) := by
  refine .bind (stays_arg h hn) fun id hid => ?_
  refine .bind (stays_memory h.toClosed hid) fun memory hm => ?_
  cases memory
  case words => exact trivial
  case image =>
    obtain ⟨name, rfl⟩ := hm
    refine ends_withDestination h (by omega) fun dst hd => ?_
    refine .bind (stays_argSource h (by omega)) fun _ ha => ?_
    exact .bind (stays_operand h.toClosed hid) fun _ _ =>
      .pure (admitsAll_storeLine hd (subscripts_resourcePick (by simp [ha])))

theorem stays_storeImage (hn : 3 ≤ inst.operands.length) :
    c.Stays c.AdmitsAll (c.storeImage inst) := by
  refine .bind (stays_arg h (by omega)) fun id hid =>
    .bind (stays_memory h.toClosed hid) fun memory hm => ?_
  cases memory
  case words => exact trivial
  case image =>
    obtain ⟨name, rfl⟩ := hm
    exact .bind (stays_argSource h (by omega)) fun _ ha =>
      .bind (stays_argSource h hn) fun _ hb => .pure (by simp [ha, hb])

theorem stays_bufferInfo (hn : 2 ≤ inst.operands.length) :
    c.Stays c.AdmitsAll (c.bufferInfo inst) := by
  refine ends_withDestination h (by omega) fun dst hd => .bind (stays_arg h hn) fun id hid => ?_
  refine .bind (stays_operand h.toClosed hid) fun op _ => ?_
  have store {count : Expr} (hc : c.Admits count) : c.AdmitsAll
      (c.storeLine dst (c.splat .uint dst.components.length count) .uint) :=
    admitsAll_storeLine hd (subscripts_splat.mpr hc)
  have hmemory := stays_memory h.toClosed hid
  cases hm : c.memory id
  case ok memory =>
    rw [hm] at hmemory
    cases memory
    case words layout =>
      obtain ⟨name, rfl, _⟩ := hmemory
      cases layout <;> exact .pure (store (by simp [uint]))
    case image =>
      obtain ⟨name, rfl⟩ := hmemory
      exact .pure (store (by simp))
  case error e =>
    rw [hm] at hmemory
    refine .ite (fun _ => ?_) fun _ => hmemory
    refine .bind (stays_texture h.toClosed hid) fun (slot, texture) _ => ?_
    refine .ite (fun _ => trivial) fun _ => .bind inRange_require fun _ _ => ?_
    exact .bind stays_fetchName fun _ hname => .pure (store (by simp [hname]))

theorem stays_scalarResult {value : Expr} {type : ValueType} (hv : c.Admits value)
    (hn : 1 ≤ inst.operands.length) : c.Stays c.AdmitsAll (c.scalarResult inst value type) := by
  refine .bind (stays_argDestination h hn) fun dst? hdst => ?_
  match dst? with
  | none => exact .pure (EachLine.singleton.mpr (Line.subscripts_stmt.mpr hv))
  | some dst => exact .pure (admitsAll_storeLine (hdst dst rfl).right hv)

theorem stays_atomicArgs {i : Nat} {type : ValueType} (hi : i < inst.operands.length)
    (hc : inst.opcode.isCompareAtomic → i + 1 < inst.operands.length) :
    c.Stays (fun args => ∀ a ∈ args, c.Admits a) (c.atomicArgs inst i type) := by
  refine .bind (stays_argSource h hi) fun _ ha => .ite (fun hop => ?_) fun _ =>
    .pure (List.forall_mem_singleton.mpr ha)
  exact .bind (stays_argSource h (hc hop)) fun _ hb => .pure (by simp [ha, hb])

theorem stays_atomicCall {i : Nat} (hi : i + 2 < inst.operands.length)
    (hc : inst.opcode.isCompareAtomic → i + 3 < inst.operands.length) :
    c.Stays (fun r => c.Admits r.1) (c.atomicCall inst i) := by
  refine .bind (stays_arg h (by omega)) fun id hid =>
    .bind (stays_memory h.toClosed hid) fun memory hm => ?_
  cases memory
  case words array layout =>
    refine .ite (fun _ => trivial) fun _ => ?_
    refine .bind (stays_argSource h (by omega)) fun first hfirst => ?_
    have rest {address : Expr} (ha : c.Admits address) : c.Stays (fun r => c.Admits r.1) (do
        let args ← c.atomicArgs inst (i + 2) .uint
        return (Expr.call ("atomic" ++ inst.opcode.atomicName) (.index array address :: args),
          ValueType.uint)) :=
      .bind (stays_atomicArgs h hi hc) fun args hargs => .pure
        (Expr.eachSubscripts_iff.mpr (List.forall_mem_cons.mpr ⟨admits_element hm ha, hargs⟩))
    cases layout
    case raw => exact rest (by simp [rawWord, uint, hfirst])
    case structured =>
      exact .bind (stays_argSource h (by omega)) fun _ hb =>
        rest (by simp [structuredWord, uint, hfirst, hb])
  case image =>
    obtain ⟨name, rfl⟩ := hm
    refine .bind inRange_require fun _ _ => .bind (stays_argSource h (by omega)) fun _ ha => ?_
    exact .bind (stays_atomicArgs h hi hc) fun args hargs => .pure (by simpa [ha] using hargs)

theorem stays_atomic (hn : 3 ≤ inst.operands.length)
    (hr : inst.opcode.isReturningAtomic → 4 ≤ inst.operands.length)
    (hc : inst.opcode.isCompareAtomic → 4 ≤ inst.operands.length)
    (hrc : inst.opcode.isReturningAtomic → inst.opcode.isCompareAtomic →
      5 ≤ inst.operands.length) : c.Stays c.AdmitsAll (c.atomic inst) := by
  refine .ite (fun hop => ?_) fun _ => ?_
  · exact .bind (stays_atomicCall h (hr hop) (hrc hop)) fun (_, _) hcall =>
      stays_scalarResult h hcall (by omega)
  · exact .bind (stays_atomicCall h hn hc) fun (_, _) hcall =>
      .pure (EachLine.singleton.mpr (Line.subscripts_stmt.mpr hcall))

theorem stays_counter (hn : 2 ≤ inst.operands.length) : c.Stays c.AdmitsAll (c.counter inst) := by
  refine .bind (stays_arg h hn) fun _ hid => .bind (stays_operand h.toClosed hid) fun _ _ => ?_
  refine .bind stays_orUnresolved fun _ _ => stays_scalarResult h ?_ (by omega)
  split <;> simp [uint]

end Context

end ShaderLift
