import ShaderLift.Proofs.Retarget.Arithmetic

/-!
Textures, buffers, images and shared memory under more capabilities. Names of textures and memory
stay the same, because only constant buffers depend on the dialect.
-/

namespace ShaderLift

open Glsl

namespace Context

-- Two samples that need the same function.
structure SampleCall.RetargetsTo (s s' : SampleCall) : Prop where
  inst      : s.inst = s'.inst
  dimension : s.dimension = s'.dimension
  offset    : s.offset.isEmpty = s'.offset.isEmpty
  shadow    : s.shadow = s'.shadow

variable {c : Context} {t : Target} {inst : Instruction} {dimension : ResourceDimension}

theorem allows_compareCoord {c' : Context} {coord coord' reference reference' : Expr} :
    Allows (c.compareCoord dimension coord reference)
      (c'.compareCoord dimension coord' reference') := by
  cases dimension <;> first | exact .pure trivial | exact .error

theorem isEmpty_immediateOffset {c' : Context} :
    (c.immediateOffset inst dimension).toList.isEmpty =
      (c'.immediateOffset inst dimension).toList.isEmpty := by
  unfold immediateOffset
  cases inst.controls
  case sample controls => cases controls.offsets.filter (·.toList.any (· ≠ 0)) <;> rfl
  all_goals rfl

variable (h : t.Serves c)

include h

theorem allows_legacyFunction {shadow : Bool} {lookup : Lookup} :
    Emit.Allows (c.legacyFunction dimension shadow lookup)
      ((c.retarget t).legacyFunction dimension shadow lookup) := by
  unfold legacyFunction
  cases dimension.legacyLookup? shadow
  case' none => refine .bind (.lift (allows_require h)) fun _ _ _ => ?_
  all_goals
    refine .bind (R := fun _ _ => True) (.pure trivial) fun _ _ _ => ?_
    refine .ite (.pure trivial) (.ite (.pure trivial) ?_)
    refine .bind (.lift (allows_require h)) fun _ _ _ => ?_
    cases (c.retarget t).has .esProfile <;> cases lookup <;> exact fun _ _ _ _ => ⟨_, rfl, trivial⟩

theorem allows_lookupFunction {shadow : Bool} {lookup : Lookup} {hasOffset : Bool} :
    Emit.Allows (c.lookupFunction dimension shadow lookup hasOffset)
      ((c.retarget t).lookupFunction dimension shadow lookup hasOffset) := by
  unfold lookupFunction
  cases ho' : (c.retarget t).has .textureOverloads
  case true => exact fun _ _ _ _ => ⟨_, rfl, trivial⟩
  case false =>
    rw [h.has_eq_false ho']
    refine .ite (.pure trivial) (.ite (.bind (.lift (allows_require h)) fun _ _ _ => ?_) ?_)
    all_goals exact allows_legacyFunction h

section Sample

variable {s s' : SampleCall} (hs : s.RetargetsTo s')

include hs

theorem allows_sampleFunction {lookup : Lookup} :
    Emit.Allows (c.sampleFunction s lookup) ((c.retarget t).sampleFunction s' lookup) := by
  rw [sampleFunction, sampleFunction, hs.dimension, hs.shadow, hs.offset]
  exact allows_lookupFunction h

theorem carries_sampleLevelZero :
    Emit.Carries (fun v v' => v.isScalar = v'.isScalar) (c.sampleLevelZero s)
      ((c.retarget t).sampleLevelZero s') := by
  rw [sampleLevelZero, sampleLevelZero, hs.inst, hs.dimension]
  refine .ite .throw (.bind (.lift (allows_argSource h)) fun _ _ _ => ?_)
  refine .bind (.lift allows_compareCoord) fun (_, _) (_, _) _ => ?_
  cases s'.dimension <;> exact .bind (allows_sampleFunction h hs) fun _ _ _ => .pure rfl

theorem carries_sampleValue :
    Emit.Carries (fun v v' => v.isScalar = v'.isScalar) (c.sampleValue s)
      ((c.retarget t).sampleValue s') := by
  have gatherCompare {gather gather' : String} {i : Nat} :
      Carries (fun v v' : SampleValue => v.isScalar = v'.isScalar)
        (do
          c.require .textureGather
          let reference ← c.argSource s'.inst i .float [0]
          return ⟨.call gather ([s.sampler, s.coord, reference] ++ s.offset), .float, false⟩)
        (do
          (c.retarget t).require .textureGather
          let reference ← (c.retarget t).argSource s'.inst i .float [0]
          return ⟨.call gather' ([s'.sampler, s'.coord, reference] ++ s'.offset), .float, false⟩) :=
    .bind (allows_require h) fun _ _ _ => .bind (allows_argSource h) fun _ _ _ => .pure rfl
  rw [sampleValue, sampleValue, hs.inst, hs.dimension]
  dsimp only
  cases s'.inst.opcode
  case sample => exact .bind (allows_sampleFunction h hs) fun _ _ _ => .pure rfl
  case sampleB | sampleL =>
    exact .bind (.lift (allows_argSource h)) fun _ _ _ =>
      .bind (allows_sampleFunction h hs) fun _ _ _ => .pure rfl
  case sampleD =>
    refine .bind (.lift (allows_argSource h)) fun _ _ _ => ?_
    refine .bind (.lift (allows_argSource h)) fun _ _ _ => ?_
    exact .bind (allows_sampleFunction h hs) fun _ _ _ => .pure rfl
  case sampleC =>
    refine .bind (.lift (allows_argSource h)) fun _ _ _ => ?_
    refine .bind (.lift allows_compareCoord) fun (_, _) (_, _) _ => ?_
    exact .bind (allows_sampleFunction h hs) fun _ _ _ => .pure rfl
  case sampleCLz => exact carries_sampleLevelZero h hs
  case gather4C | gather4PoC => exact .lift gatherCompare
  all_goals exact .bind (.lift (allows_require h)) fun _ _ _ => .pure rfl

end Sample

theorem allows_sample {operands : SampleOperands} {position : Nat} :
    Emit.Allows (c.sample inst operands position)
      ((c.retarget t).sample inst operands position) := by
  refine .same fun (texture, key, sampler) => ?_
  refine .bind (.lift (carries_argDestination h)) fun _ _ hd => ?_
  cases hd
  case none => exact .pure trivial
  case some dst dst' hd =>
    refine .bind (.lift (allows_argSource h)) fun coord coord' _ => ?_
    extract_lets rest rest'
    have hrest (offset offset' : List Expr) (ho : offset.isEmpty = offset'.isEmpty) :
        Emit.Allows (rest offset) (rest' offset') := by
      refine .bind (carries_sampleValue h ⟨rfl, rfl, ho, rfl⟩) fun result result' hr => ?_
      rw [hr]
      exact .ite (.pure trivial) (.same fun _ => .same fun _ => .pure trivial)
    have fixed : Emit.Allows (pure (c.immediateOffset inst texture.dimension).toList >>= rest)
        (pure ((c.retarget t).immediateOffset inst texture.dimension).toList >>= rest') :=
      .bind (.pure isEmpty_immediateOffset) hrest
    cases inst.opcode
    case gather4Po | gather4PoC =>
      exact .bind (.lift (allows_argSource h)) fun e e' _ =>
        .bind (R := fun o o' : List Expr => o.isEmpty = o'.isEmpty) (.pure rfl) hrest
    all_goals exact fixed

theorem allows_loadTexel : Allows (c.loadTexel inst) ((c.retarget t).loadTexel inst) := by
  refine .bind (allows_require h) fun _ _ _ => ?_
  refine .same fun id => .same fun (slot, texture) => .same fun name => ?_
  refine allows_withDestination h fun dst dst' hd => .bind (allows_argSource h) fun _ _ _ => ?_
  refine .ite ?_ (.ite (.bind (allows_argSource h) fun _ _ _ => ?_)
    (.bind (allows_argSource h) fun _ _ _ => ?_))
  case' refine_3 =>
    cases c.immediateOffset inst texture.dimension <;>
      cases (c.retarget t).immediateOffset inst texture.dimension
  all_goals
    exact .bind (R := fun _ _ => True) (.pure trivial) fun _ _ _ => .same fun _ => .pure trivial

theorem allows_queryLod : Allows (c.queryLod inst) ((c.retarget t).queryLod inst) := by
  refine .ite .error (.bind (allows_require h) fun _ _ _ => .same fun (texture, key, _) => ?_)
  refine allows_withDestination h fun dst dst' _ => .bind (allows_argSource h) fun _ _ _ => ?_
  exact .same fun _ => .same fun _ => .pure trivial

theorem allows_sizeVector {name name' mip mip' : Expr} {wantsLevels : Bool} :
    Allows (c.sizeVector name mip dimension wantsLevels)
      ((c.retarget t).sizeVector name' mip' dimension wantsLevels) := by
  refine .ite ?_ (.ite ?_ (.bind (allows_require h) fun _ _ _ => ?_))
  all_goals exact .pure trivial

theorem allows_sizeInfo : Allows (c.sizeInfo inst) ((c.retarget t).sizeInfo inst) := by
  refine .bind (allows_require h) fun _ _ _ => ?_
  refine .same fun id => .same fun (slot, texture) => .same fun name => ?_
  refine allows_withDestination h fun dst dst' hd => .bind (allows_argSource h) fun _ _ _ => ?_
  rw [hd]
  exact .same fun _ => .bind (allows_sizeVector h) fun _ _ _ => .pure trivial

theorem carries_memory {id : OperandId} :
    Carries Eq (c.memory id) ((c.retarget t).memory id) := by
  refine .same fun op => .same fun slot => ?_
  cases op.register
  case threadGroupSharedMemory => exact .bind (allows_require h) fun _ _ _ => .refl _
  all_goals exact .refl _

theorem allows_wordAddress {layout : MemoryLayout} {i : Nat} :
    Allows (c.wordAddress layout inst i) ((c.retarget t).wordAddress layout inst i) := by
  refine .bind (allows_argSource h) fun _ _ _ => ?_
  cases layout
  case raw => exact .pure trivial
  case structured => exact .bind (allows_argSource h) fun _ _ _ => .pure trivial

theorem allows_loadBuffer : Allows (c.loadBuffer inst) ((c.retarget t).loadBuffer inst) := by
  refine .same fun id => .bind (carries_memory h) ?_
  rintro memory _ rfl
  cases memory
  case image => exact .error
  case words =>
    refine allows_withDestination h fun dst dst' _ => .bind (allows_wordAddress h) fun _ _ _ => ?_
    exact .same fun _ => .pure trivial

theorem allows_storeBuffer : Allows (c.storeBuffer inst) ((c.retarget t).storeBuffer inst) := by
  refine .same fun id => .bind (carries_memory h) ?_
  rintro memory _ rfl
  cases memory
  case image => exact .error
  case words =>
    refine .same fun _ => .bind (allows_wordAddress h) fun _ _ _ => ?_
    refine Carries.mono (.each fun _ => ?_) fun _ _ _ => trivial
    exact .bind (allows_argSource h) fun _ _ _ => .pure trivial

theorem allows_loadImage : Allows (c.loadImage inst) ((c.retarget t).loadImage inst) := by
  refine .same fun id => .bind (carries_memory h) ?_
  rintro memory _ rfl
  cases memory
  case words => exact .error
  case image =>
    refine allows_withDestination h fun dst dst' _ => .bind (allows_argSource h) fun _ _ _ => ?_
    exact .same fun _ => .pure trivial

theorem allows_storeImage : Allows (c.storeImage inst) ((c.retarget t).storeImage inst) := by
  refine .same fun id => .bind (carries_memory h) ?_
  rintro memory _ rfl
  cases memory
  case words => exact .error
  case image =>
    exact .bind (allows_argSource h) fun _ _ _ =>
      .bind (allows_argSource h) fun _ _ _ => .pure trivial

theorem allows_bufferInfo : Allows (c.bufferInfo inst) ((c.retarget t).bufferInfo inst) := by
  refine allows_withDestination h fun dst dst' _ => .same fun id => .same fun op => ?_
  cases hm' : (c.retarget t).memory id
  case ok memory =>
    cases memory
    case words layout => cases layout <;> exact fun _ _ => ⟨_, rfl, trivial⟩
    case image => exact fun _ _ => ⟨_, rfl, trivial⟩
  case error =>
    cases hm : c.memory id
    case ok memory =>
      have ⟨_, h', _⟩ := carries_memory h memory hm
      cases h'.symm.trans hm'
    case error =>
      refine .ite (.same fun (slot, texture) => .ite .error ?_) .error
      exact .bind (allows_require h) fun _ _ _ => .same fun _ => .pure trivial

theorem allows_scalarResult {value value' : Expr} {type type' : ValueType} :
    Allows (c.scalarResult inst value type) ((c.retarget t).scalarResult inst value' type') := by
  refine .bind (carries_argDestination h) fun _ _ hd => ?_
  cases hd <;> exact .pure trivial

theorem allows_atomicArgs {i : Nat} {type type' : ValueType} :
    Allows (c.atomicArgs inst i type) ((c.retarget t).atomicArgs inst i type') := by
  refine .bind (allows_argSource h) fun _ _ _ => .ite ?_ (.pure trivial)
  exact .bind (allows_argSource h) fun _ _ _ => .pure trivial

theorem allows_atomicCall {i : Nat} :
    Allows (c.atomicCall inst i) ((c.retarget t).atomicCall inst i) := by
  refine .same fun id => .bind (carries_memory h) ?_
  rintro memory _ rfl
  cases memory
  case words array layout =>
    refine .ite .error (.bind (allows_argSource h) fun _ _ _ => ?_)
    cases layout
    case' structured => refine .bind (allows_argSource h) fun _ _ _ => ?_
    all_goals
      refine .bind (R := fun _ _ => True) (.pure trivial) fun _ _ _ => ?_
      exact .bind (allows_atomicArgs h) fun _ _ _ => .pure trivial
  case image =>
    refine .bind (allows_require h) fun _ _ _ => .bind (allows_argSource h) fun _ _ _ => ?_
    exact .bind (allows_atomicArgs h) fun _ _ _ => .pure trivial

theorem allows_atomic : Allows (c.atomic inst) ((c.retarget t).atomic inst) := by
  refine .ite (.bind (allows_atomicCall h) fun (_, _) (_, _) _ => allows_scalarResult h) ?_
  exact .bind (allows_atomicCall h) fun (_, _) (_, _) _ => .pure trivial

theorem allows_counter : Allows (c.counter inst) ((c.retarget t).counter inst) :=
  .same fun _ => .same fun _ => .same fun _ => allows_scalarResult h

end Context

end ShaderLift
