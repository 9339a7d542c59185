import ShaderLift.Lift.Memory
import ShaderLift.Proofs.Invariance.Arithmetic

/-!
Textures, buffers, images and shared memory do not depend on declarations and places, beyond what
has been collected from them.
-/

namespace ShaderLift

open Glsl

namespace Context

variable {strict : Prop} {c : Context} {m : Move} {inst : Instruction} {id : OperandId}

variable (h : m.Keeps strict c) {dimension : ResourceDimension} {lookup : Lookup}

include h

theorem agrees_texture : Agrees strict (c.texture id) ((c.move m).texture id) :=
  .same fun _ => .bind (agrees_orUnresolved h) fun _ =>
    .bind (agrees_orUnresolved h) fun _ => .refl _

theorem agrees_legacyFunction {shadow : Bool} :
    Emit.Agrees strict (c.legacyFunction dimension shadow lookup)
      ((c.move m).legacyFunction dimension shadow lookup) := by
  unfold legacyFunction
  cases dimension.legacyLookup? shadow
  case' none => refine .bind (.lift (agrees_require h)) fun _ => ?_
  all_goals
    refine .same fun _ => .ite (.refl _) (.ite (.refl _) ?_)
    exact .bind (.lift (agrees_require h)) fun _ => .refl _

theorem agrees_lookupFunction {shadow : Bool} {hasOffset : Bool} :
    Emit.Agrees strict (c.lookupFunction dimension shadow lookup hasOffset)
      ((c.move m).lookupFunction dimension shadow lookup hasOffset) := by
  refine .ite (.refl _) (.ite (.bind (.lift (agrees_require h)) fun _ => ?_) ?_)
  all_goals exact agrees_legacyFunction h

theorem agrees_compareCoord {coord reference : Expr} :
    Agrees strict (c.compareCoord dimension coord reference)
      ((c.move m).compareCoord dimension coord reference) := by
  cases dimension <;> first | exact .refl _ | exact .error h.unsupported

variable {s : SampleCall}

theorem agrees_sampleFunction :
    Emit.Agrees strict (c.sampleFunction s lookup) ((c.move m).sampleFunction s lookup) :=
  agrees_lookupFunction h

theorem agrees_sampleLevelZero :
    Emit.Agrees strict (c.sampleLevelZero s) ((c.move m).sampleLevelZero s) := by
  refine .ite (.throw h.unsupported) (.bind (.lift (agrees_argSource h)) fun _ => ?_)
  refine .bind (.lift (agrees_compareCoord h)) fun (_, _) => ?_
  dsimp only
  cases s.dimension <;> exact .bind (agrees_sampleFunction h) fun _ => .refl _

theorem agrees_sampleValue :
    Emit.Agrees strict (c.sampleValue s) ((c.move m).sampleValue s) := by
  have gatherCompare {gather : String} {i : Nat} :
      Agrees strict
        (do
          c.require .textureGather
          let reference ← c.argSource s.inst i .float [0]
          return SampleValue.mk (.call gather ([s.sampler, s.coord, reference] ++ s.offset)) .float
            false)
        (do
          (c.move m).require .textureGather
          let reference ← (c.move m).argSource s.inst i .float [0]
          return SampleValue.mk (.call gather ([s.sampler, s.coord, reference] ++ s.offset)) .float
            false) :=
    .bind (agrees_require h) fun _ => .bind (agrees_argSource h) fun _ => .refl _
  unfold sampleValue
  dsimp only
  cases s.inst.opcode
  case sample => exact .bind (agrees_sampleFunction h) fun _ => .refl _
  case sampleB | sampleL =>
    exact .bind (.lift (agrees_argSource h)) fun _ =>
      .bind (agrees_sampleFunction h) fun _ => .refl _
  case sampleD =>
    exact .bind (.lift (agrees_argSource h)) fun _ => .bind (.lift (agrees_argSource h)) fun _ =>
      .bind (agrees_sampleFunction h) fun _ => .refl _
  case sampleC =>
    refine .bind (.lift (agrees_argSource h)) fun _ => ?_
    refine .bind (.lift (agrees_compareCoord h)) fun (_, _) => ?_
    exact .bind (agrees_sampleFunction h) fun _ => .refl _
  case sampleCLz => exact agrees_sampleLevelZero h
  case gather4C | gather4PoC => exact .lift gatherCompare
  all_goals exact .bind (.lift (agrees_require h)) fun _ => .refl _

theorem agrees_samplePair {operands : SampleOperands} {position : Nat} :
    Agrees strict (c.samplePair inst operands position)
      ((c.move m).samplePair inst operands position) :=
  .same fun _ => .bind (agrees_texture h) fun (_, _) => .same fun _ => .same fun _ =>
    .bind (agrees_orUnresolved h) fun _ => .bind (agrees_orUnresolved h) fun _ => .refl _

theorem agrees_sample {operands : SampleOperands} {position : Nat} :
    Emit.Agrees strict (c.sample inst operands position)
      ((c.move m).sample inst operands position) := by
  refine .bind (.lift (agrees_samplePair h)) fun (texture, key, sampler) => ?_
  refine .bind (.lift (agrees_argDestination h)) fun dst => ?_
  cases dst
  case none => exact .refl _
  case some dst =>
    refine .bind (.lift (agrees_argSource h)) fun coord => ?_
    extract_lets rest rest'
    have hrest (offset : List Expr) : Emit.Agrees strict (rest offset) (rest' offset) :=
      .bind (agrees_sampleValue h) fun _ => .refl _
    cases inst.opcode
    case gather4Po | gather4PoC =>
      exact .bind (.lift (agrees_argSource h)) fun _ => .same hrest
    all_goals exact .same hrest

theorem agrees_fetchName {slot : UInt32} :
    Agrees strict (c.fetchName slot) ((c.move m).fetchName slot) :=
  .bind (agrees_orUnresolved h) fun _ => .refl _

theorem agrees_loadTexel : Agrees strict (c.loadTexel inst) ((c.move m).loadTexel inst) := by
  refine .bind (agrees_require h) fun _ => .same fun id => .bind (agrees_texture h) fun (_, t) => ?_
  refine .bind (agrees_fetchName h) fun name => agrees_withDestination h fun dst => ?_
  refine .bind (agrees_argSource h) fun _ => .ite (.refl _) (.ite ?_ ?_)
  all_goals exact .bind (agrees_argSource h) fun _ => .refl _

theorem agrees_queryLod : Agrees strict (c.queryLod inst) ((c.move m).queryLod inst) := by
  refine .ite (.error h.unsupported) (.bind (agrees_require h) fun _ => ?_)
  refine .bind (agrees_samplePair h) fun (_, _, _) => agrees_withDestination h fun dst => ?_
  exact .bind (agrees_argSource h) fun _ => .refl _

theorem agrees_sizeVector {name mip : Expr} {wantsLevels : Bool} :
    Agrees strict (c.sizeVector name mip dimension wantsLevels)
      ((c.move m).sizeVector name mip dimension wantsLevels) :=
  .ite (.refl _) (.ite (.refl _) (.bind (agrees_require h) fun _ => .refl _))

theorem agrees_sizeInfo : Agrees strict (c.sizeInfo inst) ((c.move m).sizeInfo inst) := by
  refine .bind (agrees_require h) fun _ => .same fun id => .bind (agrees_texture h) fun (_, t) => ?_
  refine .bind (agrees_fetchName h) fun name => agrees_withDestination h fun dst => ?_
  refine .bind (agrees_argSource h) fun _ => .same fun _ => ?_
  exact .bind (agrees_sizeVector h) fun _ => .refl _

theorem agrees_memory : Agrees strict (c.memory id) ((c.move m).memory id) := by
  refine .same fun op => .bind (agrees_orUnresolved h) fun slot => ?_
  cases op.register
  case resource | unorderedAccessView => exact .bind (agrees_orUnresolved h) fun _ => .refl _
  case threadGroupSharedMemory =>
    exact .bind (agrees_require h) fun _ => .bind (agrees_orUnresolved h) fun _ => .refl _
  all_goals exact .error h.unsupported

theorem agrees_wordAddress {layout : MemoryLayout} {i : Nat} :
    Agrees strict (c.wordAddress layout inst i) ((c.move m).wordAddress layout inst i) := by
  refine .bind (agrees_argSource h) fun _ => ?_
  cases layout
  case raw => exact .refl _
  case structured => exact .bind (agrees_argSource h) fun _ => .refl _

theorem agrees_loadBuffer : Agrees strict (c.loadBuffer inst) ((c.move m).loadBuffer inst) := by
  refine .same fun id => .bind (agrees_memory h) fun memory => ?_
  cases memory
  case image => exact .error h.unsupported
  case words =>
    exact agrees_withDestination h fun _ => .bind (agrees_wordAddress h) fun _ => .refl _

theorem agrees_storeBuffer : Agrees strict (c.storeBuffer inst) ((c.move m).storeBuffer inst) := by
  refine .same fun id => .bind (agrees_memory h) fun memory => ?_
  cases memory
  case image => exact .error h.unsupported
  case words =>
    refine .same fun _ => .bind (agrees_wordAddress h) fun _ => .mapM fun _ => ?_
    exact .bind (agrees_argSource h) fun _ => .refl _

theorem agrees_loadImage : Agrees strict (c.loadImage inst) ((c.move m).loadImage inst) := by
  refine .same fun id => .bind (agrees_memory h) fun memory => ?_
  cases memory
  case words => exact .error h.unsupported
  case image =>
    exact agrees_withDestination h fun _ => .bind (agrees_argSource h) fun _ => .refl _

theorem agrees_storeImage : Agrees strict (c.storeImage inst) ((c.move m).storeImage inst) := by
  refine .same fun id => .bind (agrees_memory h) fun memory => ?_
  cases memory
  case words => exact .error h.unsupported
  case image =>
    exact .bind (agrees_argSource h) fun _ => .bind (agrees_argSource h) fun _ => .refl _

theorem agrees_bufferInfo : Agrees strict (c.bufferInfo inst) ((c.move m).bufferInfo inst) := by
  refine agrees_withDestination h fun dst => .same fun id => .same fun op => ?_
  -- What is no memory may be a texture, so errors are looked at here.
  have hmemory : Agrees strict (c.memory id) ((c.move m).memory id) := agrees_memory h
  rcases hmemory.cases with ⟨memory, hx, hy⟩ | ⟨e, e', hx, hy, he⟩ <;> rw [hx, hy]
  case inl =>
    cases memory
    case words layout => cases layout <;> exact .refl _
    case image => exact .refl _
  case inr =>
    refine .ite (.bind (agrees_texture h) fun (_, _) => .ite (.error h.unsupported) ?_) (.error he)
    exact .bind (agrees_require h) fun _ => .bind (agrees_fetchName h) fun _ => .refl _

theorem agrees_scalarResult {value : Expr} {type : ValueType} :
    Agrees strict (c.scalarResult inst value type) ((c.move m).scalarResult inst value type) :=
  .bind (agrees_argDestination h) fun _ => .refl _

theorem agrees_atomicArgs {i : Nat} {type : ValueType} :
    Agrees strict (c.atomicArgs inst i type) ((c.move m).atomicArgs inst i type) :=
  .bind (agrees_argSource h) fun _ =>
    .ite (.bind (agrees_argSource h) fun _ => .refl _) (.refl _)

theorem agrees_atomicCall {i : Nat} :
    Agrees strict (c.atomicCall inst i) ((c.move m).atomicCall inst i) := by
  refine .same fun id => .bind (agrees_memory h) fun memory => ?_
  cases memory
  case words array layout =>
    refine .ite (.error h.unsupported) (.bind (agrees_argSource h) fun _ => ?_)
    cases layout
    case' structured => refine .bind (agrees_argSource h) fun _ => ?_
    all_goals exact .same fun _ => .bind (agrees_atomicArgs h) fun _ => .refl _
  case image =>
    refine .bind (agrees_require h) fun _ => .bind (agrees_argSource h) fun _ => ?_
    exact .bind (agrees_atomicArgs h) fun _ => .refl _

theorem agrees_atomic : Agrees strict (c.atomic inst) ((c.move m).atomic inst) :=
  .ite (.bind (agrees_atomicCall h) fun (_, _) => agrees_scalarResult h)
    (.bind (agrees_atomicCall h) fun (_, _) => .refl _)

theorem agrees_counter : Agrees strict (c.counter inst) ((c.move m).counter inst) :=
  .same fun _ => .same fun _ => .bind (agrees_orUnresolved h) fun _ => agrees_scalarResult h

end Context

end ShaderLift
