import ShaderLift.Proofs.Retarget.Carries

/-!
The resources of a program under more capabilities. Only constant buffers change: one whose
variables had names may become an array of registers, because blocks have layout rules of their own,
but an array of registers stays one. The types of temporary registers change too, which nothing
depends on.
-/

namespace ShaderLift

open Glsl

variable {d d' : Dialect} {p : Program}

namespace Dialect

-- The second dialect can do what the first one can.
def Within (d d' : Dialect) : Prop :=
  d.capabilities.Subset d'.capabilities

theorem Within.allows_require (h : d.Within d') {f : Feature} {i i' : Option Nat} :
    Allows (d.require f i) (d'.require f i') := by
  unfold require
  split
  case h_2 => exact .error
  case h_1 cs _ =>
    unfold requireAll
    split
    case isFalse => exact .error
    case isTrue hcs =>
      have hcs : d'.hasAll cs := List.all_eq_true.mpr fun c hc => h c (List.all_eq_true.mp hcs c hc)
      rw [if_pos hcs]
      exact .pure trivial

end Dialect

namespace Member

-- Whether registers make a matrix depends on the dialect; all else of a member does not.
def plain (m : Member) : Member :=
  { m with isMatrix := false }

theorem plain_ofVariable (d d' : Dialect) (v : Variable) :
    (ofVariable d v).map plain = (ofVariable d' v).map plain := by
  unfold ofVariable
  dsimp only
  split
  case isTrue => rfl
  case isFalse =>
    cases v.type.shape <;> simp only [Option.bind_some, Option.bind_none] <;> split <;> rfl

theorem plain_ofBuffer {buffer : ConstantBuffer} :
    (ofBuffer d buffer).map (·.map plain) = (ofBuffer d' buffer).map (·.map plain) := by
  have members (d : Dialect) (vs : List Variable) :
      (vs.mapM (ofVariable d)).map (·.map plain) = vs.mapM fun v => (ofVariable d v).map plain := by
    induction vs
    case nil => rfl
    case cons v vs hi =>
      simp only [List.mapM_cons, ← hi]
      cases ofVariable d v <;> cases vs.mapM (ofVariable d) <;> rfl
  have sorted (ms : List Member) : (ms.mergeSort (·.offset ≤ ·.offset)).map plain =
      (ms.map plain).mergeSort (·.offset ≤ ·.offset) :=
    List.map_mergeSort fun _ _ _ _ => rfl
  have ofBuffer_eq (d : Dialect) : (ofBuffer d buffer).map (·.map plain) =
      (buffer.members.mapM fun v => (ofVariable d v).map plain).map
        (·.mergeSort (·.offset ≤ ·.offset)) := by
    rw [← members, ofBuffer, Option.map_map, Option.map_map]
    exact congrArg (Option.map · _) (funext sorted)
  simp only [ofBuffer_eq, plain_ofVariable d d']

variable {ms ms' : List Member}

theorem fits_map_plain {cursor : UInt32} : fits cursor (ms.map plain) = fits cursor ms := by
  induction ms generalizing cursor
  case nil => rfl
  case cons m ms hi => simp only [List.map_cons, fits, hi]; rfl

theorem lane_ne_uncovered {m : Member} {distance : UInt32} : m.lane d distance ≠ .uncovered := by
  unfold lane
  extract_lets register component
  split <;> nofun

theorem laneAt_eq_uncovered_iff {register : UInt32} {component : Nat} :
    laneAt d ms register component = .uncovered ↔
      (∀ m ∈ ms, ¬ covers (register * 16 + .ofNat component * 4) m) ∧
        ∀ m ∈ ms, ¬ touches register m := by
  simp only [laneAt]
  split
  case h_1 m hm =>
    refine iff_of_false lane_ne_uncovered fun h => h.left m (List.mem_of_find?_eq_some hm) ?_
    exact List.find?_some hm
  case h_2 hm =>
    have hm := List.find?_eq_none.mp hm
    split
    case isTrue ht =>
      have ⟨m, hm, ht⟩ := List.any_eq_true.mp ht
      exact iff_of_false nofun fun h => h.right m hm ht
    case isFalse ht =>
      refine iff_of_true rfl ⟨hm, fun m hm h => ht ?_⟩
      exact List.any_eq_true.mpr ⟨m, hm, h⟩

theorem laneAt_eq_uncovered_congr (h : ms.map plain = ms'.map plain) {register : UInt32}
    {component : Nat} (hl : laneAt d' ms' register component = .uncovered) :
    laneAt d ms register component = .uncovered := by
  have forall_plain (P : Member → Prop) (hP : ∀ m, P m.plain ↔ P m) (h' : ∀ m ∈ ms', P m) :
      ∀ m ∈ ms, P m := by
    have hp : ∀ m ∈ ms'.map plain, P m := List.forall_mem_map.mpr fun m hm => (hP m).mpr (h' m hm)
    exact fun m hm => (hP m).mp (hp _ (h ▸ List.mem_map_of_mem hm))
  have ⟨hc, ht⟩ := laneAt_eq_uncovered_iff.mp hl
  exact laneAt_eq_uncovered_iff.mpr
    ⟨forall_plain _ (fun _ => Iff.rfl) hc, forall_plain _ (fun _ => Iff.rfl) ht⟩

end Member

namespace UniformBuffer

-- Where the second one has named members, so has the first one, in the same places.
def RetargetsTo (b b' : UniformBuffer) : Prop :=
  ∀ ms', b'.members = some ms' →
    ∃ ms, b.members = some ms ∧ ms.map Member.plain = ms'.map Member.plain

theorem retargetsTo_build (h : d.Within d') {slot size : UInt32} {dynamic : Bool}
    {buffer : Option ConstantBuffer} :
    (build d slot size dynamic buffer).RetargetsTo (build d' slot size dynamic buffer) := by
  intro ms' h'
  simp only [build] at h' ⊢
  cases dynamic
  case true => cases h'
  case false =>
    -- The first dialect has the same members; if it puts them in a block, so does the second one,
    -- where they fit.
    have ⟨hms', hfits'⟩ := Option.filter_eq_some_iff.mp h'
    have hplain : (buffer.bind (Member.ofBuffer d)).map (·.map Member.plain) =
        (buffer.bind (Member.ofBuffer d')).map (·.map Member.plain) := by
      cases buffer
      case none => rfl
      case some buffer => exact Member.plain_ofBuffer
    rw [hms'] at hplain
    have ⟨ms, hms, hplain⟩ := Option.map_eq_some_iff.mp hplain
    refine ⟨ms, Option.filter_eq_some_iff.mpr ⟨hms, ?_⟩, hplain⟩
    rw [← Member.fits_map_plain, hplain, Member.fits_map_plain]
    have hu := h .uniformBlocks
    have hg := h .globalsInUniformBlock
    simp only [makesBlock, Dialect.has] at hfits' ⊢
    grind

end UniformBuffer

namespace SortedMap

variable {κ α β : Type} [Ranked κ] {R : α → β → Prop} {m : SortedMap κ α} {m' : SortedMap κ β}

-- The same keys with related values.
def Rel (R : α → β → Prop) (m : SortedMap κ α) (m' : SortedMap κ β) : Prop :=
  List.Forall₂ (fun e e' => e.1 = e'.1 ∧ R e.2 e'.2) m.entries m'.entries

theorem Rel.insert (h : m.Rel R m') {k : κ} {a : α} {b : β} (hr : R a b) :
    (m.insert k a).Rel R (m'.insert k b) := by
  obtain ⟨entries⟩ := m
  obtain ⟨entries'⟩ := m'
  simp only [Rel, SortedMap.insert, alter] at h ⊢
  induction h
  case nil => exact .cons ⟨rfl, hr⟩ .nil
  case cons e e' es es' he hes hi =>
    simp only [alter.go, he.left]
    split_ifs
    · exact .cons ⟨rfl, hr⟩ (.cons he hes)
    · exact .cons ⟨rfl, hr⟩ hes
    · exact .cons he hi

theorem Rel.get? (h : m.Rel R m') {k : κ} {a : α} (ha : m.get? k = some a) :
    ∃ b, m'.get? k = some b ∧ R a b := by
  obtain ⟨entries⟩ := m
  obtain ⟨entries'⟩ := m'
  simp only [Rel, SortedMap.get?] at h ha ⊢
  induction h
  case nil => cases ha
  case cons e e' es es' he hes hi =>
    simp only [List.find?_cons, he.left] at ha ⊢
    split at ha
    case h_1 hk => exact ⟨e'.2, by simp, Option.some.inj ha ▸ he.right⟩
    case h_2 hk => simpa [hk] using hi ha

end SortedMap

namespace Resources

variable {r r' : Resources}

-- All but the constant buffers are the same.
def RetargetsTo (r r' : Resources) : Prop :=
  ∃ buffers, r' = { r with constantBuffers := buffers } ∧
    r.constantBuffers.Rel UniformBuffer.RetargetsTo buffers

theorem RetargetsTo.constantBuffer (h : r.RetargetsTo r') {slot : UInt32} {b : UniformBuffer}
    (hb : r.constantBuffers.get? slot = some b) :
    ∃ b', r'.constantBuffers.get? slot = some b' ∧ b.RetargetsTo b' := by
  obtain ⟨buffers, rfl, hr⟩ := h
  exact hr.get? hb

theorem RetargetsTo.declare (h : r.RetargetsTo r') (hd : d.Within d') {decl : Declared} :
    (r.declare d p decl).RetargetsTo (r'.declare d' p decl) := by
  obtain ⟨buffers, rfl, hb⟩ := h
  cases decl
  case constantBuffer => exact ⟨_, rfl, hb.insert (UniformBuffer.retargetsTo_build hd)⟩
  all_goals exact ⟨_, rfl, hb⟩

theorem RetargetsTo.sampleUse (h : r.RetargetsTo r') {i : Nat} {inst : Instruction} :
    Carries (fun a b => a.1.RetargetsTo b.1 ∧ a.2 = b.2) (r.sampleUse p i inst)
      (r'.sampleUse p i inst) := by
  obtain ⟨buffers, rfl, hb⟩ := h
  unfold Resources.sampleUse
  cases inst.opcode.sampleOperands?
  case none => exact .pure ⟨⟨_, rfl, hb⟩, rfl⟩
  case some operands =>
    refine .same fun texture => ?_
    cases texture
    case none => exact .pure ⟨⟨_, rfl, hb⟩, rfl⟩
    case some texture =>
      refine .ite (.pure ⟨⟨_, rfl, hb⟩, rfl⟩) (.ite .error ?_)
      cases operands.sampler
      case none => exact .pure ⟨⟨_, rfl, hb⟩, rfl⟩
      case some position =>
        refine .same fun sampler => ?_
        cases sampler
        case none => exact .error
        case some sampler => exact .ite .error (.pure ⟨⟨_, rfl, hb⟩, rfl⟩)

theorem RetargetsTo.uavUse (h : r.RetargetsTo r') {inst : Instruction} :
    Carries RetargetsTo (r.uavUse p inst) (r'.uavUse p inst) := by
  obtain ⟨buffers, rfl, hb⟩ := h
  unfold Resources.uavUse
  cases inst.opcode.uavAccess?
  case none => exact .pure ⟨_, rfl, hb⟩
  case some access =>
    refine .same fun slot => ?_
    cases slot <;> exact .pure ⟨_, rfl, hb⟩

theorem RetargetsTo.scan (h : r.RetargetsTo r') {fetched : List UInt32}
    {insts : List (Instruction × Nat)} :
    Carries (fun a b => a.1.RetargetsTo b.1 ∧ a.2 = b.2) (scan p r fetched insts)
      (scan p r' fetched insts) := by
  induction insts generalizing r r' fetched
  case nil => exact .pure ⟨h, rfl⟩
  case cons inst insts hi =>
    refine .bind h.sampleUse ?_
    rintro ⟨r, t⟩ ⟨r', _⟩ ⟨h, rfl⟩
    exact .bind h.uavUse fun _ _ h => hi h

theorem RetargetsTo.addFetched (h : r.RetargetsTo r') {texture : UInt32} :
    (r.addFetched texture).RetargetsTo (r'.addFetched texture) := by
  obtain ⟨buffers, rfl, hb⟩ := h
  unfold Resources.addFetched
  split <;> exact ⟨_, rfl, hb⟩

theorem carries_collect (hd : d.Within d') : Carries RetargetsTo (collect d p) (collect d' p) := by
  have declared (decls : List Declaration) {r r' : Resources} (h : r.RetargetsTo r') :
      (decls.foldl (fun r decl => r.declare d p decl.declared) r).RetargetsTo
        (decls.foldl (fun r decl => r.declare d' p decl.declared) r') := by
    induction decls generalizing r r'
    case nil => exact h
    case cons decl decls hi => exact hi (h.declare hd)
  have fetched (ts : List UInt32) {r r' : Resources} (h : r.RetargetsTo r') :
      (ts.foldl Resources.addFetched r).RetargetsTo (ts.foldl Resources.addFetched r') := by
    induction ts generalizing r r'
    case nil => exact h
    case cons t ts hi => exact hi h.addFetched
  have empty : RetargetsTo {} {} := ⟨_, rfl, List.Forall₂.nil⟩
  refine .bind (declared _ empty).scan ?_
  rintro ⟨r, ts⟩ ⟨r', _⟩ ⟨h, rfl⟩
  exact .pure (fetched ts h)

theorem allows_samplerType (hd : d.Within d') {t : Texture} {shadow : Bool} :
    Allows (t.samplerType d shadow) (t.samplerType d' shadow) := by
  unfold Texture.samplerType
  cases t.dimension.samplerName?
  case none => exact .error
  case some name =>
    obtain ⟨dimension, feature⟩ := name
    cases feature
    case' some => refine .bind hd.allows_require fun _ _ _ => ?_
    all_goals
      refine .ite (.bind hd.allows_require fun _ _ _ => .ite ?_ (.pure trivial)) (.pure trivial)
      exact .bind hd.allows_require fun _ _ _ => .pure trivial

theorem allows_uavDecls (hd : d.Within d') {slot : UInt32} {u : Uav} :
    Allows (r.uavDecls d slot u) (r'.uavDecls d' slot u) := by
  unfold uavDecls
  cases u.kind
  case typed dimension _ =>
    refine .bind hd.allows_require fun _ _ _ => ?_
    cases dimension.imageName?
    case none => exact .error
    case some => exact .pure trivial
  case buffer => exact .bind hd.allows_require fun _ _ _ => .pure trivial

theorem RetargetsTo.allows_decls (h : r.RetargetsTo r') (hd : d.Within d') :
    Allows (r.decls d) (r'.decls d') := by
  obtain ⟨buffers, rfl, hb⟩ := h
  have sampler (key : SamplerKey) (unit : Nat) : Allows (r.samplerDecl d key unit)
      (samplerDecl d' { r with constantBuffers := buffers } key unit) := by
    unfold samplerDecl
    dsimp only
    cases r.textures.get? key.texture
    case none => exact .error
    case some t => exact .bind (allows_samplerType hd) fun _ _ _ => .pure trivial
  unfold Resources.decls
  refine .bind (.each fun (key, unit) => sampler key unit) fun _ _ _ => ?_
  refine .bind (.each fun _ => .bind hd.allows_require fun _ _ _ => .pure trivial) fun _ _ _ => ?_
  exact .bind (.each fun (slot, u) => allows_uavDecls hd) fun _ _ _ => .pure trivial

end Resources

namespace Program

variable {r r' : Resources} {temps temps' : TempTypes} {inst : Instruction}

theorem allows_naturalType {id : OperandId} :
    Allows (p.naturalType d temps id) (p.naturalType d' temps' id) :=
  .same fun _ => .ite (.pure trivial) (.pure trivial)

theorem carries_resultType (h : r.RetargetsTo r') :
    Carries (Option.Rel fun _ _ => True) (p.resultType d r temps inst)
      (p.resultType d' r' temps' inst) := by
  obtain ⟨buffers, rfl, hb⟩ := h
  unfold resultType
  extract_lets natural slot texture natural' texture'
  have hnatural (i : Nat) : Carries (Option.Rel fun _ _ => True) (natural i) (natural' i) := by
    simp only [natural, natural']
    cases inst.operands[i]?
    case none => exact .pure .none
    case some id => exact .bind allows_naturalType fun _ _ _ => .pure (.some trivial)
  have htexture (i : Nat) : Carries (Option.Rel fun _ _ => True) (texture i) (texture' i) := by
    refine .same fun slot => ?_
    cases slot
    case none => exact .pure .none
    case some slot =>
      refine .ite (.pure (.some trivial)) ?_
      dsimp only
      cases r.textures.get? slot
      case none => exact .pure .none
      case some => exact .pure (.some trivial)
  cases hop : inst.opcode
  case mov | movc | swapc => exact hnatural _
  case sample | sampleB | sampleL | sampleD | gather4 | ld | ldMs | gather4Po => exact htexture _
  case ldUavTyped =>
    refine .same fun slot => ?_
    cases slot
    case none => exact .pure .none
    case some => exact .pure (.some trivial)
  -- What other instructions write does not depend on the dialect.
  all_goals exact (Carries.refl _).mono fun a _ h => h ▸ by cases a; exacts [.none, .some trivial]

theorem allows_addWrites {type type' : ValueType} {is : List Nat} :
    Allows (p.addWrites d inst type temps is) (p.addWrites d' inst type' temps' is) := by
  induction is generalizing temps temps'
  case nil => exact .pure trivial
  case cons i is hi =>
    unfold addWrites
    cases inst.operands[i]?
    case none => exact hi
    case some id =>
      refine .same fun register => ?_
      cases register
      case none => exact hi
      case some register =>
        refine .ite ?_ hi
        unfold secondResultType
        cases inst.opcode
        case swapc =>
          cases inst.operands[4]?
          case none => exact hi
          case some => exact .bind allows_naturalType fun _ _ _ => hi
        all_goals exact hi

theorem allows_writtenTemps (h : r.RetargetsTo r') {insts : List Instruction} :
    Allows (p.writtenTemps d r temps insts) (p.writtenTemps d' r' temps' insts) := by
  induction insts generalizing temps temps'
  case nil => exact .pure trivial
  case cons inst insts hi =>
    refine .bind (carries_resultType h) fun type type' ht => ?_
    cases ht
    case none => exact hi
    case some => exact .bind allows_addWrites fun _ _ _ => hi

theorem allows_temps {o o' : Options} (h : r.RetargetsTo r') (hw : o'.checked = false) :
    Allows (p.temps o d r) (p.temps o' d' r') :=
  .bind (allows_writtenTemps h) fun _ _ _ =>
    .bind (Options.allows_requireWords hw) fun _ _ _ => .same fun _ => .pure trivial

end Program

end ShaderLift
