import ShaderLift.Proofs.Bounds.Sources
import ShaderLift.Proofs.Lift.Resources
import ShaderLift.Proofs.SortedMap

/-!
What is worked out about a program before its instructions are lifted stays in range: its resources,
the types of its registers, and how many there are. Samplers are declared for declared textures
only.
-/

namespace ShaderLift

open Glsl

namespace SortedMap

variable {κ α : Type} [Ranked κ] {m : SortedMap κ α} {k : κ}

theorem isSome_get?_of_contains (h : m.contains k) : (m.get? k).isSome := by
  rw [get?, Option.isSome_map, List.find?_isSome]
  exact List.any_eq_true.mp h

end SortedMap

namespace Resources

-- Every sampler reads a texture that is declared.
def Paired (r : Resources) : Prop :=
  ∀ key ∈ r.pairs.keys, (r.textures.get? key.texture).isSome

variable {d : Dialect} {p : Program} {r : Resources} {inst : Instruction} {o : Options}

theorem paired_declarations {decls : List Declaration} :
    (decls.foldl (fun (r : Resources) decl => r.declare d p decl.declared) {}).Paired := by
  have hpairs : (decls.foldl (fun (r : Resources) decl =>
      r.declare d p decl.declared) {}).pairs = .empty := by
    refine List.foldlRecOn (motive := fun r : Resources => r.pairs = .empty) decls _ rfl ?_
    intro r hr decl _
    cases decl.declared <;> exact hr
  intro key hkey
  rw [hpairs] at hkey
  cases hkey

-- A texture that is read through a sampler or without one is declared.
theorem Paired.insert (h : r.Paired) {key : SamplerKey}
    (ht : (r.textures.get? key.texture).isSome) :
    ({ r with pairs := r.pairs.insert key () } : Resources).Paired := by
  intro key' hkey
  cases SortedMap.mem_keys_insert.mp hkey
  case inl hkey => exact hkey ▸ ht
  case inr hkey => exact h key' hkey

theorem inRange_slotOf (h : p.Holds inst) {kind : RegisterKind} {i : Nat} :
    o.InRange (p.slotOf inst kind i) := by
  unfold Program.slotOf
  cases hi : inst.operands[i]?
  case none => exact .pure trivial
  case some id =>
    have hid := h.instructions inst h.mem id (List.mem_of_getElem? hi)
    exact .bind (Program.stays_operand hid) fun _ _ => .pure trivial

-- What scanning instructions keeps, given the textures that it found to be fetched from.
structure Scanned (r r' : Resources) (fetched : List UInt32) : Prop where
  textures : r'.textures = r.textures
  paired   : r'.Paired
  fetched  : ∀ texture ∈ fetched, (r.textures.get? texture).isSome

theorem stays_sampleUse (h : p.Holds inst) (hr : r.Paired) {i : Nat} :
    o.Stays (fun (r', texture) => Scanned r r' texture.toList) (r.sampleUse p i inst) := by
  have same : Scanned r r [] := ⟨rfl, hr, List.forall_mem_nil _⟩
  unfold sampleUse
  split
  case h_2 => exact .pure same
  case h_1 operands _ =>
    refine .bind (inRange_slotOf h) fun texture _ => ?_
    cases texture
    case none => exact .pure same
    case some texture =>
      refine .ite (fun _ => .pure same) fun _ => .ite (fun _ => trivial) fun ht => ?_
      have ht := SortedMap.isSome_get?_of_contains (by simpa using ht)
      cases operands.sampler
      case none => exact .pure ⟨rfl, hr, List.forall_mem_singleton.mpr ht⟩
      case some =>
        refine .bind (inRange_slotOf h) fun sampler _ => ?_
        cases sampler
        case none => exact trivial
        case some =>
          refine .ite (fun _ => trivial) fun _ => .pure ?_
          exact ⟨rfl, hr.insert ht, List.forall_mem_nil _⟩

theorem stays_uavUse (h : p.Holds inst) (hr : r.Paired) :
    o.Stays (fun r' => Scanned r r' []) (r.uavUse p inst) := by
  have same : Scanned r r [] := ⟨rfl, hr, List.forall_mem_nil _⟩
  unfold uavUse
  split
  case h_2 => exact .pure same
  case h_1 =>
    refine .bind (inRange_slotOf h) fun slot _ => ?_
    cases slot
    case none => exact .pure same
    case some => exact .pure ⟨rfl, hr, List.forall_mem_nil _⟩

theorem stays_scan {insts : List (Instruction × Nat)} (h : ∀ x ∈ insts, p.Holds x.1) (hr : r.Paired)
    {fetched : List UInt32} (hf : ∀ texture ∈ fetched, (r.textures.get? texture).isSome) :
    o.Stays (fun (r', fetched) => Scanned r r' fetched) (scan p r fetched insts) := by
  induction insts generalizing r fetched
  case nil => exact .pure ⟨rfl, hr, hf⟩
  case cons x insts hi =>
    have ⟨hx, hinsts⟩ := List.forall_mem_cons.mp h
    refine .bind (stays_sampleUse hx hr) fun (r₁, texture) h₁ => ?_
    refine .bind (stays_uavUse hx h₁.paired) fun r₂ h₂ => ?_
    have htextures : r₂.textures = r.textures := h₂.textures.trans h₁.textures
    have hf : ∀ t ∈ texture.toList ++ fetched, (r₂.textures.get? t).isSome := by
      rw [htextures]
      exact List.forall_mem_append.mpr ⟨h₁.fetched, hf⟩
    refine (hi hinsts h₂.paired hf).mono fun (r₃, _) h₃ => ?_
    exact ⟨h₃.textures.trans htextures, h₃.paired, htextures ▸ h₃.fetched⟩

theorem Scanned.addFetched {r' : Resources} {fetched : List UInt32} (h : Scanned r r' fetched) :
    Scanned r (fetched.foldl addFetched r') [] := by
  have hr' : Scanned r r' [] := ⟨h.textures, h.paired, List.forall_mem_nil _⟩
  refine List.foldlRecOn (motive := (Scanned r · [])) fetched _ hr' fun r₁ h₁ texture ht => ?_
  unfold Resources.addFetched
  split
  case isTrue => exact h₁
  case isFalse =>
    have ht := h₁.textures ▸ h.fetched texture ht
    exact ⟨h₁.textures, h₁.paired.insert ht, List.forall_mem_nil _⟩

-- The textures of a program are those that it declares.
theorem exists_declared_of_get? {decls : List Declaration} {slot : UInt32} {texture : Texture}
    (h : (decls.foldl (fun (r : Resources) decl => r.declare d p decl.declared) {}).textures.get?
      slot = some texture) :
    ∃ decl ∈ decls, ∃ samples type,
      decl.declared = .resource slot texture.dimension samples type := by
  let Declares (r : Resources) : Prop := ∀ e ∈ r.textures.entries, ∃ decl ∈ decls,
    ∃ samples type, decl.declared = .resource e.1 e.2.dimension samples type
  suffices Declares _ from this _ (SortedMap.mem_entries_of_get? h)
  refine List.foldlRecOn (motive := Declares) decls _ (List.forall_mem_nil _) ?_
  intro r hr decl hd e he
  cases hdecl : decl.declared
  case resource slot dimension samples type =>
    rw [hdecl] at he
    cases SortedMap.mem_insert he
    case inl he => exact hr e he
    case inr he => exact ⟨decl, hd, samples, type, he ▸ hdecl⟩
  all_goals
    rw [hdecl] at he
    exact hr e he

theorem stays_collect (h : p.Closed) :
    o.Stays (fun r => r.Paired ∧ ∀ slot texture, r.textures.get? slot = some texture →
      ∃ decl ∈ p.declarations, ∃ samples type,
        decl.declared = .resource slot texture.dimension samples type) (collect d p) := by
  have hinsts : ∀ x ∈ p.instructions.zipIdx, p.Holds x.1 := fun (inst, _) hx =>
    ⟨h, List.fst_mem_of_mem_zipIdx hx⟩
  refine .bind (stays_scan hinsts paired_declarations (List.forall_mem_nil _)) fun (r, _) hr => ?_
  have hr := hr.addFetched
  refine .pure ⟨hr.paired, fun slot texture ht => ?_⟩
  rw [hr.textures] at ht
  exact exists_declared_of_get? ht

theorem inRange_samplerType {t : Texture} {shadow : Bool} : o.InRange (t.samplerType d shadow) := by
  unfold Texture.samplerType
  have rest {dimension : String} : o.InRange (do
      if shadow then
        d.require .shadowSamplers none
        if !t.dimension.canCompare then
          d.require .comparisonDimension none
        return "sampler" ++ dimension ++ "Shadow"
      else
        return (t.valueType d).letter ++ "sampler" ++ dimension) := by
    refine .ite (fun _ => .bind Dialect.inRange_require fun _ _ => ?_) fun _ => .pure trivial
    exact .ite (fun _ => .bind Dialect.inRange_require fun _ _ => .pure trivial) fun _ =>
      .pure trivial
  split
  case h_2 => exact trivial
  case h_1 dimension feature _ =>
    cases feature
    case none => exact rest
    case some => exact .bind Dialect.inRange_require fun _ _ => rest

theorem inRange_decls (h : r.Paired) : o.InRange (r.decls d) := by
  refine .bind (.mapM (R := fun _ => True) fun (key, unit) hk => ?_) fun _ _ => ?_
  · have ⟨texture, ht⟩ := Option.isSome_iff_exists.mp (h key (List.fst_mem_of_mem_zipIdx hk))
    simp only [samplerDecl, ht]
    exact .bind inRange_samplerType fun _ _ => .pure trivial
  refine .bind (.mapM (R := fun _ => True) fun slot _ => ?_) fun _ _ => ?_
  · exact .bind Dialect.inRange_require fun _ _ => .pure trivial
  refine .bind (.mapM (R := fun _ => True) fun (slot, u) _ => ?_) fun _ _ => .pure trivial
  · unfold uavDecls
    dsimp only
    cases u.kind
    case buffer => exact .bind Dialect.inRange_require fun _ _ => .pure trivial
    case typed dimension _ =>
      refine .bind Dialect.inRange_require fun _ _ => ?_
      cases dimension.imageName?
      case none => exact trivial
      case some => exact .pure trivial

end Resources

namespace Program

variable {p : Program} {d : Dialect} {inst : Instruction} {id : OperandId}
variable {kinds : List RegisterKind} {temps : TempTypes} {r : Resources} {o : Options}

theorem inRange_tempOf? (h : id < p.operands.size) : o.InRange (p.tempOf? id) :=
  .bind (stays_operand h) fun _ _ => .pure trivial

theorem inRange_resultType (h : p.Holds inst) : o.InRange (p.resultType d r temps inst) := by
  have known {i : Nat} {id : OperandId} (hi : inst.operands[i]? = some id) :
      id < p.operands.size :=
    h.instructions inst h.mem id (List.mem_of_getElem? hi)
  unfold resultType
  dsimp only
  cases inst.opcode
  case mov | movc | swapc =>
    dsimp only
    split
    case h_1 hi =>
      rw [← bind_pure_comp]
      exact .bind (inRange_naturalType (known hi)) fun _ _ => .pure trivial
    case h_2 => exact .pure trivial
  case sample | sampleB | sampleL | sampleD | gather4 | ld | ldMs | gather4Po | ldUavTyped =>
    refine .bind (P := fun _ => True) ?_ fun slot _ => ?_
    case refine_1 =>
      split
      case h_1 hi => exact .bind (stays_operand (known hi)) fun _ _ => .pure trivial
      case h_2 => exact .pure trivial
    case refine_2 =>
      cases slot
      case none => exact .pure trivial
      case some =>
        dsimp only
        repeat split
        all_goals exact .pure trivial
  all_goals exact .pure trivial

theorem inRange_addWrites (h : p.Holds inst) {type : ValueType} {is : List Nat} :
    o.InRange (p.addWrites d inst type temps is) := by
  induction is generalizing temps
  case nil => exact .pure trivial
  case cons i is hi =>
    unfold addWrites
    cases hid : inst.operands[i]?
    case none => exact hi
    case some id =>
      have hsize := h.instructions inst h.mem id (List.mem_of_getElem? hid)
      refine .bind (inRange_tempOf? hsize) fun register _ => ?_
      cases register
      case none => exact hi
      case some register =>
        refine .ite (fun _ => .bind (P := fun _ => True) ?_ fun _ _ => hi) fun _ => hi
        unfold secondResultType
        split
        case h_1 hid =>
          exact inRange_naturalType (h.instructions inst h.mem _ (List.mem_of_getElem? hid))
        case h_2 => exact .pure trivial

theorem inRange_writtenTemps {insts : List Instruction} (h : ∀ inst ∈ insts, p.Holds inst) :
    o.InRange (p.writtenTemps d r temps insts) := by
  induction insts generalizing temps
  case nil => exact .pure trivial
  case cons inst insts hi =>
    have ⟨hinst, hinsts⟩ := List.forall_mem_cons.mp h
    refine .bind (inRange_resultType hinst) fun type _ => ?_
    cases type
    case none => exact hi hinsts
    case some => exact .bind (inRange_addWrites hinst) fun _ _ => hi hinsts

theorem Closed.operand_lt (h : p.Closed) (hid : id ∈ p.instructions.flatMap (·.operands)) :
    id < p.operands.size :=
  have ⟨inst, hinst, hid⟩ := List.mem_flatMap.mp hid
  h.instructions inst hinst id hid

theorem inRange_tempsRead (h : p.Closed) (hid : id < p.operands.size) :
    o.InRange (p.tempsRead id) := by
  refine .bind (stays_operand hid) fun op hop => .bind (inRange_tempOf? hid) fun _ _ => ?_
  refine .bind (.mapM (R := fun _ => True) fun id' hid' => inRange_tempOf? ?_) fun _ _ =>
    .pure trivial
  have ⟨index, hi, hid'⟩ := List.mem_filterMap.mp hid'
  have hmem : id' ∈ op.relatives :=
    List.mem_flatMap.mpr ⟨index, hi, Option.mem_toList.mpr hid'⟩
  exact (h.relative_lt hop hmem).right

theorem inRange_temps (h : p.Closed) : o.InRange (p.temps o d r) :=
  .bind (inRange_writtenTemps fun _ hinst => ⟨h, hinst⟩) fun _ _ =>
    .bind Options.inRange_requireWords fun _ _ =>
    .bind (.mapM (R := fun _ => True) fun _ hid => inRange_tempsRead h (h.operand_lt hid))
      fun _ _ => .pure trivial

theorem inRange_registerOf (h : id < p.operands.size) : o.InRange (p.registerOf kinds id) :=
  .bind (stays_operand h) fun _ _ => .pure trivial

theorem inRange_stretches (h : p.Closed) {entries : Signature} :
    o.InRange (p.stretches entries kinds) := by
  refine .bind (.mapM (R := fun _ => True) fun decl hdecl => ?_) fun _ _ => ?_
  · have hid := h.declarations decl hdecl
    cases hd : decl.declared
    case input id _ _ _ | output id _ _ | indexRange id _ =>
      rw [hd] at hid
      have hid := hid id (List.mem_singleton_self id)
      exact .bind (inRange_registerOf hid) fun _ _ => .pure trivial
    all_goals exact .pure trivial
  · refine .bind (.mapM (R := fun _ => True) fun id hid => ?_) fun _ _ => .pure trivial
    exact .bind (inRange_registerOf (h.operand_lt hid)) fun _ _ => .pure trivial

theorem inRange_extent (h : p.Closed) {entries : Signature} :
    o.InRange (p.extent o entries kinds) :=
  .bind (inRange_stretches h) fun _ _ => .bind Options.inRange_requireWords fun _ _ =>
    .pure trivial

theorem inRange_signature (h : p.Closed) {phases : Option Phases} {kind : SignatureClass} :
    o.InRange (p.signature phases kind) := by
  refine .ite (fun _ => .pure trivial) fun _ => .ite (fun _ => .pure trivial) fun _ => ?_
  refine .bind (.mapM (R := fun _ => True) fun (decl, i) hdecl => ?_) fun _ _ => .pure trivial
  have hid := h.declarations decl (List.fst_mem_of_mem_zipIdx hdecl)
  unfold declaredEntry?
  dsimp only
  cases hd : decl.declared
  case input id _ _ _ | output id _ _ =>
    rw [hd] at hid
    have hid := hid id (List.mem_singleton_self id)
    exact .bind (stays_operand hid) fun _ _ => .pure trivial
  all_goals exact .pure trivial

theorem inRange_fileSizes (h : p.Closed) {inputs outputs patch : Signature} :
    o.InRange (p.fileSizes o inputs outputs patch) := by
  refine .bind (inRange_extent h) fun _ _ => .bind (inRange_extent h) fun _ _ => ?_
  cases p.stage
  case hull | domain => exact .bind (inRange_extent h) fun _ _ => .pure trivial
  all_goals exact .pure trivial

end Program

end ShaderLift
