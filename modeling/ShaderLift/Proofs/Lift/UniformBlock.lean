import ShaderLift.Proofs.Text.Numerals
import ShaderLift.Proofs.Lift.Declared
import ShaderLift.Proofs.Lift.Member

/-!
Constant buffers as blocks: the rules of the target place each member where the bytecode looks for
it, and the members that fill gaps have names of their own.
-/

namespace ShaderLift

open Glsl

namespace Member

variable {d : Dialect} {slot cursor : UInt32} {m : Member} {ms : List Member}

-- The member ends below 2 ^ 32 bytes in a block.
def EndsInRange (m : Member) : Prop :=
  m.offset.toNat + m.space < 2 ^ 32

instance : Decidable m.EndsInRange :=
  inferInstanceAs (Decidable (_ < _))

theorem EndsInRange.toNat_end (h : m.EndsInRange) :
    (m.offset + m.size).toNat = m.offset.toNat + m.space := by
  unfold EndsInRange at h
  rw [UInt32.toNat_add, toNat_size (by omega), Nat.mod_eq_of_lt h]

-- Members keep the name and the offset of their variables.
theorem perm_of_ofBuffer {buffer : ConstantBuffer} (h : ofBuffer d buffer = some ms) :
    (ms.map fun m => (m.name, m.offset)).Perm
      (buffer.members.map fun v => (Identifier.ofString v.name, v.offset)) := by
  have each {v : Variable} {m : Member} (h : ofVariable d v = some m) :
      (m.name, m.offset) = (Identifier.ofString v.name, v.offset) := by
    simp only [ofVariable] at h
    split at h
    case isTrue => cases h
    case isFalse =>
      obtain ⟨_, _, h⟩ := Option.bind_eq_some_iff.mp h
      split at h
      case isTrue => exact Option.some.inj h ▸ rfl
      case isFalse => cases h
  have all {vs : List Variable} {ms : List Member} (h : vs.mapM (ofVariable d) = some ms) :
      ms.map (fun m => (m.name, m.offset)) =
        vs.map fun v => (Identifier.ofString v.name, v.offset) := by
    induction vs generalizing ms
    case nil => cases h; rfl
    case cons v vs hi =>
      simp only [List.mapM_cons, Option.bind_eq_bind, Option.bind_eq_some_iff] at h
      obtain ⟨m, hm, ms', hms, h⟩ := h
      cases h
      rw [List.map_cons, List.map_cons, each hm, hi hms]
  obtain ⟨ms', hms, h⟩ := Option.map_eq_some_iff.mp h
  rw [← all hms, ← h]
  exact (List.mergeSort_perm ms' _).map _

theorem four_dvd_space : 4 ∣ m.space := by
  unfold space
  split <;> omega

theorem fits_cons : fits cursor (m :: ms) ↔ m.align.toNat ∣ m.offset.toNat ∧
    cursor.toNat ≤ m.offset.toNat ∧ fits (m.offset + m.size) ms := by
  simp only [fits, Bool.and_eq_true, decide_eq_true_eq, ← UInt32.toNat_inj, UInt32.toNat_mod,
    UInt32.le_iff_toNat_le, and_assoc, Nat.dvd_iff_mod_eq_zero]
  rfl

section Block

variable (hms : ∀ m ∈ ms, m.Regular ∧ m.EndsInRange) (hf : fits cursor ms) (hc : 4 ∣ cursor.toNat)
include hms hf hc

-- The induction is on the members, behind a cursor that is a multiple of four: both the cursor and
-- the next offset are, so that words of padding fill the gap between them exactly.
theorem map_places_blockMembers :
    (Std140.layout? cursor.toNat (blockMembers d slot cursor ms)).map Std140.places =
      some (ms.map fun m => (m.declarator d, m.offset.toNat)) := by
  induction ms generalizing cursor
  case nil => rfl
  case cons m ms hi =>
    have ⟨⟨hr, hb⟩, hms⟩ := List.forall_mem_cons.mp hms
    have ⟨halign, hle, hf⟩ := fits_cons.mp hf
    have hspace : m.space < 2 ^ 32 := by unfold EndsInRange at hb; omega
    have hextent := hr.extent?_declarator (d := d) (hr.registerCount_lt_of_space hspace)
    have hrest := hi hms hf (hb.toNat_end ▸ Nat.dvd_add hr.offset four_dvd_space)
    rw [hb.toNat_end] at hrest
    simp only [blockMembers]
    split
    case isTrue =>
      have hplace : Std140.place? cursor.toNat m.align.toNat
          (.member (some m.offset) (m.declarator d)) = some m.offset.toNat :=
        if_pos ⟨halign, hle⟩
      rw [Std140.map_places_layout?_member hextent hplace, hrest]
      rfl
    case isFalse =>
      have hoffset := hr.offset
      have hgap : cursor.toNat + 4 * ((m.offset.toNat - cursor.toNat + 3) / 4) =
          m.offset.toNat := by omega
      have hplace : Std140.place? m.offset.toNat m.align.toNat (.member none (m.declarator d)) =
          some m.offset.toNat := congrArg some (Std140.roundUp_eq_self halign)
      have hwords : (List.range ((m.offset.toNat - cursor.toNat + 3) / 4)).map
          (fun i => BlockMember.padding slot (cursor.toNat / 4 + i)) =
          ((List.range ((m.offset.toNat - cursor.toNat + 3) / 4)).map (cursor.toNat / 4 + ·)).map
            (.padding slot) := by
        rw [List.map_map]
        rfl
      rw [hwords, Std140.map_places_layout?_paddings hc, List.length_map, List.length_range, hgap,
        Std140.map_places_layout?_member hextent hplace, hrest]
      rfl

omit hms hf hc in
theorem isSome_offset?_blockMembers : ∀ b ∈ blockMembers d slot cursor ms,
    b.offset?.isSome = d.has .memberOffsets := by
  induction ms generalizing cursor
  case nil => exact List.forall_mem_nil _
  case cons m ms hi =>
    simp only [blockMembers]
    split
    case isTrue hd => exact List.forall_mem_cons.mpr ⟨hd.symm, hi⟩
    case isFalse hd =>
      have hd : false = d.has .memberOffsets := (Bool.eq_false_iff.mpr hd).symm
      exact List.forall_mem_append.mpr
        ⟨List.forall_mem_map.mpr fun _ _ => hd, List.forall_mem_cons.mpr ⟨hd, hi⟩⟩

-- The words of padding ascend, so each has a number of its own.
theorem exists_words : ∃ words : List Nat,
    (blockMembers d slot cursor ms).filter BlockMember.isPadding = words.map (.padding slot) ∧
      words.Pairwise (· < ·) ∧ ∀ word ∈ words, cursor.toNat / 4 ≤ word := by
  induction ms generalizing cursor
  case nil => exact ⟨[], rfl, .nil, List.forall_mem_nil _⟩
  case cons m ms hi =>
    have ⟨⟨hr, hm⟩, hms⟩ := List.forall_mem_cons.mp hms
    have ⟨_, hle, hf⟩ := fits_cons.mp hf
    have ⟨words, hwords, hlt, hend⟩ :=
      hi hms hf (hm.toNat_end ▸ Nat.dvd_add hr.offset four_dvd_space)
    rw [hm.toNat_end] at hend
    simp only [blockMembers]
    split
    case isTrue =>
      refine ⟨words, hwords, hlt, fun word hword => ?_⟩
      have := hend word hword
      omega
    case isFalse =>
      have hoffset := hr.offset
      let gap := (List.range ((m.offset.toNat - cursor.toNat + 3) / 4)).map (cursor.toNat / 4 + ·)
      have hgap : ∀ word ∈ gap, cursor.toNat / 4 ≤ word ∧ word < m.offset.toNat / 4 := by
        refine List.forall_mem_map.mpr fun i hi => ?_
        have := List.mem_range.mp hi
        omega
      refine ⟨gap ++ words, ?_, List.pairwise_append.mpr ⟨?_, hlt, ?_⟩,
        List.forall_mem_append.mpr ⟨fun word hword => (hgap word hword).left, ?_⟩⟩
      case refine_1 =>
        have hall : ∀ b ∈ gap.map (BlockMember.padding slot), b.isPadding :=
          List.forall_mem_map.mpr fun _ _ => rfl
        rw [List.map_append, ← hwords, ← List.filter_eq_self.mpr hall, List.map_map]
        exact List.filter_append _ _
      case refine_2 => exact List.pairwise_lt_range.map _ fun _ _ h => Nat.add_lt_add_left h _
      case refine_3 =>
        intro word hword word' hword'
        have := hgap word hword
        have := hend word' hword'
        omega
      case refine_4 =>
        intro word hword
        have := hend word hword
        omega

end Block

end Member

namespace Glsl

theorem BlockMember.padding_name_inj {slot slot' : UInt32} {word word' : Nat}
    (h : (padding slot word).declarator.name = (padding slot' word').declarator.name) :
    slot = slot' ∧ word = word' := by
  have hword (word : Nat) : NoDigitFirst ("_" ++ word.repr) := by simp [NoDigitFirst]
  have h : "_pad" ++ (decimal slot ++ ("_" ++ word.repr)) =
      "_pad" ++ (decimal slot' ++ ("_" ++ word'.repr)) := by
    simpa only [declarator, Nat.toString_eq_repr, String.append_assoc] using h
  have ⟨hs, h⟩ := decimal_append_inj (hword word) (hword word') (append_cancel_left h)
  exact ⟨hs, Nat.repr_inj.mp (append_cancel_left h)⟩

-- The names that a declaration fills gaps with.
def Decl.paddingNames : Decl → List String
  | uniformBlock _ _ _ ms => (ms.filter BlockMember.isPadding).map (·.declarator.name)
  | _ => []

end Glsl

namespace UniformBuffer

variable {d : Dialect} {slot size : UInt32} {dynamic : Bool} {buffer : Option ConstantBuffer}
  {ms : List Member}

theorem exists_of_build (h : (build d slot size dynamic buffer).members = some ms) :
    ∃ source, buffer = some source ∧ Member.ofBuffer d source = some ms ∧
      ((build d slot size dynamic buffer).isBlock → Member.fits 0 ms) := by
  simp only [build] at h ⊢
  split at h
  case isTrue => cases h
  case isFalse =>
    obtain ⟨h, hfits⟩ := Option.filter_eq_some_iff.mp h
    obtain ⟨source, hsource, h⟩ := Option.bind_eq_some_iff.mp h
    refine ⟨source, hsource, h, fun hblock => ?_⟩
    simpa [hblock] using hfits

theorem members_build {source : ConstantBuffer} (h : Member.ofBuffer d source = some ms)
    (hf : Member.fits 0 ms) : (build d slot size false (some source)).members = some ms := by
  simp [build, h, hf]

-- The members of a block end below 2 ^ 32 bytes.
def EndsInRange (b : UniformBuffer) : Prop :=
  b.isBlock → ∀ m ∈ b.members.getD [], m.EndsInRange

-- A block has at most one member for each word of padding.
theorem exists_words_of_build {b : UniformBuffer} (hb : b = build d slot size dynamic buffer)
    (h : b.EndsInRange) : ∃ words : List Nat, words.Pairwise (· < ·) ∧
      (b.decls d).flatMap Decl.paddingNames =
        words.map fun word => (BlockMember.padding b.slot word).declarator.name := by
  cases hmembers : b.members
  case none =>
    refine ⟨[], .nil, ?_⟩
    cases hblock : b.isBlock <;>
      simp [decls, hmembers, hblock, Decl.paddingNames, BlockMember.isPadding]
  case some ms =>
    cases hblock : b.isBlock
    case false => exact ⟨[], .nil, by simp [decls, hmembers, hblock, Decl.paddingNames]⟩
    case true =>
      obtain ⟨_, _, hsource, hfits⟩ := exists_of_build (hb ▸ hmembers)
      have hregular := Member.regular_of_ofBuffer hsource
      have hms : ∀ m ∈ ms, m.Regular ∧ m.EndsInRange :=
        fun m hm => ⟨hregular m hm, h hblock m (by rwa [hmembers])⟩
      obtain ⟨words, hwords, hlt, _⟩ : ∃ words : List Nat,
          (Member.blockMembers d b.slot 0 ms).filter BlockMember.isPadding =
            words.map (.padding b.slot) ∧ words.Pairwise (· < ·) ∧ ∀ word ∈ words, 0 / 4 ≤ word :=
        Member.exists_words hms (hfits (hb ▸ hblock)) (Nat.dvd_zero 4)
      refine ⟨words, hlt, ?_⟩
      simp [decls, hmembers, hblock, Decl.paddingNames, hwords]

end UniformBuffer

namespace Resources

variable {d : Dialect} {p : Program} {r : Resources} {decls : List Decl}

theorem flatMap_paddingNames (h : r.decls d = .ok decls) : decls.flatMap Decl.paddingNames =
    r.constantBuffers.values.flatMap fun b => (b.decls d).flatMap Decl.paddingNames := by
  have ⟨samplers, uavs, hparts, h⟩ := exists_declParts h
  have hsamplers : samplers.flatMap Decl.paddingNames = [] := by
    refine List.flatMap_eq_nil_iff.mpr fun decl hd => ?_
    have ⟨_, _, hd⟩ := exists_mem_of_forall₂ hparts.samplers hd
    have ⟨_, hd⟩ := exists_type_of_samplerDecl hd
    exact hd ▸ rfl
  have huavs : uavs.flatten.flatMap Decl.paddingNames = [] := by
    refine List.flatMap_eq_nil_iff.mpr fun decl hd => ?_
    have ⟨decls, hdecls, hd⟩ := List.mem_flatten.mp hd
    have ⟨⟨slot, u⟩, _, hdecls⟩ := exists_mem_of_forall₂ hparts.uavs hdecls
    rcases image_or_storage_of_uavDecls hdecls hd with ⟨_, _, _, _, _, rfl⟩ | ⟨_, _, rfl⟩
    case inl => rfl
    case inr => rfl
  simp [h, hsamplers, huavs, List.flatMap_assoc, List.flatMap_map, storageDecl, Decl.paddingNames]

theorem nodup_paddingNames (hr : r.Built d p)
    (hends : ∀ b ∈ r.constantBuffers.values, b.EndsInRange) (h : r.decls d = .ok decls) :
    (decls.flatMap Decl.paddingNames).Nodup := by
  have words {e : UInt32 × UniformBuffer} (he : e ∈ r.constantBuffers.entries) :
      ∃ words : List Nat, words.Pairwise (· < ·) ∧ (e.2.decls d).flatMap Decl.paddingNames =
        words.map fun word => (BlockMember.padding e.1 word).declarator.name := by
    obtain ⟨_, _, _, hb⟩ := hr.built e he
    rw [← hr.slot_eq he]
    exact UniformBuffer.exists_words_of_build hb (hends e.2 (List.mem_map_of_mem he))
  rw [flatMap_paddingNames h, SortedMap.values, List.flatMap_map, List.nodup_flatMap]
  refine ⟨fun e he => ?_, ?_⟩
  case refine_1 =>
    obtain ⟨words, hlt, hwords⟩ := words he
    rw [hwords]
    refine List.Nodup.map_on (fun _ _ _ _ h => (BlockMember.padding_name_inj h).right) ?_
    exact hlt.imp Nat.ne_of_lt
  case refine_2 =>
    refine hr.sorted.imp_of_mem fun {e e'} he he' hlt name hname hname' => ?_
    obtain ⟨_, _, hwords⟩ := words he
    obtain ⟨_, _, hwords'⟩ := words he'
    obtain ⟨word, _, hword⟩ := List.mem_map.mp ((congrArg (name ∈ ·) hwords).mp hname)
    obtain ⟨word', _, hword'⟩ := List.mem_map.mp ((congrArg (name ∈ ·) hwords').mp hname')
    have hslot := (BlockMember.padding_name_inj (hword.trans hword'.symm)).left
    exact hlt.ne (congrArg rank hslot)

end Resources

theorem Program.Lifted.flatMap_paddingNames {p : Program} {o : Options} {s : Shader} {c : Context}
    {phases : Option Phases} (h : p.Lifted o s c phases) :
    ∃ resources, c.resources.decls c.dialect = .ok resources ∧
      s.source.decls.flatMap Decl.paddingNames = resources.flatMap Decl.paddingNames := by
  have ⟨layouts, resources, hlayouts, hresources, hdecls⟩ := Context.exists_parts h.decls
  refine ⟨resources, hresources, ?_⟩
  have hlayouts : layouts.flatMap Decl.paddingNames = [] := by
    refine List.flatMap_eq_nil_iff.mpr fun decl hd => ?_
    have hlayout := hlayouts decl hd
    cases decl
    case stageLayout => rfl
    case depthLayout => rfl
    all_goals cases hlayout
  have himmediates : (c.resources.immediatesDecl c.dialect).flatMap Decl.paddingNames = [] := by
    unfold Resources.immediatesDecl
    split
    case h_1 => rfl
    case h_2 => split_ifs <;> rfl
  have hregisters : c.registerDecls.flatMap Decl.paddingNames = [] := by
    simp [Context.registerDecls, FileSizes.decls, List.flatMap_map, Decl.paddingNames]
  simp [hdecls, hlayouts, himmediates, hregisters, List.flatMap_map, Decl.paddingNames]

open UniformBuffer in
theorem block_members_keep_offsets :
    (∀ (d : Dialect) (slot size : UInt32) (dynamic : Bool) (buffer : Option ConstantBuffer)
      (ms : List Member), (build d slot size dynamic buffer).isBlock →
      (build d slot size dynamic buffer).members = some ms → (∀ m ∈ ms, m.EndsInRange) →
      ∃ source items, buffer = some source ∧
        (ms.map fun m => (m.name, m.offset)).Perm
          (source.members.map fun v => (Identifier.ofString v.name, v.offset)) ∧
        (build d slot size dynamic buffer).decls d = [.uniformBlock slot (d.has .explicitBinding)
          (build d slot size dynamic buffer).blockName items] ∧
        (∀ item ∈ items, item.offset?.isSome = d.has .memberOffsets) ∧
        (Std140.layout? 0 items).map Std140.places =
          some (ms.map fun m => (m.declarator d, m.offset.toNat))) ∧
    ∀ (p : Program) (o : Options) (s : Shader), p.lift o = .ok s →
      (∀ r, Resources.collect o.dialect p = .ok r →
        ∀ b ∈ r.constantBuffers.values, b.EndsInRange) →
      (s.source.decls.flatMap Decl.paddingNames).Nodup := by
  constructor
  case left =>
    intro d slot size dynamic buffer ms hblock hmembers hends
    obtain ⟨source, hbuffer, hsource, hfits⟩ := exists_of_build hmembers
    refine ⟨source, Member.blockMembers d slot 0 ms, hbuffer, Member.perm_of_ofBuffer hsource, ?_,
      Member.isSome_offset?_blockMembers, ?_⟩
    case refine_1 => simp only [decls, hmembers, hblock]; rfl
    case refine_2 =>
      exact Member.map_places_blockMembers
        (fun m hm => ⟨Member.regular_of_ofBuffer hsource m hm, hends m hm⟩) (hfits hblock)
        (Nat.dvd_zero 4)
  case right =>
    intro p o s h hends
    obtain ⟨c, phases, l⟩ := Program.exists_lifted h
    obtain ⟨resources, hresources, hnames⟩ := l.flatMap_paddingNames
    have hcollect := l.dialect ▸ l.resources
    rw [hnames]
    exact Resources.nodup_paddingNames (Resources.built_of_collect l.resources)
      (hends _ hcollect) hresources

-- Scalars, vectors, an array and a matrix with gaps between them, in two constant buffers.
def gappedConstants : Program where
  declarations := [⟨.constantBuffer 0 10 false, 0, 0⟩, ⟨.constantBuffer 1 2 false, 0, 0⟩]
  instructions := [{ opcode := .ret, controls := .flow, operands := [], position := 0 }]
  constantBuffers :=
    [⟨"Light", 0, 160, [⟨"scale", 0, 4, .scalar .float⟩, ⟨"direction", 16, 12, .vector .float 3⟩,
      ⟨"weights", 32, 36, (VariableType.scalar .float).array 3⟩,
      ⟨"world", 96, 64, .matrix .float 4 4 false⟩]⟩,
    ⟨"Fog", 1, 24, [⟨"range", 8, 8, .vector .float 2⟩, ⟨"enabled", 20, 4, .scalar .bool⟩]⟩]

def lightMembers : List Member :=
  [⟨"scale", 0, .float, 1, 1, 0, false⟩, ⟨"direction", 16, .float, 1, 3, 0, false⟩,
    ⟨"weights", 32, .float, 1, 1, 3, false⟩, ⟨"world", 96, .float, 4, 4, 0, true⟩]

def fogMembers : List Member :=
  [⟨"range", 8, .float, 1, 2, 0, false⟩, ⟨"enabled", 20, .bool, 1, 1, 0, false⟩]

open UniformBuffer in
theorem block_members_keep_offsets_gapped :
    (build (.ofVersion .gl33) 0 10 false gappedConstants.constantBuffers[0]?).isBlock ∧
    (build (.ofVersion .gl33) 0 10 false gappedConstants.constantBuffers[0]?).members =
      some lightMembers ∧
    (∀ m ∈ lightMembers, m.EndsInRange) ∧
    (∃ items, (build (.ofVersion .gl33) 0 10 false gappedConstants.constantBuffers[0]?).decls
        (.ofVersion .gl33) = [.uniformBlock 0 false "Light" items] ∧
      (Std140.layout? 0 items).map Std140.places =
        some [(⟨"float", "scale", none⟩, 0), (⟨"vec3", "direction", none⟩, 16),
          (⟨"float", "weights", some 3⟩, 32), (⟨"mat4", "world", none⟩, 96)]) ∧
    (∀ r, Resources.collect (.ofVersion .gl33) gappedConstants = .ok r →
      ∀ b ∈ r.constantBuffers.values, b.EndsInRange) ∧
    ∃ s, gappedConstants.lift { checked := false } = .ok s ∧
      (s.source.decls.flatMap Decl.paddingNames).Nodup := by
  have hlight : (build (.ofVersion .gl33) 0 10 false gappedConstants.constantBuffers[0]?).members =
      some lightMembers :=
    members_build (Member.ofBuffer_eq_some (by decide +kernel) (by decide)) (by decide)
  have hfog : (build (.ofVersion .gl33) 1 2 false gappedConstants.constantBuffers[1]?).members =
      some fogMembers :=
    members_build (Member.ofBuffer_eq_some (by decide +kernel) (by decide)) (by decide)
  have hblock :
      (build (.ofVersion .gl33) 0 10 false gappedConstants.constantBuffers[0]?).isBlock := by
    decide +kernel
  have hends : ∀ m ∈ lightMembers, m.EndsInRange := by decide
  have hall : ∀ r, Resources.collect (.ofVersion .gl33) gappedConstants = .ok r →
      ∀ b ∈ r.constantBuffers.values, b.EndsInRange := by
    have hcollect : Resources.collect (.ofVersion .gl33) gappedConstants = .ok {
        constantBuffers := ⟨[
          (0, build (.ofVersion .gl33) 0 10 false gappedConstants.constantBuffers[0]?),
          (1, build (.ofVersion .gl33) 1 2 false gappedConstants.constantBuffers[1]?)]⟩ } := rfl
    intro r hr
    cases hcollect.symm.trans hr
    refine List.forall_mem_cons.mpr ⟨fun _ => ?_, List.forall_mem_singleton.mpr fun _ => ?_⟩
    case refine_1 => exact hlight ▸ hends
    case refine_2 => exact hfog ▸ (by decide : ∀ m ∈ fogMembers, m.EndsInRange)
  have ⟨hplaces, hnames⟩ := block_members_keep_offsets
  have ⟨_, items, _, _, hdecls, _, hlayout⟩ :=
    hplaces _ 0 10 false _ lightMembers hblock hlight hends
  obtain ⟨s, h⟩ : ∃ s, gappedConstants.lift { checked := false } = .ok s := by decide +kernel
  exact ⟨hblock, hlight, hends, ⟨items, hdecls, hlayout⟩, hall, s, h, hnames _ _ s h hall⟩

end ShaderLift
