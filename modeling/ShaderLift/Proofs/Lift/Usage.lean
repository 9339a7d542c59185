import ShaderLift.Proofs.Lift.Collected

/-!
What is kept of the instructions of a program when its resources are collected: how each view is
accessed, and which textures are sampled, with or without comparison.
-/

namespace ShaderLift

open Glsl

-- Some instruction samples a texture, through a sampler that compares or one that does not.
def Program.Samples (p : Program) (texture : UInt32) (shadow : Bool) : Prop :=
  ∃ inst ∈ p.instructions, ∃ position sampler,
    inst.opcode.sampleOperands? = some ⟨position, some sampler, shadow⟩ ∧
      p.slotOf inst .resource position = .ok (some texture)

-- A view shows all that an access does with it.
structure Uav.Shows (u : Uav) (a : UavAccess) : Prop where
  reads  : a.reads → u.isRead
  writes : a.writes → u.isWritten
  atomic : a.atomic → u.isAtomic

-- What is noted of an access.
def Uav.note (a : UavAccess) (u : Uav) : Uav :=
  { u with
    isRead := u.isRead || a.reads
    isWritten := u.isWritten || a.writes
    isAtomic := u.isAtomic || a.atomic }

theorem Uav.shows_note {u : Uav} {a : UavAccess} : (u.note a).Shows a := by
  constructor <;> intro h <;> simp [note, h]

theorem Uav.Shows.note {u : Uav} {a b : UavAccess} (h : u.Shows a) : (u.note b).Shows a := by
  constructor <;> intro ha
  case reads => simp [Uav.note, h.reads ha]
  case writes => simp [Uav.note, h.writes ha]
  case atomic => simp [Uav.note, h.atomic ha]

namespace Resources

variable {d : Dialect} {p : Program} {r r' : Resources} {inst : Instruction} {i : Nat}
variable {insts : List (Instruction × Nat)} {fetched fetched' : List UInt32}

-- What is kept of how an instruction samples, and which texture it reads without a sampler.
inductive SampleUse (p : Program) (r : Resources) (inst : Instruction) :
    Resources → Option UInt32 → Prop
  | nothing (h : ∀ ops texture, inst.opcode.sampleOperands? = some ops →
      p.slotOf inst .resource ops.texture = .ok (some texture) → r.buffers.contains texture) :
      SampleUse p r inst r none
  | fetch {ops texture} (operands : inst.opcode.sampleOperands? = some ops)
      (names : p.slotOf inst .resource ops.texture = .ok (some texture))
      (apart : r.buffers.contains texture = false) (alone : ops.sampler = none) :
      SampleUse p r inst r (some texture)
  | sample {ops texture position sampler} (operands : inst.opcode.sampleOperands? = some ops)
      (names : p.slotOf inst .resource ops.texture = .ok (some texture))
      (apart : r.buffers.contains texture = false) (through : ops.sampler = some position) :
      SampleUse p r inst
        { r with pairs := r.pairs.insert ⟨texture, some sampler, ops.shadow⟩ () } none

theorem sampleUse_of_eq_ok {texture : Option UInt32}
    (h : r.sampleUse p i inst = .ok (r', texture)) : SampleUse p r inst r' texture := by
  unfold sampleUse at h
  split at h
  case h_2 hops =>
    cases h
    exact .nothing fun ops _ ho => absurd (ho ▸ rfl) (hops ops)
  case h_1 ops hops =>
    obtain ⟨slot?, hslot, h⟩ := bind_eq_ok_iff.mp h
    have hnames {t : UInt32} (ht : slot? = some t) :
        p.slotOf inst .resource ops.texture = .ok (some t) := ht ▸ hslot
    split at h
    case h_2 hnone =>
      cases h
      refine .nothing fun ops' t ho ht => ?_
      cases hops.symm.trans ho
      exact absurd (Except.ok.inj (hslot.symm.trans ht)) (hnone t)
    case h_1 t =>
      split at h
      case isTrue hbuffer =>
        cases h
        refine .nothing fun ops' t' ho ht => ?_
        cases hops.symm.trans ho
        cases hslot.symm.trans ht
        exact hbuffer
      case isFalse hbuffer =>
        have hapart := Bool.eq_false_of_not_eq_true hbuffer
        extract_lets rest at h
        split at h
        case isTrue => cases h
        case isFalse =>
          simp only [rest] at h
          split at h
          case h_2 hnone =>
            cases h
            exact .fetch hops (hnames rfl) hapart (Option.eq_none_iff_forall_ne_some.mpr hnone)
          case h_1 position hposition =>
            obtain ⟨sampler?, _, h⟩ := bind_eq_ok_iff.mp h
            split at h
            case h_2 => cases h
            case h_1 sampler =>
              split at h
              case isTrue => cases h
              case isFalse =>
                cases h
                exact .sample hops (hnames rfl) hapart hposition

-- What is kept of how an instruction accesses a view.
inductive UavUse (p : Program) (r : Resources) (inst : Instruction) : Resources → Prop
  | nothing (h : ∀ a slot, inst.opcode.uavAccess? = some a →
      p.slotOf inst .unorderedAccessView a.operand ≠ .ok (some slot)) : UavUse p r inst r
  | access {a slot} (opcode : inst.opcode.uavAccess? = some a)
      (names : p.slotOf inst .unorderedAccessView a.operand = .ok (some slot)) :
      UavUse p r inst { r with uavs := r.uavs.modify slot (Uav.note a) }

theorem UavUse.pairs_eq (h : UavUse p r inst r') : r'.pairs = r.pairs := by
  cases h <;> rfl

theorem UavUse.buffers_eq (h : UavUse p r inst r') : r'.buffers = r.buffers := by
  cases h <;> rfl

theorem uavUse_of_eq_ok (h : r.uavUse p inst = .ok r') : UavUse p r inst r' := by
  unfold uavUse at h
  split at h
  case h_2 hops =>
    cases h
    exact .nothing fun a _ ha => absurd (ha ▸ rfl) (hops a)
  case h_1 a ha =>
    obtain ⟨slot?, hslot, h⟩ := bind_eq_ok_iff.mp h
    split at h
    case h_2 hnone =>
      cases h
      refine .nothing fun a' t ha' ht => ?_
      cases ha.symm.trans ha'
      exact absurd (Except.ok.inj (hslot.symm.trans ht)) (hnone t)
    case h_1 =>
      cases h
      exact .access ha hslot

-- What all instructions keep holds in the end.
theorem scan_keeps {P : Resources → List UInt32 → Prop}
    (hs : ∀ e ∈ insts, ∀ r r' texture fetched, P r fetched → SampleUse p r e.1 r' texture →
      P r' (texture.toList ++ fetched))
    (hu : ∀ e ∈ insts, ∀ r r' fetched, P r fetched → UavUse p r e.1 r' → P r' fetched)
    (hr : P r fetched) (h : scan p r fetched insts = .ok (r', fetched')) : P r' fetched' := by
  induction insts generalizing r fetched
  case nil => cases h; exact hr
  case cons e insts hi =>
    obtain ⟨⟨r₁, texture⟩, h₁, h⟩ := bind_eq_ok_iff.mp h
    obtain ⟨r₂, h₂, h⟩ := bind_eq_ok_iff.mp h
    have hr₁ := hs e List.mem_cons_self _ _ _ _ hr (sampleUse_of_eq_ok h₁)
    have hr₂ := hu e List.mem_cons_self _ _ _ hr₁ (uavUse_of_eq_ok h₂)
    exact hi (fun e he => hs e (List.mem_cons_of_mem _ he))
      (fun e he => hu e (List.mem_cons_of_mem _ he)) hr₂ h

-- What one instruction makes true and all of them keep holds in the end, too.
theorem scan_makes {P : Resources → Prop} {e : Instruction × Nat} (he : e ∈ insts)
    (hmake : ∀ r₁ r₂ r₃ texture, SampleUse p r₁ e.1 r₂ texture → UavUse p r₂ e.1 r₃ → P r₃)
    (hs : ∀ inst r r' texture, P r → SampleUse p r inst r' texture → P r')
    (hu : ∀ inst r r', P r → UavUse p r inst r' → P r')
    (h : scan p r fetched insts = .ok (r', fetched')) : P r' := by
  induction insts generalizing r fetched
  case nil => cases he
  case cons e' insts hi =>
    obtain ⟨⟨r₁, texture⟩, h₁, h⟩ := bind_eq_ok_iff.mp h
    obtain ⟨r₂, h₂, hrest⟩ := bind_eq_ok_iff.mp h
    cases List.mem_cons.mp he
    case inl he =>
      subst he
      refine scan_keeps (P := fun r _ => P r) (fun e _ _ _ _ _ hr => hs e.1 _ _ _ hr)
        (fun e _ _ _ _ hr => hu e.1 _ _ hr) ?_ hrest
      exact hmake _ _ _ _ (sampleUse_of_eq_ok h₁) (uavUse_of_eq_ok h₂)
    case inr he => exact hi he hrest

-- All accesses to a view are noted.
theorem shows_of_collect (h : collect d p = .ok r) {a : UavAccess} {slot : UInt32} {u : Uav}
    (hinst : inst ∈ p.instructions) (ha : inst.opcode.uavAccess? = some a)
    (hslot : p.slotOf inst .unorderedAccessView a.operand = .ok (some slot))
    (hu : r.uavs.get? slot = some u) : u.Shows a := by
  obtain ⟨⟨scanned, fetched⟩, hscan, h⟩ := bind_eq_ok_iff.mp h
  cases h
  obtain ⟨_, hfetched⟩ := exists_pairs_of_addFetched scanned fetched
  rw [hfetched] at hu
  obtain ⟨i, hi, rfl⟩ := List.getElem_of_mem hinst
  have hmem : (p.instructions[i], i) ∈ p.instructions.zipIdx :=
    List.mk_mem_zipIdx_iff_getElem?.mpr (List.getElem?_eq_getElem hi)
  refine scan_makes (P := fun r => ∀ u, r.uavs.get? slot = some u → u.Shows a) hmem
    (fun _ r₂ _ _ _ huse u hu => ?make) (fun _ _ _ _ hr huse => ?sample)
    (fun _ r₁ _ hr huse u hu => ?uav) hscan u hu
  case make =>
    cases huse
    case nothing hnone => exact absurd hslot (hnone a slot ha)
    case access a' slot' ha' hslot' =>
      cases ha.symm.trans ha'
      cases hslot.symm.trans hslot'
      rw [SortedMap.get?_modify, if_pos rfl] at hu
      obtain ⟨_, _, rfl⟩ := Option.map_eq_some_iff.mp hu
      exact Uav.shows_note
  case sample => cases huse <;> exact hr
  case uav =>
    cases huse
    case nothing => exact hr u hu
    case access =>
      rw [SortedMap.get?_modify] at hu
      split at hu
      case isTrue =>
        obtain ⟨v, hv, rfl⟩ := Option.map_eq_some_iff.mp hu
        exact (hr v hv).note
      case isFalse => exact hr u hu

-- The names under which textures are read: one for each way in which a texture is sampled, or one
-- without a sampler if it is only fetched from.
structure Sampled (p : Program) (r : Resources) : Prop where
  sampled : ∀ key ∈ r.pairs.keys, key.sampler ≠ none → p.Samples key.texture key.shadow
  alone   : ∀ key ∈ r.pairs.keys, key.sampler = none →
    ∀ key' ∈ r.pairs.keys, key'.texture = key.texture → key' = key
  apart   : ∀ key ∈ r.pairs.keys, r.buffers.contains key.texture = false
  covered : ∀ texture shadow, p.Samples texture shadow → r.buffers.contains texture = false →
    ∃ key ∈ r.pairs.keys, key.texture = texture ∧ key.shadow = shadow

theorem Sampled.addFetched (h : r.Sampled p) {texture : UInt32}
    (ht : r.buffers.contains texture = false) : (r.addFetched texture).Sampled p := by
  unfold Resources.addFetched
  split
  case isTrue => exact h
  case isFalse hnew =>
    simp only [List.any_eq_true, beq_iff_eq, not_exists, not_and] at hnew
    constructor
    case sampled =>
      intro key hkey hs
      cases SortedMap.mem_keys_insert.mp hkey
      case inl hkey => exact absurd (hkey ▸ rfl) hs
      case inr hkey => exact h.sampled key hkey hs
    case alone =>
      intro key hkey hs key' hkey' htexture
      cases SortedMap.mem_keys_insert.mp hkey <;> cases SortedMap.mem_keys_insert.mp hkey'
      case inl.inl hkey hkey' => exact hkey'.trans hkey.symm
      case inl.inr hkey hkey' => exact absurd (htexture.trans (hkey ▸ rfl)) (hnew key' hkey')
      case inr.inl hkey hkey' => exact absurd (htexture.symm.trans (hkey' ▸ rfl)) (hnew key hkey)
      case inr.inr hkey hkey' => exact h.alone key hkey hs key' hkey' htexture
    case apart =>
      intro key hkey
      cases SortedMap.mem_keys_insert.mp hkey
      case inl hkey => subst hkey; exact ht
      case inr hkey => exact h.apart key hkey
    case covered =>
      intro t shadow hs hb
      obtain ⟨key, hkey, htexture⟩ := h.covered t shadow hs hb
      exact ⟨key, SortedMap.mem_keys_insert.mpr (.inr hkey), htexture⟩

theorem Sampled.foldl_addFetched (h : r.Sampled p)
    (hf : ∀ texture ∈ fetched, r.buffers.contains texture = false) :
    (fetched.foldl Resources.addFetched r).Sampled p := by
  induction fetched generalizing r
  case nil => exact h
  case cons texture fetched hi =>
    obtain ⟨ht, hf⟩ := List.forall_mem_cons.mp hf
    refine hi (h.addFetched ht) ?_
    unfold Resources.addFetched
    split <;> exact hf

theorem covered_of_scan (h : scan p r fetched p.instructions.zipIdx = .ok (r', fetched'))
    {texture : UInt32} {shadow : Bool} (hs : p.Samples texture shadow) :
    r'.buffers.contains texture = false →
      ∃ key ∈ r'.pairs.keys, key.texture = texture ∧ key.shadow = shadow := by
  obtain ⟨inst, hinst, position, sampler, hops, hslot⟩ := hs
  obtain ⟨i, hi, rfl⟩ := List.getElem_of_mem hinst
  have hmem : (p.instructions[i], i) ∈ p.instructions.zipIdx :=
    List.mk_mem_zipIdx_iff_getElem?.mpr (List.getElem?_eq_getElem hi)
  refine scan_makes (P := fun r => r.buffers.contains texture = false →
    ∃ key ∈ r.pairs.keys, key.texture = texture ∧ key.shadow = shadow) hmem
    (fun _ r₂ r₃ _ hsample huav hb => ?make) (fun _ _ _ _ hr huse hb => ?sample)
    (fun _ _ _ hr huse => huse.pairs_eq ▸ huse.buffers_eq ▸ hr) h
  case make =>
    rw [huav.pairs_eq]
    rw [huav.buffers_eq] at hb
    cases hsample
    case nothing hnone => exact absurd (hnone _ _ hops hslot) (by simp [hb])
    case fetch hops' _ _ hnone =>
      cases hops.symm.trans hops'
      cases hnone
    case sample hops' hslot' _ _ =>
      cases hops.symm.trans hops'
      cases hslot.symm.trans hslot'
      exact ⟨_, SortedMap.mem_keys_insert.mpr (.inl rfl), rfl, rfl⟩
  case sample =>
    cases huse
    case nothing | fetch => exact hr hb
    case sample =>
      obtain ⟨key, hkey, htexture⟩ := hr hb
      exact ⟨key, SortedMap.mem_keys_insert.mpr (.inr hkey), htexture⟩

theorem sampled_of_scan (hr : r.pairs = .empty)
    (h : scan p r [] p.instructions.zipIdx = .ok (r', fetched)) :
    r'.Sampled p ∧ ∀ texture ∈ fetched, r'.buffers.contains texture = false := by
  have ⟨hpairs, hfetched⟩ : (∀ key ∈ r'.pairs.keys, key.sampler ≠ none ∧
      p.Samples key.texture key.shadow ∧ r'.buffers.contains key.texture = false) ∧
      ∀ texture ∈ fetched, r'.buffers.contains texture = false := by
    refine scan_keeps (P := fun r fetched => (∀ key ∈ r.pairs.keys, key.sampler ≠ none ∧
      p.Samples key.texture key.shadow ∧ r.buffers.contains key.texture = false) ∧
      ∀ texture ∈ fetched, r.buffers.contains texture = false)
      (fun e he _ _ texture _ hr huse => ?sample) (fun _ _ _ _ _ hr huse => ?uav)
      ⟨by simp [hr, SortedMap.empty, SortedMap.keys], List.forall_mem_nil _⟩ h
    case sample =>
      cases huse
      case nothing => exact hr
      case fetch hapart _ =>
        exact ⟨hr.left, List.forall_mem_cons.mpr ⟨hapart, hr.right⟩⟩
      case sample hops hslot hapart hsampler =>
        refine ⟨fun key hkey => ?_, hr.right⟩
        cases SortedMap.mem_keys_insert.mp hkey
        case inl hkey =>
          subst hkey
          have hinst : e.1 ∈ p.instructions := List.fst_mem_of_mem_zipIdx he
          exact ⟨by simp, ⟨e.1, hinst, _, _, by rw [hops, ← hsampler], hslot⟩, hapart⟩
        case inr hkey => exact hr.left key hkey
    case uav => rwa [huse.pairs_eq, huse.buffers_eq]
  refine ⟨⟨fun key hk _ => (hpairs key hk).2.1, fun key hk hs => absurd hs (hpairs key hk).1,
    fun key hk => (hpairs key hk).2.2, fun texture shadow hs => covered_of_scan h hs⟩, hfetched⟩

theorem pairs_foldl_declare {ds : List Declaration} :
    (ds.foldl (fun (r : Resources) decl => r.declare d p decl.declared) r).pairs = r.pairs := by
  induction ds generalizing r
  case nil => rfl
  case cons decl ds hi =>
    rw [List.foldl_cons, hi]
    cases decl.declared <;> rfl

theorem sampled_of_collect (h : collect d p = .ok r) : r.Sampled p := by
  obtain ⟨⟨scanned, fetched⟩, hscan, h⟩ := bind_eq_ok_iff.mp h
  cases h
  obtain ⟨hsampled, hfetched⟩ := sampled_of_scan pairs_foldl_declare hscan
  exact hsampled.foldl_addFetched hfetched

end Resources

end ShaderLift
