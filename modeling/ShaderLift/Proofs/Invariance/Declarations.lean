import ShaderLift.Proofs.Invariance.Body
import ShaderLift.Proofs.Lift.Temps

/-!
The order of declarations does not matter outside of hull shaders, as long as no two of them define
the same thing. All that is collected from declarations are maps, of which each gets an entry once,
and maxima.
-/

namespace ShaderLift

open Glsl

section Lists

variable {α β : Type}

theorem eq_of_nodup_filterMap {f : α → Option β} {l : List α} (h : (l.filterMap f).Nodup) {x y : α}
    {b : β} (hx : x ∈ l) (hy : y ∈ l) (hfx : f x = some b) (hfy : f y = some b) : x = y := by
  by_contra hne
  have hpair := List.pairwise_filterMap.mp h
  have : Std.Symm fun a a' => ∀ b, f a = some b → ∀ b', f a' = some b' → b ≠ b' :=
    ⟨fun _ _ h b hb b' hb' => (h b' hb' b hb).symm⟩
  exact hpair.forall hx hy hne b hfx b hfy rfl

-- Where only one error can occur, it does not matter in which order a list is gone through.
theorem mapM_bind_eq_ite {γ : Type} {f : α → Except LiftError (Option β)} {e₀ : LiftError}
    (hf : ∀ a e, f a = .error e → e = e₀) {l : List α} {k : List β → Except LiftError γ} :
    (l.mapM f >>= fun r => k (r.filterMap id)) =
      if ∀ a ∈ l, (f a).isOk then k (l.filterMap fun a => (f a).toOption.join) else .error e₀ := by
  induction l generalizing k
  case nil => rfl
  case cons a l hi =>
    rw [List.mapM_cons]
    cases ha : f a
    case error e =>
      have hfails : ¬∀ a' ∈ a :: l, (f a').isOk := fun h => by
        have ha' := h a List.mem_cons_self
        rw [ha] at ha'
        cases ha'
      rw [if_neg hfails, hf a e ha]
      rfl
    case ok b =>
      have hok : (∀ a' ∈ a :: l, (f a').isOk) ↔ ∀ a' ∈ l, (f a').isOk := by
        rw [List.forall_mem_cons, ha]
        exact and_iff_right rfl
      have hcons (r : List (Option β)) : (b :: r).filterMap id = b.toList ++ r.filterMap id := by
        cases b <;> rfl
      have hvalues : (a :: l).filterMap (fun a => (f a).toOption.join) =
          b.toList ++ l.filterMap fun a => (f a).toOption.join := by
        cases b <;> simp [ha, Except.toOption]
      have hstep := hi (k := fun bs => k (b.toList ++ bs))
      simp only [hok, hvalues, ← hstep, ← hcons, bind_assoc, pure_bind]
      rfl

theorem mapM_bind_perm {γ : Type} {f : α → Except LiftError (Option β)} {e₀ : LiftError}
    (hf : ∀ a e, f a = .error e → e = e₀) {l l' : List α} {k : List β → Except LiftError γ}
    (h : l.Perm l') (hk : k (l.filterMap fun a => (f a).toOption.join) =
      k (l'.filterMap fun a => (f a).toOption.join)) :
    (l.mapM f >>= fun r => k (r.filterMap id)) = l'.mapM f >>= fun r => k (r.filterMap id) := by
  simp only [mapM_bind_eq_ite hf, hk, h.mem_iff]

end Lists

-- What declarations define, of which there is one each.
inductive Place where
  | constantBuffer (slot : UInt32)
  | texture (slot : UInt32)
  | sampler (slot : UInt32)
  | buffer (slot : UInt32)
  | uav (slot : UInt32)
  | shared (slot : UInt32)
  | immediates
  deriving DecidableEq

def Declared.place? : Declared → Option Place
  | constantBuffer slot _ _ => some (.constantBuffer slot)
  | resource slot _ _ _ => some (.texture slot)
  | sampler slot _ => some (.sampler slot)
  | resourceRaw slot | resourceStructured slot _ => some (.buffer slot)
  | uavTyped slot _ _ _ | uavRaw slot _ | uavStructured slot _ _ _ => some (.uav slot)
  | tgsmRaw slot _ | tgsmStructured slot _ _ => some (.shared slot)
  | immediateConstantBuffer _ => some .immediates
  | _ => none

def DeclaredEntry.key (e : DeclaredEntry) : EntryKey :=
  ⟨e.register, e.systemValue⟩

-- The signature entry that a declaration stands for where there are no phases.
def Program.declaredOf (p : Program) (declared : Declared) :
    Except LiftError (Option DeclaredEntry) :=
  p.declaredEntry? [] 0 declared

-- The class, the register and the system value of what a declaration adds to a signature.
def Program.entryOf? (p : Program) (declared : Declared) : Option (SignatureClass × EntryKey) :=
  (p.declaredOf declared).toOption.join.map fun e => (e.kind, e.key)

-- No two declarations define the same resource or the same entry of a signature, and at most one
-- defines the immediate constants.
structure Program.Unambiguous (p : Program) : Prop where
  places  : (p.declarations.filterMap (·.declared.place?)).Nodup
  entries : (p.declarations.filterMap (p.entryOf? ·.declared)).Nodup

namespace Resources

variable {d : Dialect} {p : Program} {r : Resources} {ds : List Declaration}

-- What a declaration adds to the resources.
inductive Addition where
  | constantBuffer (slot : UInt32) (buffer : UniformBuffer)
  | texture (slot : UInt32) (texture : Texture)
  | sampler (slot : UInt32) (mode : SamplerMode)
  | buffer (slot : UInt32) (layout : MemoryLayout)
  | uav (slot : UInt32) (uav : Uav)
  | shared (slot : UInt32) (memory : SharedMemory)
  | immediates (words : List UInt32)

def Addition.place : Addition → Place
  | constantBuffer slot _ => .constantBuffer slot
  | texture slot _ => .texture slot
  | sampler slot _ => .sampler slot
  | buffer slot _ => .buffer slot
  | uav slot _ => .uav slot
  | shared slot _ => .shared slot
  | immediates _ => .immediates

def add (r : Resources) : Addition → Resources
  | .constantBuffer slot buffer =>
    { r with constantBuffers := r.constantBuffers.insert slot buffer }
  | .texture slot texture => { r with textures := r.textures.insert slot texture }
  | .sampler slot mode => { r with samplers := r.samplers.insert slot mode }
  | .buffer slot layout => { r with buffers := r.buffers.insert slot layout }
  | .uav slot uav => { r with uavs := r.uavs.insert slot uav }
  | .shared slot memory => { r with shared := r.shared.insert slot memory }
  | .immediates words => { r with immediates := some words }

theorem add_comm {a b : Addition} (h : a.place ≠ b.place) :
    (r.add a).add b = (r.add b).add a := by
  have hinsert {α : Type} {m : SlotMap α} {i j : UInt32} {x y : α} (hij : i ≠ j) :
      (m.insert i x).insert j y = (m.insert j y).insert i x :=
    SortedMap.alter_comm hij
  cases a <;> cases b <;> try rfl
  case immediates.immediates => exact absurd rfl h
  all_goals
    simp only [Addition.place, ne_eq, Place.constantBuffer.injEq, Place.texture.injEq,
      Place.sampler.injEq, Place.buffer.injEq, Place.uav.injEq, Place.shared.injEq] at h
    simp only [add]
    rw [hinsert h]

-- Every declaration adds something at its place, or nothing.
theorem exists_addition (d : Dialect) (p : Program) (declared : Declared) :
    (∃ a : Addition, declared.place? = some a.place ∧ ∀ r, declare d p r declared = r.add a) ∨
      ∀ r, declare d p r declared = r := by
  cases declared
  case constantBuffer => exact .inl ⟨.constantBuffer _ _, rfl, fun _ => rfl⟩
  case resource => exact .inl ⟨.texture _ _, rfl, fun _ => rfl⟩
  case sampler => exact .inl ⟨.sampler _ _, rfl, fun _ => rfl⟩
  case resourceRaw | resourceStructured => exact .inl ⟨.buffer _ _, rfl, fun _ => rfl⟩
  case uavTyped | uavRaw | uavStructured => exact .inl ⟨.uav _ _, rfl, fun _ => rfl⟩
  case tgsmRaw | tgsmStructured => exact .inl ⟨.shared _ _, rfl, fun _ => rfl⟩
  case immediateConstantBuffer => exact .inl ⟨.immediates _, rfl, fun _ => rfl⟩
  all_goals exact .inr fun _ => rfl

theorem declare_comm {x y : Declared} (h : ∀ a, x.place? = some a → y.place? ≠ some a) :
    declare d p (declare d p r x) y = declare d p (declare d p r y) x := by
  obtain ⟨a, hxa, hx⟩ | hx := exists_addition d p x <;>
    obtain ⟨b, hyb, hy⟩ | hy := exists_addition d p y <;> simp only [hx, hy]
  exact add_comm fun hab => h a.place hxa (hab ▸ hyb)

theorem foldl_declare_perm (hperm : ds.Perm p.declarations)
    (h : (p.declarations.filterMap (·.declared.place?)).Nodup) :
    p.declarations.foldl (fun r x => declare d p r x.declared) r =
      ds.foldl (fun r x => declare d p r x.declared) r := by
  refine hperm.symm.foldl_eq' (fun x hx y hy r => ?_) r
  by_cases hxy : x = y
  case pos => rw [hxy]
  case neg => exact declare_comm fun a hxa hya => hxy (eq_of_nodup_filterMap h hx hy hxa hya)

end Resources

instance rightCommutative_max : RightCommutative (max : UInt32 → UInt32 → UInt32) where
  right_comm a b c := by
    have hmax (a b : UInt32) : max a b = if a ≤ b then b else a := rfl
    simp only [hmax, UInt32.le_iff_toNat_le, ← UInt32.toNat_inj]
    split_ifs <;> omega

namespace Program

variable {p : Program} {d : Dialect} {ds : List Declaration} (hperm : ds.Perm p.declarations)
variable {kinds : List RegisterKind} {kind : SignatureClass} {o : Options} {declared : Declared}
variable {e : LiftError}

theorem addArray_comm {arrays : SlotMap UInt32} {x y : Declaration} :
    addArray (addArray arrays x) y = addArray (addArray arrays y) x := by
  unfold addArray
  cases x.declared <;> cases y.declared <;> try rfl
  case indexableTemp.indexableTemp i count _ j count' _ =>
    by_cases hij : i = j
    case pos =>
      have hmax (old : UInt32) : max (max old count) count' = max (max old count') count :=
        RightCommutative.right_comm old count count'
      subst hij
      simp only [SortedMap.alter_alter, Option.getD_some, hmax]
    case neg => exact SortedMap.alter_comm hij

theorem eq_of_operand_error {id : OperandId} (h : p.operand id = .error e) : e = .outOfRange := by
  unfold operand at h
  split at h <;> cases h
  rfl

-- Positions of declarations only tell what belongs to phases.
theorem declaredEntry?_nil {i : Nat} : p.declaredEntry? [] i declared = p.declaredOf declared := by
  cases declared <;> rfl

theorem eq_of_declaredOf_error (h : p.declaredOf declared = .error e) : e = .outOfRange := by
  cases declared
  case input id _ _ _ | output id _ _ =>
    unfold declaredOf declaredEntry? at h
    cases hop : p.operand id <;> simp only [hop] at h <;> cases h
    exact eq_of_operand_error hop
  all_goals cases h

def mergeEntry (p : Program) (merged : SortedMap EntryKey SignatureEntry) (e : DeclaredEntry) :
    SortedMap EntryKey SignatureEntry :=
  merged.alter e.key fun old => (old.getD (p.newEntry e)).add e

theorem declaredSignature_none :
    p.declaredSignature none kind =
      p.declarations.mapM (fun x => p.declaredOf x.declared) >>= fun es =>
        .ok (((es.filterMap id).filter (·.kind = kind)).foldl p.mergeEntry .empty).values := by
  have hzip : p.declarations.mapM (fun x => p.declaredOf x.declared) =
      p.declarations.zipIdx.mapM fun x => p.declaredEntry? [] x.2 x.1.declared := by
    simp only [declaredEntry?_nil]
    conv_lhs => rw [← List.zipIdx_map_fst 0 p.declarations, List.mapM_map]
    rfl
  rw [hzip]
  rfl

theorem mergeEntry_comm {merged : SortedMap EntryKey SignatureEntry} {x y : DeclaredEntry}
    (h : x.key ≠ y.key) :
    p.mergeEntry (p.mergeEntry merged x) y = p.mergeEntry (p.mergeEntry merged y) x :=
  SortedMap.alter_comm h

theorem eq_of_declaredStretch_error (h : p.declaredStretch kinds declared = .error e) :
    e = .outOfRange := by
  cases declared
  case input id _ _ _ | output id _ _ | indexRange id _ =>
    cases hop : p.operand id <;> simp only [declaredStretch, registerOf, hop] at h <;> cases h
    exact eq_of_operand_error hop
  all_goals cases h

-- How many registers stretches of them need.
def extentOf (o : Options) (stretches : List (UInt32 × UInt32)) : Except LiftError UInt32 := do
  o.requireWords (stretches.map fun (first, count) => first.toNat + count.toNat)
  return (stretches.map fun (first, count) => first + count).foldl max 0

theorem extentOf_perm {l l' : List (UInt32 × UInt32)} (h : l.Perm l') :
    extentOf o l = extentOf o l' := by
  unfold extentOf
  rw [Options.requireWords_perm (h.map _)]
  exact congrArg (_ >>= fun _ => Except.ok ·) ((h.map _).foldl_eq 0)

theorem extent_eq {entries : Signature} :
    p.extent o entries kinds =
      p.declarations.mapM (fun x => p.declaredStretch kinds x.declared) >>= fun declared =>
        (p.instructions.flatMap (·.operands)).mapM (fun id =>
          return (← p.registerOf kinds id).map (·, 1)) >>= fun used =>
            extentOf o (((entries.map (·.register)).filter (· ≠ noRegister)).map (·, 1) ++
              (declared.filterMap id ++ used.filterMap id)) := by
  have hextent : p.extent o entries kinds = p.stretches entries kinds >>= extentOf o := rfl
  simp only [hextent, stretches, ← List.filterMap_append, bind_assoc, pure_bind]

include hperm

theorem declaredSignature_perm (h : (p.declarations.filterMap (p.entryOf? ·.declared)).Nodup) :
    { p with declarations := ds }.declaredSignature none kind = p.declaredSignature none kind := by
  let declared? (x : Declaration) := (p.declaredOf x.declared).toOption.join
  have hkeys : ((p.declarations.filterMap declared?).map fun e => (e.kind, e.key)).Nodup := by
    rwa [List.map_filterMap]
  have hperm' := (hperm.filterMap declared?).filter (·.kind = kind)
  rw [declaredSignature_none, declaredSignature_none]
  refine mapM_bind_perm (f := fun x => p.declaredOf x.declared)
    (k := fun es => .ok ((es.filter (·.kind = kind)).foldl p.mergeEntry .empty).values)
    (fun _ _ => eq_of_declaredOf_error) hperm ?_
  refine congrArg (Except.ok ∘ SortedMap.values) (hperm'.symm.foldl_eq' ?_ _).symm
  intro x hx y hy merged
  by_cases hxy : x = y
  case pos => rw [hxy]
  case neg =>
    have ⟨hx, hxk⟩ := List.mem_filter.mp hx
    have ⟨hy, hyk⟩ := List.mem_filter.mp hy
    refine mergeEntry_comm fun hkey => hxy (List.inj_on_of_nodup_map hkeys hx hy ?_)
    rw [of_decide_eq_true hxk, of_decide_eq_true hyk, hkey]

theorem signature_perm (h : (p.declarations.filterMap (p.entryOf? ·.declared)).Nodup) :
    { p with declarations := ds }.signature none kind = p.signature none kind := by
  unfold signature
  rw [declaredSignature_perm hperm h]

theorem extent_perm {entries : Signature} :
    { p with declarations := ds }.extent o entries kinds = p.extent o entries kinds := by
  let stretch? (x : Declaration) := (p.declaredStretch kinds x.declared).toOption.join
  have hperm' := hperm.filterMap stretch?
  rw [extent_eq, extent_eq]
  refine mapM_bind_perm (f := fun x => p.declaredStretch kinds x.declared)
    (k := fun declared => List.mapM _ _ >>= fun used =>
      extentOf o (_ ++ (declared ++ List.filterMap id used)))
    (fun _ _ => eq_of_declaredStretch_error) hperm (bind_congr fun used => ?_)
  exact extentOf_perm ((hperm'.append_right _).append_left _)

theorem fileSizes_perm {inputs outputs patch : Signature} :
    { p with declarations := ds }.fileSizes o inputs outputs patch =
      p.fileSizes o inputs outputs patch := by
  unfold fileSizes
  simp only [extent_perm hperm]

theorem tempCount_perm {written : TempTypes} :
    { p with declarations := ds }.tempCount written = p.tempCount written :=
  ((hperm.filterMap _).append_right _).foldl_eq 0

theorem temps_perm {r : Resources} : { p with declarations := ds }.temps o d r = p.temps o d r := by
  have hwritten : { p with declarations := ds }.writtenTemps d r .empty p.instructions =
      p.writtenTemps d r .empty p.instructions :=
    writtenTemps_relist
  unfold temps
  simp only [hwritten, tempCount_perm hperm]
  rfl

theorem indexableTemps_perm :
    { p with declarations := ds }.indexableTemps = p.indexableTemps :=
  hperm.foldl_eq' (fun _ _ _ _ _ => addArray_comm) .empty

end Program

section Collected

variable {d : Dialect} {o : Options} {p : Program} {ds : List Declaration}
variable (hperm : ds.Perm p.declarations)

include hperm

theorem Interface.build_perm (h : (p.declarations.filterMap (p.entryOf? ·.declared)).Nodup) :
    build d o { p with declarations := ds } none = build d o p none := by
  unfold build
  simp only [Program.signature_perm hperm h, Program.fileSizes_perm hperm]

theorem Resources.collect_perm (h : (p.declarations.filterMap (·.declared.place?)).Nodup) :
    collect d { p with declarations := ds } = collect d p := by
  unfold collect
  simp only [foldl_declare_perm hperm h, scan_relist]
  rfl

theorem Resources.requireWords_perm :
    o.requireWords (numbers d { p with declarations := ds }) = o.requireWords (numbers d p) :=
  Options.requireWords_perm (hperm.flatMap_right _)

end Collected

namespace Context

variable {c : Context}

-- The same context with other declarations in its program.
def redeclare (c : Context) (ds : List Declaration) : Context :=
  { c with program := { c.program with declarations := ds } }

variable (ds : List Declaration)

theorem body_redeclare {start stop : Nat} :
    (c.redeclare ds).body start stop = c.body start stop := by
  let m : Move := ⟨ds, c.program.instructions, c.flow, c.index⟩
  have hagrees : Emit.Agrees True (c.body start stop) ((c.move m).body start stop) :=
    agrees_range (fun _ => rfl) (fun _ => rfl) fun _ _ => ⟨rfl, fun _ _ _ => rfl⟩
  exact funext fun s => ((hagrees s).eq trivial).symm

theorem subroutines_redeclare {ss : List Subroutine} :
    (c.redeclare ds).subroutines ss = c.subroutines ss := by
  induction ss
  case nil => rfl
  case cons s ss hi =>
    simp only [subroutines, hi]
    let c' : Context := { c with scope := .subroutine }
    have hbody : (c'.redeclare ds).body (s.start + 1) s.stop = c'.body (s.start + 1) s.stop :=
      body_redeclare ds
    exact congrArg (· >>= _) hbody

theorem singleFunctions_redeclare : (c.redeclare ds).singleFunctions = c.singleFunctions := by
  have hflow : (c.redeclare ds).flow = c.flow := rfl
  simp only [singleFunctions, hflow, subroutines_redeclare, body_redeclare]
  rfl

theorem shader_redeclare {ds : List Declaration} (h : ds.Perm c.program.declarations) :
    (c.redeclare ds).shader = c.shader := by
  have hregisters : (c.redeclare ds).registerDecls = c.registerDecls := by
    unfold registerDecls redeclare
    rw [Program.indexableTemps_perm h]
    rfl
  have hdecls : (c.redeclare ds).decls = c.decls := by
    unfold decls
    rw [hregisters]
    rfl
  unfold shader
  rw [singleFunctions_redeclare, hdecls]
  rfl

end Context

theorem Program.lift_eq_of_declarations_perm (p : Program) (o : Options) (ds : List Declaration)
    (hstage : p.stage ≠ .hull) (h : p.Unambiguous) (hperm : ds.Perm p.declarations) :
    { p with declarations := ds }.lift o = p.lift o := by
  have hstage' : { p with declarations := ds }.stage ≠ .hull := hstage
  rw [lift_eq hstage, lift_eq hstage']
  simp only [Interface.build_perm hperm h.entries, Resources.requireWords_perm hperm,
    Resources.collect_perm hperm h.places, temps_perm hperm]
  refine bind_congr fun _ => bind_congr fun flow => bind_congr fun (interface, sizes) => ?_
  refine bind_congr fun _ => bind_congr fun resources => bind_congr fun temps => ?_
  let c : Context :=
    { program := p, dialect := o.dialect, options := o, flow, interface, sizes, resources, temps }
  exact Context.shader_redeclare (c := c) hperm

-- Samples a texture and scales what it reads. A register is both an input and the position, and
-- two declarations count temporaries.
def scaledTexture : Program where
  declarations :=
    [.constantBuffer 0 1 false, .sampler 0 .default,
      .resource 0 .texture2D 0 ⟨.float, .float, .float, .float⟩, .input 0 none 0 (some .linear),
      .input 0 (some .position) 0 none, .output 1 none 0, .temps 1, .temps 2].map (⟨·, 0, 0⟩)
  instructions :=
    [⟨.sample, .sample {}, [2, 0, 3, 4], 0⟩, ⟨.mul, .alu false 0, [1, 2, 5], 0⟩,
      ⟨.ret, .flow, [], 0⟩]
  operands :=
    #[{ register := .input, indices := [.imm 0] }, { register := .output, indices := [.imm 0] },
      { register := .temp, indices := [.imm 0] }, { register := .resource, indices := [.imm 0] },
      { register := .sampler, indices := [.imm 0] },
      { register := .constantBuffer, indices := [.imm 0, .imm 0] }]

theorem Program.lift_eq_of_declarations_perm_scaledTexture :
    scaledTexture.stage ≠ .hull ∧ scaledTexture.Unambiguous ∧
      (scaledTexture.lift {}).isOk ∧
      { scaledTexture with declarations := scaledTexture.declarations.reverse }.lift {} =
        scaledTexture.lift {} := by
  have hstage : scaledTexture.stage ≠ .hull := by decide
  have h : scaledTexture.Unambiguous := ⟨by decide +kernel, by decide +kernel⟩
  exact ⟨hstage, h, by decide +kernel,
    lift_eq_of_declarations_perm _ _ _ hstage h (List.reverse_perm _)⟩

end ShaderLift
