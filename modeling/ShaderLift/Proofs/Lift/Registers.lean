import ShaderLift.Container.Program
import ShaderLift.Proofs.Glsl.Identifiers
import ShaderLift.Proofs.Lift.References
import ShaderLift.Proofs.Lift.Temps

/-!
The declarations of temporary registers and of arrays of them, in shaders from bare token streams.
No register is declared twice, and which ones are declared can be told from the program.
-/

namespace ShaderLift

open Glsl

-- Text that is no name of a register.
def Apart (text : String) : Prop :=
  '_' ∈ text.toList ∨ text.toList.head?.any fun c => c ≠ 'r' && c ≠ 'x'

namespace Apart

variable {s t : String} {n : UInt32}

instance : Decidable (Apart s) :=
  inferInstanceAs (Decidable (_ ∨ _))

theorem append (h : Apart s) : Apart (s ++ t) := by
  unfold Apart
  rw [String.toList_append]
  cases h
  case inl h => exact .inl (List.mem_append_left _ h)
  case inr h =>
    cases hs : s.toList
    case nil => simp [hs] at h
    case cons => exact .inr (by simpa [hs] using h)

theorem ne_letter_append {letter : String} (hl : letter.toList = ['r'] ∨ letter.toList = ['x'])
    (h : Apart s) : s ≠ letter ++ decimal n := by
  intro hs
  have hlist : s.toList = letter.toList ++ (decimal n).toList := by rw [hs, String.toList_append]
  have hdigit : '_' ∉ (decimal n).toList := fun h => absurd (isDigit_of_mem_repr h) (by decide)
  cases h
  case inl h =>
    rw [hlist] at h
    cases hl <;> simp_all
  case inr h =>
    rw [hlist] at h
    cases hl <;> simp_all

theorem ne_temp (h : Apart s) : s ≠ (Name.temp n).text :=
  h.ne_letter_append (.inl rfl)

theorem ne_indexableTemp (h : Apart s) : s ≠ (Name.indexableTemp n).text :=
  h.ne_letter_append (.inr rfl)

end Apart

namespace Glsl

theorem SamplerKey.apart_name {key : SamplerKey} : Apart key.name := by
  unfold name
  split
  case h_1 => exact Apart.append (by decide)
  case h_2 => exact (Apart.append (Apart.append (Apart.append (by decide)))).append

theorem RegisterFile.apart_name {f : RegisterFile} : Apart f.name := by
  cases f <;> decide

theorem Storage.apart_data {s : Storage} : Apart s.data.text := by
  cases s <;> exact Apart.append (Apart.append (by decide))

-- The declaration is of no register.
def Decl.Apart (decl : Decl) : Prop :=
  ∀ identifier ∈ decl.identifiers, ShaderLift.Apart identifier

theorem Decl.apart_of_eq {decl : Decl} {identifier : String} (h : decl.identifiers = [identifier])
    (ha : ShaderLift.Apart identifier) : decl.Apart := by
  intro _ hi
  rw [h] at hi
  exact List.mem_singleton.mp hi ▸ ha

theorem Decl.flatMap_identifiers {α : Type} {decl : α → Decl} {identifier : α → String}
    (h : ∀ a, (decl a).identifiers = [identifier a]) {l : List α} :
    (l.map decl).flatMap identifiers = l.map identifier := by
  rw [List.flatMap_map, List.map_eq_flatMap]
  exact List.flatMap_congr fun a _ => h a

theorem Decl.IsLayout.apart {decl : Decl} (h : decl.IsLayout) : decl.Apart := by
  cases decl
  case stageLayout | depthLayout => exact List.forall_mem_nil _
  all_goals cases h

end Glsl

theorem UniformBuffer.apart_of_raw {d : Dialect} {b : UniformBuffer} (h : b.members = none) :
    ∀ decl ∈ b.decls d, decl.Apart := by
  have hname : Apart (Name.constants b.slot).text := Apart.append (by decide)
  unfold decls
  simp only [h]
  cases b.isBlock
  case false => exact List.forall_mem_singleton.mpr (Decl.apart_of_eq rfl hname)
  case true => exact List.forall_mem_singleton.mpr (Decl.apart_of_eq rfl hname)

namespace Resources

variable {d : Dialect} {r : Resources} {decls : List Decl}

theorem apart_of_uavDecls {slot : UInt32} {u : Uav} (h : r.uavDecls d slot u = .ok decls) :
    ∀ decl ∈ decls, decl.Apart := by
  intro decl hd
  rcases image_or_storage_of_uavDecls h hd with ⟨_, _, _, _, _, rfl⟩ | ⟨_, _, rfl⟩
  case inl => exact Decl.apart_of_eq rfl (Apart.append (by decide))
  case inr => exact Decl.apart_of_eq rfl Storage.apart_data

theorem apart_of_decls (hraw : ∀ b ∈ r.constantBuffers.values, b.members = none)
    (h : r.decls d = .ok decls) : ∀ decl ∈ decls, decl.Apart := by
  intro decl hd
  cases makesDecl_of_mem h decl hd
  case constants b hb hd => exact UniformBuffer.apart_of_raw (hraw b hb) decl hd
  case sampler hmade =>
    have ⟨_, hd⟩ := exists_type_of_samplerDecl hmade
    subst hd
    exact Decl.apart_of_eq rfl SamplerKey.apart_name
  case buffer => exact Decl.apart_of_eq rfl Storage.apart_data
  case view _ hmade hd => exact apart_of_uavDecls hmade decl hd
  case shared => exact Decl.apart_of_eq rfl (Apart.append (by decide))

theorem apart_immediatesDecl : ∀ decl ∈ r.immediatesDecl d, decl.Apart := by
  have himmediates : Apart Name.immediates.text := by decide
  unfold immediatesDecl
  split
  case h_1 => exact List.forall_mem_nil _
  case h_2 =>
    split_ifs <;> exact List.forall_mem_singleton.mpr (Decl.apart_of_eq rfl himmediates)

-- Without reflection data no constant has a name of its own.
theorem raw_of_collect {p : Program} (hp : p.constantBuffers = []) (h : collect d p = .ok r) :
    ∀ b ∈ r.constantBuffers.values, b.members = none := by
  refine List.forall_mem_map.mpr fun e he => ?_
  have ⟨size, dynamic, _, hb⟩ := (built_of_collect h).built e he
  rw [hb, hp]
  simp [UniformBuffer.build]

end Resources

theorem temp_ne_indexableTemp {m n : UInt32} :
    (Name.temp m).text ≠ (Name.indexableTemp n).text := by
  intro h
  have hhead := congrArg (·.toList.head?) h
  simp [Name.text] at hhead

-- Each of the names that are numbered without repetition stands in the list once.
theorem count_map {f : UInt32 → String} (hf : Function.Injective f) {keys : List UInt32}
    (hk : keys.Nodup) {before after : List String} {n : UInt32} (hb : f n ∉ before)
    (ha : f n ∉ after) :
    (before ++ keys.map f ++ after).count (f n) = if n ∈ keys then 1 else 0 := by
  rw [List.count_append, List.count_append, List.count_eq_zero.mpr hb, List.count_eq_zero.mpr ha,
    List.count_map_of_injective _ _ hf, hk.count, Nat.zero_add, Nat.add_zero]

namespace Shader

-- How often a name is declared.
def declarations (s : Shader) (name : Name) : Nat :=
  (s.source.decls.flatMap Decl.identifiers).count name.text

end Shader

theorem Context.flatMap_registerDecls {c : Context} :
    c.registerDecls.flatMap Decl.identifiers =
      c.temps.keys.map (fun n => (Name.temp n).text) ++
        c.program.indexableTemps.keys.map (fun n => (Name.indexableTemp n).text) ++
        (c.sizes.decls c.stage).flatMap Decl.identifiers := by
  rw [registerDecls, List.flatMap_append, List.flatMap_append,
    Decl.flatMap_identifiers fun _ => rfl, Decl.flatMap_identifiers fun _ => rfl, SortedMap.keys,
    SortedMap.keys, List.map_map, List.map_map]
  rfl

namespace Program.Lifted

variable {p : Program} {o : Options} {s : Shader} {c : Context} {phases : Option Phases}
variable (l : p.Lifted o s c phases) (hp : p.constantBuffers = []) {n : UInt32}

include l hp

theorem exists_identifiers : ∃ before after,
    s.source.decls.flatMap Decl.identifiers =
      before ++ c.temps.keys.map (fun n => (Name.temp n).text) ++
        p.indexableTemps.keys.map (fun n => (Name.indexableTemp n).text) ++ after ∧
      (∀ identifier ∈ before, Apart identifier) ∧ ∀ identifier ∈ after, Apart identifier := by
  have ⟨layouts, resources, hlayouts, hresources, hdecls⟩ := Context.exists_parts l.decls
  have hi := Interface.bordered_of_build l.interface
  have hraw := Resources.raw_of_collect hp l.resources
  have hbefore : ∀ decl ∈ layouts ++ resources ++ c.interface.vars.map Decl.interface ++
      c.resources.immediatesDecl c.dialect, decl.Apart := by
    simp only [List.forall_mem_append, List.forall_mem_map]
    refine ⟨⟨⟨?layouts, ?resources⟩, ?vars⟩, Resources.apart_immediatesDecl⟩
    case layouts => exact fun decl hd => Decl.IsLayout.apart (hlayouts decl hd)
    case resources => exact Resources.apart_of_decls hraw hresources
    case vars => exact fun v hv => Decl.apart_of_eq rfl (.inl (hi.vars v hv))
  have hafter : ∀ decl ∈ c.sizes.decls c.stage, decl.Apart :=
    List.forall_mem_map.mpr fun _ _ => Decl.apart_of_eq rfl RegisterFile.apart_name
  refine ⟨_, _, ?_, List.forall_mem_flatMap.mpr hbefore, List.forall_mem_flatMap.mpr hafter⟩
  rw [hdecls, List.flatMap_append, Context.flatMap_registerDecls, l.program, ← List.append_assoc,
    ← List.append_assoc]

theorem declarations_temp : s.declarations (.temp n) = if n ∈ c.temps.keys then 1 else 0 := by
  have ⟨before, after, h, hbefore, hafter⟩ := l.exists_identifiers hp
  have ⟨_, _, hsorted, _⟩ := Program.exists_written l.temps
  have hinj : Function.Injective fun n => (Name.temp n).text :=
    fun _ _ h => decimal_inj.mp (append_cancel_left h)
  rw [Shader.declarations, h, List.append_assoc]
  refine count_map hinj hsorted.nodup_keys (fun hm => (hbefore _ hm).ne_temp rfl) fun hm => ?_
  cases List.mem_append.mp hm
  case inl hm =>
    have ⟨m, _, hm⟩ := List.mem_map.mp hm
    exact temp_ne_indexableTemp hm.symm
  case inr hm => exact (hafter _ hm).ne_temp rfl

theorem declarations_indexableTemp :
    s.declarations (.indexableTemp n) = if n ∈ p.indexableTemps.keys then 1 else 0 := by
  have ⟨before, after, h, hbefore, hafter⟩ := l.exists_identifiers hp
  have hinj : Function.Injective fun n => (Name.indexableTemp n).text :=
    fun _ _ h => decimal_inj.mp (append_cancel_left h)
  rw [Shader.declarations, h]
  refine count_map hinj Program.sorted_indexableTemps.nodup_keys (fun hm => ?_)
    fun hm => (hafter _ hm).ne_indexableTemp rfl
  cases List.mem_append.mp hm
  case inl hm => exact (hbefore _ hm).ne_indexableTemp rfl
  case inr hm =>
    have ⟨m, _, hm⟩ := List.mem_map.mp hm
    exact temp_ne_indexableTemp hm

end Program.Lifted

theorem Program.constantBuffers_of_decode {tokens : List UInt32} {p : Program}
    (h : decode tokens = .ok p) : p.constantBuffers = [] := by
  unfold decode at h
  split at h
  case h_2 => cases h
  case h_1 =>
    split at h
    case h_2 => cases h
    case h_1 =>
      dsimp only at h
      split at h
      case isTrue => cases h
      case isFalse =>
        split at h
        case isTrue => cases h
        case isFalse =>
          have ⟨_, _, h⟩ := bind_eq_ok_iff.mp h
          cases h
          rfl

theorem Program.constantBuffers_of_link {p linked : Program} (h : p.link = .ok linked) :
    linked.constantBuffers = p.constantBuffers := by
  have ⟨_, _, h⟩ := bind_eq_ok_iff.mp h
  cases h
  rfl

-- Each register in a function comes from an operand, at whatever depth that stands in others.
def Registered (p : Program) (written : TempTypes) (s : Shader) : Name → Prop
  | .temp n => (∃ op, p.Uses op ∧ op.IsTemp n) ∧ s.declarations (.temp n) ≤ 1 ∧
    (s.declarations (.temp n) = 1 ↔ p.HasTemp written n)
  | .indexableTemp n =>
    (∃ op, p.Uses op ∧ op.register = .indexableTemp ∧ op.slot? = some n) ∧
      s.declarations (.indexableTemp n) ≤ 1 ∧ (s.declarations (.indexableTemp n) = 1 ↔
        ∃ decl ∈ p.declarations, Program.DeclaresArray n decl)
  | _ => True

theorem le_one_and_eq_one_iff {P : Prop} [Decidable P] {n : Nat} (h : n = if P then 1 else 0) :
    n ≤ 1 ∧ (n = 1 ↔ P) := by
  subst h
  split <;> simp_all

theorem Program.Lifted.registered {p : Program} {o : Options} {s : Shader} {c : Context}
    {phases : Option Phases} (l : p.Lifted o s c phases) (hp : p.constantBuffers = []) :
    ∃ written, p.writtenTemps c.dialect c.resources .empty p.instructions = .ok written ∧
      ∀ name, c.References name → Registered p written s name := by
  have ⟨written, hwritten, _, hkeys⟩ := exists_written l.temps
  refine ⟨written, hwritten, fun name hn => ?_⟩
  cases name
  case temp n =>
    have hn : c.names (.temp n) := hn.resolve_right id
    cases hn
    case temp op used kind slot =>
      refine ⟨⟨op, l.program ▸ used, kind, slot⟩, ?_⟩
      rw [← hkeys]
      exact le_one_and_eq_one_iff (l.declarations_temp hp)
  case indexableTemp n =>
    have hn : c.names (.indexableTemp n) := hn.resolve_right id
    cases hn
    case indexableTemp op used kind slot =>
      refine ⟨⟨op, l.program ▸ used, kind, slot⟩, ?_⟩
      rw [← mem_keys_indexableTemps]
      exact le_one_and_eq_one_iff (l.declarations_indexableTemp hp)
  all_goals trivial

theorem Shader.ofTokens_declares_registers {tokens : List UInt32} {o : Options} {s : Shader}
    (h : ofTokens tokens o = .ok s) : ∃ p linked c phases written,
    Program.decode tokens = .ok p ∧ p.link = .ok linked ∧ linked.Lifted o s c phases ∧
      linked.writtenTemps c.dialect c.resources .empty linked.instructions = .ok written ∧
      ∀ f ∈ s.source.functions.toList, ∀ line ∈ f.body,
        line.Over (Registered linked written s) := by
  have ⟨p, hdecode, h⟩ := bind_eq_ok_iff.mp h
  have ⟨linked, hlink, h⟩ := bind_eq_ok_iff.mp h
  have hdecode : Program.decode tokens = .ok p := mapError_eq_ok_iff.mp hdecode
  have hlink : p.link = .ok linked := mapError_eq_ok_iff.mp hlink
  have ⟨c, phases, l⟩ := Program.exists_lifted h
  have ⟨written, hwritten, hregistered⟩ := l.registered
    ((Program.constantBuffers_of_link hlink).trans (Program.constantBuffers_of_decode hdecode))
  refine ⟨p, linked, c, phases, written, hdecode, hlink, l, hwritten, fun f hf line hline => ?_⟩
  exact ((l.over f hf).body line hline).mono hregistered

-- `mov o0, cb0[x1[r5.x].x]`, with six registers and the array declared.
def declaredIndex : List UInt32 :=
  [0x50, 25, 0x04000859, 0x00208e46, 0, 1, 0x03000065, 0x001020f2, 0, 0x02000068, 6,
    0x04000069, 1, 4, 4, 0x09000036, 0x001020f2, 0, 0x04208e46, 0, 0x0420300a, 1, 0x0010000a, 5,
    0x0100003e]

theorem Shader.ofTokens_declares_registers_declaredIndex : ∃ s p linked c phases written,
    Shader.ofTokens declaredIndex {} = .ok s ∧
    s.declarations (.temp 5) = 1 ∧ s.declarations (.indexableTemp 1) = 1 ∧
    Program.decode declaredIndex = .ok p ∧ p.link = .ok linked ∧ linked.Lifted {} s c phases ∧
      linked.writtenTemps c.dialect c.resources .empty linked.instructions = .ok written ∧
      ∀ f ∈ s.source.functions.toList, ∀ line ∈ f.body,
        line.Over (Registered linked written s) := by
  obtain ⟨s, h, htemp, harray⟩ : ∃ s, Shader.ofTokens declaredIndex {} = .ok s ∧
      s.declarations (.temp 5) = 1 ∧ s.declarations (.indexableTemp 1) = 1 := by
    decide +kernel
  have ⟨p, linked, c, phases, written, hp⟩ := Shader.ofTokens_declares_registers h
  exact ⟨s, p, linked, c, phases, written, h, htemp, harray, hp⟩

-- The same without these declarations.
def nestedIndex : List UInt32 :=
  [0x50, 19, 0x04000859, 0x00208e46, 0, 1, 0x03000065, 0x001020f2, 0,
    0x09000036, 0x001020f2, 0, 0x04208e46, 0, 0x0420300a, 1, 0x0010000a, 5, 0x0100003e]

theorem Shader.registers_undeclared_nestedIndex : ∃ s, Shader.ofTokens nestedIndex {} = .ok s ∧
    (∃ f ∈ s.source.functions.toList, ∃ line ∈ f.body,
      line.text? = some "o[0] = cb0[floatBitsToInt(x1[floatBitsToInt(r5.x)].x)];") ∧
    s.declarations (.temp 5) = 0 ∧ s.declarations (.indexableTemp 1) = 0 := by
  decide +kernel

end ShaderLift
