import ShaderLift.Proofs.Access.Images

/-!
The samplers that single texels are fetched through. A texture that is sampled has no name of its
own for this, but is fetched from through one of its samplers, which compares if all of them do.
-/

namespace ShaderLift

open Glsl

-- The sampler that comes first among arguments.
def Glsl.Expr.firstSampler? : List Expr → Option SamplerKey
  | var (.sampler key) :: _ => some key
  | _ => none

-- The type of a sampler that compares.
def Glsl.IsShadowType (type : String) : Prop :=
  "Shadow".toList <:+ type.toList

instance {type : String} : Decidable (IsShadowType type) :=
  inferInstanceAs (Decidable (_ <:+ _))

-- A texture is sampled, and always with comparison.
def Program.OnlyCompares (p : Program) (texture : UInt32) : Prop :=
  p.Samples texture true ∧ ¬p.Samples texture false

theorem ResourceDimension.not_isShadowType {dimension : ResourceDimension} {name : String}
    {feature : Option Feature} {t : ValueType} (h : dimension.samplerName? = some (name, feature)) :
    ¬IsShadowType (t.letter ++ "sampler" ++ name) := by
  unfold samplerName? at h
  split at h
  case h_11 | h_12 | h_13 => cases h
  all_goals
    cases h
    cases t <;> decide

theorem Texture.gives_samplerType {d : Dialect} {t : Texture} {shadow : Bool} :
    Gives (fun type => IsShadowType type ↔ shadow) (t.samplerType d shadow) := by
  unfold samplerType
  split
  case h_2 => exact .error
  case h_1 dimension feature hname =>
    extract_lets shadowed typed
    have hshadowed (hs : shadow) : Gives (fun type => IsShadowType type ↔ shadow) (shadowed ()) :=
      .pure (by simp only [IsShadowType, String.toList_append, hs, List.suffix_append])
    have htyped : Gives (fun type => IsShadowType type ↔ shadow) (typed ()) := by
      refine .ite (fun hs => ?_) fun hs => .pure ?_
      case refine_1 =>
        exact .skip fun _ => .ite (fun _ => .skip fun _ => hshadowed hs) fun _ => hshadowed hs
      case refine_2 => simp [hs, ResourceDimension.not_isShadowType hname]
    split
    case h_1 => exact .skip fun _ => htyped
    case h_2 => exact htyped

namespace Resources

variable {d : Dialect} {p : Program} {r : Resources} {decls : List Decl} {key : SamplerKey}
variable {slot : UInt32} {unit : Nat} {visible : Bool} {precision : List String} {type : String}

theorem isShadowType_of_decls (h : r.decls d = .ok decls)
    (hd : .sampler unit visible precision type key ∈ decls) : IsShadowType type ↔ key.shadow := by
  cases makesDecl_of_mem h _ hd
  case constants hd => cases UniformBuffer.isConstants_decls _ hd
  case sampler hmade =>
    unfold samplerDecl at hmade
    split at hmade
    case h_2 => cases hmade
    case h_1 =>
      obtain ⟨_, htype, hmade⟩ := bind_eq_ok_iff.mp hmade
      cases hmade
      exact Texture.gives_samplerType.of_ok htype
  case view hmade hd =>
    obtain ⟨_, _, _, _, _, hd⟩ | ⟨_, _, hd⟩ := image_or_storage_of_uavDecls hmade hd <;> cases hd

theorem texture_of_fetchKey? (h : r.fetchKey? slot = some key) : key.texture = slot := by
  simp only [fetchKey?, Option.or_eq_some_iff] at h
  have hmem : key ∈ r.pairs.keys.filter (·.texture == slot) := by
    cases h
    case inl h => exact List.mem_of_find?_eq_some h
    case inr h => exact List.mem_of_head? h.right
  simpa using List.of_mem_filter hmem

theorem shadow_of_fetchKey? (h : r.fetchKey? slot = some key) (hs : key.shadow) :
    ∀ key' ∈ r.pairs.keys, key'.texture = slot → key'.shadow := by
  simp only [fetchKey?, Option.or_eq_some_iff] at h
  cases h
  case inl h =>
    have hplain := List.find?_some h
    simp [hs] at hplain
  case inr h =>
    intro key' hkey' htexture
    simpa using List.find?_eq_none.mp h.left key' (by simp [hkey', htexture])

theorem shadow_fetchKey?_iff (hp : r.Sampled p) (ho : r.Ordered) (h : r.fetchKey? slot = some key) :
    key.shadow ↔ p.OnlyCompares key.texture := by
  have hkey := mem_keys_of_fetchKey? h
  have hcovered {shadow : Bool} (hs : p.Samples key.texture shadow) :=
    hp.covered key.texture shadow hs (hp.apart key hkey)
  constructor
  case mp =>
    intro hs
    have hsampler : key.sampler ≠ none := fun hn => by simp [ho.shadow key hkey hn] at hs
    refine ⟨hs ▸ hp.sampled key hkey hsampler, fun hplain => ?_⟩
    obtain ⟨key', hkey', htexture, hplain⟩ := hcovered hplain
    have hs := shadow_of_fetchKey? h hs key' hkey' (htexture.trans (texture_of_fetchKey? h))
    simp [hplain] at hs
  case mpr =>
    intro hs
    by_contra hplain
    have hplain := Bool.eq_false_of_not_eq_true hplain
    by_cases hn : key.sampler = none
    case pos =>
      obtain ⟨key', hkey', htexture, hs⟩ := hcovered hs.left
      rw [hp.alone key hkey hn key' hkey' htexture, hplain] at hs
      cases hs
    case neg => exact hs.right (hplain ▸ hp.sampled key hkey hn)

end Resources

namespace Program

variable {p : Program} {o : Options} {s : Shader} {c : Context} {phases : Option Phases}

theorem Lifted.exists_fetchKey (l : p.Lifted o s c phases) {f : Function}
    {call : String × List Expr} (hf : f ∈ s.source.functions.toList) (hcall : call ∈ f.calls)
    (hfetch : call.1 ∈ ["texelFetch", "texelFetchOffset"]) :
    ∃ slot key, Expr.firstSampler? call.2 = some key ∧ c.resources.fetchKey? slot = some key := by
  obtain hfree | ⟨inst, _, haccess⟩ := l.accesses f hf call hcall
  case inl =>
    simp only [List.mem_cons, List.not_mem_nil, or_false] at hfetch
    obtain hfetch | hfetch := hfetch <;> exact absurd (hfetch ▸ hfree) (by decide)
  case inr =>
    obtain ⟨function, args⟩ := call
    obtain ⟨_, hreads⟩ | ⟨_, hpermits, _⟩ := haccess
    case fetch => exact ⟨_, _, rfl, hreads⟩
    case image => exact absurd hfetch hpermits.isImageFunction.not_fetch

theorem lift_fetch_compares_iff (h : p.lift o = .ok s) :
    ∀ f ∈ s.source.functions.toList, ∀ call ∈ f.calls,
      call.1 ∈ ["texelFetch", "texelFetchOffset"] →
        ∃ key, Expr.firstSampler? call.2 = some key ∧
          (∃ unit visible precision type,
            .sampler unit visible precision type key ∈ s.source.decls) ∧
          ∀ unit visible precision type, .sampler unit visible precision type key ∈ s.source.decls →
            (IsShadowType type ↔ p.OnlyCompares key.texture) := by
  obtain ⟨c, phases, l⟩ := exists_lifted h
  intro f hf call hcall hfetch
  obtain ⟨slot, key, hfirst, hkey⟩ := l.exists_fetchKey hf hcall hfetch
  refine ⟨key, hfirst, ?_, fun unit visible precision type hd => ?_⟩
  case refine_1 =>
    obtain ⟨resources, hresources, hmem, _⟩ := l.exists_resources
    obtain ⟨_, _, _, _, _, _, hd⟩ :=
      Resources.exists_sampler_of_mem_keys hresources (Resources.mem_keys_of_fetchKey? hkey)
    exact ⟨_, _, _, _, hmem _ hd⟩
  case refine_2 =>
    obtain ⟨resources, hresources, _, hinternal⟩ := l.exists_resourceDecls
    obtain hd | hd := hinternal _ hd
    case inr => cases hd
    case inl =>
      have hsampled := Resources.sampled_of_collect l.resources
      have hordered := Resources.ordered_of_collect l.resources
      exact (Resources.isShadowType_of_decls hresources hd).trans
        (Resources.shadow_fetchKey?_iff hsampled hordered hkey)

-- A texture that is sampled with and without comparison, and fetched from.
def mixedSampling : Program where
  declarations :=
    [.resource 0 .texture2D 0 ⟨.float, .float, .float, .float⟩, .sampler 0 .comparison,
      .sampler 1 .default].map (⟨·, 0, 0⟩)
  instructions :=
    [⟨.sampleC, .sample {}, [0, 1, 2, 3, 1], 0⟩, ⟨.sample, .sample {}, [0, 1, 2, 4], 0⟩,
      ⟨.ld, .sample {}, [0, 1, 2], 0⟩, ⟨.ret, .flow, [], 0⟩]
  operands :=
    #[{ register := .temp, selection := .mask .xyzw, indices := [.imm 0] },
      { register := .temp, indices := [.imm 0] }, { register := .resource, indices := [.imm 0] },
      { register := .sampler, indices := [.imm 0] }, { register := .sampler, indices := [.imm 1] }]

theorem lift_fetch_compares_iff_mixedSampling :
    ∃ s, mixedSampling.lift {} = .ok s ∧ ∃ f ∈ s.source.functions.toList, ∃ call ∈ f.calls,
      call.1 = "texelFetch" ∧ Expr.firstSampler? call.2 = some ⟨0, some 1, false⟩ ∧
      ∃ unit visible precision type,
        .sampler unit visible precision type ⟨0, some 1, false⟩ ∈ s.source.decls ∧
        (IsShadowType type ↔ mixedSampling.OnlyCompares 0) ∧ ¬IsShadowType type := by
  obtain ⟨s, h, f, hf, call, hcall, hname, hfirst⟩ : ∃ s, mixedSampling.lift {} = .ok s ∧
      ∃ f ∈ s.source.functions.toList, ∃ call ∈ f.calls,
        call.1 = "texelFetch" ∧ Expr.firstSampler? call.2 = some ⟨0, some 1, false⟩ := by
    decide +kernel
  have hplain : mixedSampling.Samples 0 false :=
    ⟨_, List.mem_cons_of_mem _ List.mem_cons_self, 2, 3, rfl, rfl⟩
  obtain ⟨key, hkey, ⟨unit, visible, precision, type, hd⟩, hiff⟩ :=
    lift_fetch_compares_iff h f hf call hcall (by simp [hname])
  cases hfirst.symm.trans hkey
  have hiff := hiff unit visible precision type hd
  refine ⟨s, h, f, hf, call, hcall, hname, hfirst, unit, visible, precision, type, hd, hiff, ?_⟩
  exact fun htype => (hiff.mp htype).right hplain

end Program

-- `sample_c r0.x, r0.xyzw, t0.xyzw, s0, r0.x; ld r0.xyzw, r0.xyzw, t0.xyzw; ret`.
def comparedTexture : List UInt32 :=
  [0x50, 28, 0x0300085a, 0x00106000, 0, 0x04001858, 0x00107000, 0, 0x5555,
    0x0b000046, 0x00100012, 0, 0x00100e46, 0, 0x00107e46, 0, 0x00106000, 0, 0x0010000a, 0,
    0x0700002d, 0x001000f2, 0, 0x00100e46, 0, 0x00107e46, 0, 0x0100003e]

theorem Program.fetch_compares_comparedTexture : ∃ s, Shader.ofTokens comparedTexture {} = .ok s ∧
    (∃ f ∈ s.source.functions.toList,
      "    r0 = texelFetch(t0_s0_cmp, floatBitsToInt(r0.xy), floatBitsToInt(r0.w));" ∈ f.text) ∧
    ∃ decl ∈ s.source.decls, decl.lines = ["uniform sampler2DShadow t0_s0_cmp;"] := by
  decide +kernel

end ShaderLift
