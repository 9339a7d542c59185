import ShaderLift.Proofs.Lift.Resources
import ShaderLift.Lift.Header

/-!
What stands in front of the functions of a shader is made of words, up to the braces of blocks.
-/

namespace ShaderLift

variable {d : Dialect}

open Glsl Std.Do

set_option mvcgen.warning false

@[simp] theorem ValueType.plain_letter {t : ValueType} : Plain t.letter := by
  cases t <;> decide

theorem ResourceDimension.plain_samplerName {dimension : ResourceDimension} {name : String}
    {feature : Option Feature} (h : dimension.samplerName? = some (name, feature)) :
    Plain name := by
  cases dimension <;> cases h <;> decide

theorem ResourceDimension.plain_imageName {dimension : ResourceDimension} {name : String}
    (h : dimension.imageName? = some name) : Plain name := by
  cases dimension <;> cases h <;> decide

theorem Uav.plain_format {u : Uav} : Plain u.format := by
  simp only [format]
  split <;> split <;> decide

theorem Uav.plain_accessQualifier {u : Uav} : ∀ t ∈ u.accessQualifier, Plain t := by
  unfold accessQualifier
  split_ifs <;> split <;> simp +decide

@[spec] theorem Dialect.require_spec {f : Feature} {index : Option Nat} :
    ⦃⌜True⌝⦄ d.require f index ⦃⇓? _ => ⌜True⌝⦄ :=
  returns_iff.mpr fun _ _ => trivial

@[spec] theorem Texture.samplerType_spec {t : Texture} {shadow : Bool} :
    ⦃⌜True⌝⦄ t.samplerType d shadow ⦃⇓? type => ⌜Plain type⌝⦄ := by
  mvcgen [samplerType]
    with simp +decide [ResourceDimension.plain_samplerName ‹_ = some (_, _)›]

namespace Member

variable {d : Dialect} {m : Member} {slot cursor : UInt32} {ms : List Member}

theorem plain_typeName : Plain (m.typeName d) := by
  simp only [typeName]
  split
  case isTrue => split <;> simp +decide
  case isFalse => split <;> simp +decide [ValueType.isWord_vecName.plain, apply_ite Plain]

theorem plain_declarator (h : IsWord m.name) : Plain (m.declarator d).text :=
  Declarator.plain_text.mpr ⟨plain_typeName, h.plain⟩

theorem plain_blockMembers (h : ∀ m ∈ ms, IsWord m.name) :
    ∀ m ∈ blockMembers d slot cursor ms, Plain m.text := by
  induction ms generalizing cursor
  case nil => exact List.forall_mem_nil _
  case cons m ms hi =>
    have ⟨hm, hms⟩ := List.forall_mem_cons.mp h
    have hrest : ∀ b ∈ blockMembers d slot (m.offset + m.size) ms, Plain b.text := hi hms
    have hm := plain_declarator (d := d) hm
    simp only [blockMembers]
    split
    case isTrue => exact List.forall_mem_cons.mpr ⟨BlockMember.plain_member.mpr hm, hrest⟩
    case isFalse =>
      refine List.forall_mem_append.mpr ⟨?_, ?_⟩
      case refine_1 => simp
      case refine_2 => exact List.forall_mem_cons.mpr ⟨BlockMember.plain_member.mpr hm, hrest⟩

end Member

theorem UniformBuffer.Worded.isPlain {b : UniformBuffer} (h : b.Worded) :
    ∀ decl ∈ b.decls d, decl.IsPlain := by
  have hraw :
      Plain (Declarator.text ⟨"vec4", (Name.constants b.slot).text, some (max b.size 1)⟩) := by
    simp +decide [Name.text]
  simp only [decls]
  split
  case h_1 => simp [Decl.IsPlain, h.block.plain, hraw]
  case h_2 => exact List.forall_mem_singleton.mpr hraw
  case h_3 ms hms _ =>
    have hmembers : ∀ m ∈ Member.blockMembers d b.slot 0 ms, Plain m.text :=
      Member.plain_blockMembers (h.members ms hms)
    simpa [Decl.IsPlain, h.block.plain] using hmembers
  case h_4 ms hms _ =>
    exact List.forall_mem_map.mpr fun m hm => Member.plain_declarator (h.members ms hms m hm)

namespace Resources

variable {d : Dialect} {r : Resources} {slot : UInt32} {u : Uav}

theorem plain_precision : ∀ t ∈ precision d, Plain t := by
  unfold precision
  split <;> simp +decide

theorem plain_samplerPrecision : ∀ t ∈ samplerPrecision d, Plain t := by
  unfold samplerPrecision
  split
  case isTrue => exact plain_precision
  case isFalse => exact List.forall_mem_nil _

@[spec] theorem samplerDecl_spec {key : SamplerKey} {unit : Nat} :
    ⦃⌜True⌝⦄ r.samplerDecl d key unit ⦃⇓? decl => ⌜decl.IsPlain⌝⦄ := by
  mvcgen [samplerDecl]
  exact ⟨plain_samplerPrecision, ‹_›⟩

@[spec] theorem uavDecls_spec :
    ⦃⌜True⌝⦄ r.uavDecls d slot u ⦃⇓? decls => ⌜∀ decl ∈ decls, decl.IsPlain⌝⦄ := by
  have hcoherent : ∀ t ∈ if u.coherent then ["coherent"] else [], Plain t := by
    split <;> simp +decide
  have hcounter : ∀ decl ∈ if u.hasCounter then [r.storageDecl d (.counter slot) []] else [],
      decl.IsPlain := by
    split <;> simp [storageDecl, Decl.IsPlain]
  mvcgen [uavDecls]
  case vc1 =>
    refine List.forall_mem_cons.mpr ⟨⟨Uav.plain_format, ?_, ?_⟩, hcounter⟩
    case refine_1 =>
      exact List.forall_mem_append.mpr
        ⟨List.forall_mem_append.mpr ⟨hcoherent, Uav.plain_accessQualifier⟩, plain_precision⟩
    case refine_2 => simp +decide [ResourceDimension.plain_imageName ‹_ = some _›]
  case vc3 => exact List.forall_mem_cons.mpr ⟨hcoherent, hcounter⟩

theorem decls_spec (h : r.Worded) :
    ⦃⌜True⌝⦄ r.decls d ⦃⇓? decls => ⌜∀ decl ∈ decls, decl.IsPlain⌝⦄ := by
  have hconstants : ∀ decl ∈ r.constantBuffers.values.flatMap (UniformBuffer.decls d),
      decl.IsPlain := by
    intro decl hd
    obtain ⟨b, hb, hd⟩ := List.mem_flatMap.mp hd
    exact (h b hb).isPlain decl hd
  have each {α : Type} {f : α → Except LiftError Decl} {l : List α} :=
    mapM_spec (f := f) (l := l) (P := Decl.IsPlain)
  have lists {α : Type} {f : α → Except LiftError (List Decl)} {l : List α} :=
    mapM_spec (f := f) (l := l) (P := fun decls => ∀ decl ∈ decls, decl.IsPlain)
  mvcgen [decls, each, lists]
  case vc1 => simp +decide [storageDecl, Decl.IsPlain]
  case vc2 samplers hsamplers buffers hbuffers uavs shared huavs =>
    have huavs : ∀ decl ∈ uavs.flatten, decl.IsPlain := by
      intro decl hd
      obtain ⟨ds, hds, hd⟩ := List.mem_flatten.mp hd
      exact huavs ds hds decl hd
    have hshared : ∀ decl ∈ shared, decl.IsPlain := List.forall_mem_map.mpr fun _ _ => trivial
    simp only [List.forall_mem_append]
    exact ⟨⟨⟨⟨hconstants, hsamplers⟩, hbuffers⟩, huavs⟩, hshared⟩

@[simp] theorem over_floatRow {N : Name → Prop} {row : List UInt32} : (floatRow d row).Over N := by
  refine ⟨by decide, Expr.overs_iff.mpr (List.forall_mem_map.mpr fun word _ => ?_)⟩
  split <;> simp

@[simp] theorem over_uintRow {N : Name → Prop} {row : List UInt32} : (uintRow row).Over N :=
  ⟨by decide, Expr.overs_iff.mpr (List.forall_mem_map.mpr fun _ _ => trivial)⟩

theorem plain_immediatesDecl : ∀ decl ∈ r.immediatesDecl d, decl.IsPlain := by
  have htext {e : Expr} (h : e.Over Name.IsPlain) : Plain e.text := Expr.plain_text (fun _ => id) h
  simp only [immediatesDecl]
  split
  case h_1 => exact List.forall_mem_nil _
  case h_2 => split_ifs <;> simp +decide [Decl.IsPlain, htext]

theorem balanced_immediatesInit : Balanced (braceWord (r.immediatesInit d)) := by
  unfold immediatesInit
  split
  case isTrue => exact .nil
  case isFalse =>
    refine balanced_braceWord (List.forall_mem_map.mpr fun _ _ => ?_)
    refine Line.balanced_stmts (N := Name.IsPlain) (fun _ => id) (List.forall_mem_singleton.mpr ?_)
    exact ⟨by simp +decide [Name.IsPlain], over_floatRow⟩

end Resources

theorem Version.plain_directive {v : Version} : Plain v.directive := by
  simp only [directive]
  split_ifs <;> simp +decide

@[simp] theorem PrimitiveTopology.plain_layoutName {t : PrimitiveTopology} :
    Plain t.layoutName := by
  cases t <;> decide

@[simp] theorem TessDomain.plain_layoutName {t : TessDomain} : Plain t.layoutName := by
  cases t <;> decide

@[simp] theorem TessPartitioning.plain_layoutName {t : TessPartitioning} : Plain t.layoutName := by
  cases t <;> decide

theorem TessOutputPrimitive.plain_layoutNames {t : Option TessOutputPrimitive} :
    ∀ name ∈ (t.map layoutNames).getD [], Plain name := by
  cases t
  case none => exact List.forall_mem_nil _
  case some t => cases t <;> decide

namespace Context

variable {c : Context}

theorem plain_preamble {extensions : List Extension} :
    ∀ line ∈ c.preamble extensions, Plain line := by
  have hextension (e : Extension) : Plain ("#extension " ++ e.name ++ " : enable") := by
    cases e <;> decide
  simp only [preamble, List.forall_mem_append, List.forall_mem_map]
  refine ⟨⟨List.forall_mem_singleton.mpr Version.plain_directive, fun e _ => hextension e⟩, ?_⟩
  split_ifs <;> decide

@[spec] theorem geometryLayout_spec :
    ⦃⌜True⌝⦄ c.geometryLayout ⦃⇓? decls => ⌜∀ decl ∈ decls, decl.IsPlain⌝⦄ := by
  have hinput {i : InputPrimitive} {name : String} (h : i.layoutName? = some name) :
      Plain name := by
    cases i <;> cases h <;> decide
  mvcgen [geometryLayout] with simp +zetaDelta +decide [Decl.IsPlain]
  all_goals exact hinput ‹_›

@[spec] theorem stageLayout_spec :
    ⦃⌜True⌝⦄ c.stageLayout ⦃⇓? decls => ⌜∀ decl ∈ decls, decl.IsPlain⌝⦄ := by
  mvcgen [stageLayout] with simp +zetaDelta +decide [Decl.IsPlain]
  case vc2 => exact TessOutputPrimitive.plain_layoutNames

theorem plain_depthLayout : ∀ decl ∈ c.depthLayout, decl.IsPlain := by
  simp only [depthLayout]
  split_ifs <;> simp +decide [Decl.IsPlain]

theorem plain_registerDecls : ∀ decl ∈ c.registerDecls, decl.IsPlain := by
  simp only [registerDecls, FileSizes.decls, List.forall_mem_append, List.forall_mem_map]
  exact ⟨⟨fun _ _ => ValueType.isWord_vecName.plain, fun _ _ => trivial⟩, fun _ _ => trivial⟩

theorem isPlain_of_decls {decls : List Decl} (hr : c.resources.Worded) (hi : c.interface.Sound)
    (h : c.decls = .ok decls) : ∀ decl ∈ decls, decl.IsPlain := by
  have resources := Resources.decls_spec (d := c.dialect) hr
  have hvars : ∀ decl ∈ c.interface.vars.map Decl.interface, decl.IsPlain :=
    List.forall_mem_map.mpr hi.vars
  have hdecls : ⦃⌜True⌝⦄ c.decls ⦃⇓? decls => ⌜∀ decl ∈ decls, decl.IsPlain⌝⦄ := by
    mvcgen [Context.decls, resources]
    case vc1 hlayout _ _ hresources _ =>
      simp only [List.forall_mem_append]
      exact ⟨⟨⟨⟨⟨hlayout, plain_depthLayout⟩, hresources⟩, hvars⟩,
        Resources.plain_immediatesDecl⟩, plain_registerDecls⟩
  exact returns_iff.mp hdecls decls h

end Context

end ShaderLift
