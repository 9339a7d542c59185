import ShaderLift.Proofs.Glsl.Braces

/-!
The braces of declarations and of whole shaders. Of the declarations only blocks have braces, and
they close what they open.
-/

namespace ShaderLift.Glsl

@[simp] theorem Decl.plain_layoutText {properties : List String} :
    Plain (layoutText properties) ↔ ∀ t ∈ properties, Plain t := by
  simp +decide [layoutText, plain_joinWith]

@[simp] theorem InterfaceVariable.plain_text {v : InterfaceVariable} :
    Plain v.text ↔ (∀ q ∈ v.qualifiers, Plain q) ∧ Plain v.type ∧ Plain v.name := by
  have hend : Plain (if v.isArray then "[];" else ";") := by
    split <;> decide
  simp +decide [text, plain_joinWith, hend, or_imp, forall_and]

@[simp] theorem plain_subscript {length : UInt32} : Plain (subscript length) := by
  simp +decide [subscript]

@[simp] theorem Declarator.plain_text {d : Declarator} :
    Plain d.text ↔ Plain d.type ∧ Plain d.name := by
  have hlength : Plain ((d.length.map subscript).getD "") := by
    cases d.length
    case none => decide
    case some => exact plain_subscript
  simp +decide [text, hlength]

@[simp] theorem BlockMember.plain_padding {slot : UInt32} {word : Nat} :
    Plain (padding slot word).text := by
  unfold text
  simp +decide

@[simp] theorem BlockMember.plain_member {offset : Option UInt32} {d : Declarator} :
    Plain (member offset d).text ↔ Plain d.text := by
  unfold text
  cases offset <;> simp +decide

@[simp] theorem Storage.plain_blockName {s : Storage} : Plain s.blockName := by
  cases s <;> simp +decide [blockName]

@[simp] theorem Storage.plain_content {s : Storage} : Plain s.content := by
  cases s <;> simp +decide [content, Name.text]

theorem plain_commaLines {items : List String} :
    (∀ t ∈ commaLines items, Plain t) ↔ ∀ t ∈ items, Plain t := by
  fun_induction commaLines items
  case case1 | case2 => rfl
  case case3 hi => simp_all +decide

theorem balanced_of_plain {lines : List String} (h : ∀ t ∈ lines, Plain t) :
    Balanced (lines.flatMap (braces ·.toList)) :=
  braces_plain_lines h ▸ .nil

namespace Decl

-- What the parts of a declaration have to be like for its braces to match.
def IsPlain : Decl → Prop
  | stageLayout properties direction => (∀ t ∈ properties, Plain t) ∧ Plain direction
  | depthLayout property => Plain property
  | uniformBlock _ _ name members => Plain name ∧ ∀ m ∈ members, Plain m.text
  | uniform _ _ declarator => Plain declarator.text
  | sampler _ _ precision type _ => (∀ t ∈ precision, Plain t) ∧ Plain type
  | storage _ _ _ qualifiers => ∀ t ∈ qualifiers, Plain t
  | image _ _ _ format qualifiers type => Plain format ∧ (∀ t ∈ qualifiers, Plain t) ∧ Plain type
  | interface var => Plain var.text
  | immediates type _ rows => Plain type ∧ ∀ row ∈ rows.getD [], Plain row.text
  | temp type _ => Plain type
  | shared _ _ | indexableTemp _ _ | file _ _ => True

@[simp] theorem mem_bindingProperty {visible : Bool} {binding : Nat} {t : String} :
    t ∈ bindingProperty visible binding ↔ visible ∧ t = "binding = " ++ toString binding := by
  unfold bindingProperty
  split <;> simp_all

theorem braces_uniformBlock {slot : UInt32} {showBinding : Bool} {name : String}
    {members : List BlockMember} (hn : Plain name) (hm : ∀ m ∈ members, Plain m.text) :
    (uniformBlock slot showBinding name members).lines.flatMap (braces ·.toList) =
      [openBrace, closeBrace] := by
  have hbody : (members.map (indent 1 ·.text)).flatMap (braces ·.toList) = [] :=
    braces_plain_lines (List.forall_mem_map.mpr fun m h => plain_indent.mpr (hm m h))
  have hhead : Plain (layoutText ("std140" :: bindingProperty showBinding slot.toNat) ++
      " uniform " ++ name) := by
    simp +decide [hn]
  rw [lines, List.flatMap_append, List.flatMap_append, hbody, List.flatMap_singleton,
    braces_plain_append hhead]
  decide

theorem braces_storage {s : Storage} {binding : Nat} {showBinding : Bool}
    {qualifiers : List String} (hq : ∀ t ∈ qualifiers, Plain t) :
    (storage s binding showBinding qualifiers).lines.flatMap (braces ·.toList) =
      [openBrace, closeBrace] := by
  have hlayout : Plain (layoutText ("std430" :: bindingProperty showBinding binding)) := by
    simp +decide
  rw [lines, List.flatMap_singleton, braces_joinWith (by decide)]
  simp only [List.cons_append, List.flatMap_cons, List.flatMap_append, List.flatMap_nil,
    hlayout.braces, braces_plain_lines hq, Storage.plain_blockName.braces,
    Storage.plain_content.braces]
  decide

def IsBlock : Decl → Prop
  | uniformBlock _ _ _ _ | storage _ _ _ _ => True
  | _ => False

theorem IsPlain.plain_lines {decl : Decl} (h : decl.IsPlain) (hb : ¬ decl.IsBlock) :
    ∀ t ∈ decl.lines, Plain t := by
  cases decl
  case uniformBlock | storage => exact absurd trivial hb
  case immediates rows => cases rows <;> simp_all +decide [lines, IsPlain, plain_commaLines, or_imp]
  all_goals
    simp_all +decide [lines, IsPlain, plain_joinWith, or_imp, SamplerKey.isWord_name.plain,
      RegisterFile.isWord_name.plain, Name.text]

theorem IsPlain.balanced {decl : Decl} (h : decl.IsPlain) :
    Balanced (decl.lines.flatMap (braces ·.toList)) := by
  by_cases hb : decl.IsBlock
  case neg => exact balanced_of_plain (h.plain_lines hb)
  case pos =>
    cases decl
    case uniformBlock => exact braces_uniformBlock h.left h.right ▸ balanced_iff.mpr rfl
    case storage => exact braces_storage h ▸ balanced_iff.mpr rfl
    all_goals cases hb

end Decl

structure Function.Sound (f : Function) : Prop where
  signature : Plain f.signature
  body      : Balanced (braceWord f.body)

theorem Function.sound_mk {signature : String} {body : List Line} (hs : Plain signature)
    (hb : Balanced (braceWord body)) : Sound ⟨signature, body⟩ :=
  ⟨hs, hb⟩

theorem Function.Sound.balanced {f : Function} (h : f.Sound) :
    Balanced (f.text.flatMap (braces ·.toList)) := by
  rw [text, braces_renderLines]
  exact balanced_block (N := fun _ => False) nofun h.signature h.body

namespace Functions

def toList : Functions → List Function
  | single store _ main subroutines => store.toList ++ main :: subroutines
  | phased controlPoint forks joins main => controlPoint ++ forks ++ joins ++ [main]

theorem plain_prototype {label : UInt32} : Plain (prototype label) := by
  simp +decide [prototype, isWord_subroutineName.plain]

theorem braces_phasesLines {fs : List Function} :
    (phasesLines fs).flatMap (braces ·.toList) =
      fs.flatMap fun f => f.text.flatMap (braces ·.toList) := by
  fun_induction phasesLines fs
  case case1 => rfl
  case case2 => simp
  case case3 hi => simp [hi, braces_takeOver, braces_unlines]

theorem balanced_phases {fs : List Function} (h : ∀ f ∈ fs, f.Sound) :
    Balanced ((takeOver (phasesText fs)).flatMap (braces ·.toList)) := by
  rw [braces_takeOver, phasesText, braces_unlines, braces_phasesLines]
  exact balanced_flatMap fun f hf => (h f hf).balanced

theorem balanced_sections {fs : Functions} (h : ∀ f ∈ fs.toList, f.Sound) :
    ∀ part ∈ fs.sections, Balanced (part.flatMap (braces ·.toList)) := by
  cases fs
  case single store labels main subroutines =>
    have ⟨hstore, hrest⟩ := List.forall_mem_append.mp h
    have ⟨hmain, hsubroutines⟩ := List.forall_mem_cons.mp hrest
    simp only [sections, List.forall_mem_append, List.forall_mem_cons, List.forall_mem_map]
    simp only [braces_takeOver, braces_unlines]
    refine ⟨⟨fun f hf => (hstore f hf).balanced, ?_⟩, hmain.balanced,
      fun f hf => (hsubroutines f hf).balanced⟩
    split
    case isTrue => exact List.forall_mem_nil _
    case isFalse =>
      refine List.forall_mem_singleton.mpr (balanced_of_plain ?_)
      exact List.forall_mem_map.mpr fun _ _ => plain_prototype
  case phased =>
    simp only [toList, List.forall_mem_append] at h
    obtain ⟨⟨⟨hpoints, hforks⟩, hjoins⟩, hmain⟩ := h
    simp only [sections, List.forall_mem_map, List.forall_mem_cons]
    refine ⟨balanced_phases hpoints, balanced_phases hforks, balanced_phases hjoins, ?_,
      List.forall_mem_nil _⟩
    rw [braces_takeOver, braces_unlines]
    exact (hmain _ List.mem_cons_self).balanced

end Functions

theorem Source.balanced_text {s : Source} (hp : ∀ line ∈ s.preamble, Plain line)
    (hd : ∀ decl ∈ s.decls, decl.IsPlain) (hf : ∀ f ∈ s.functions.toList, f.Sound) :
    Balanced s.text.toList := by
  rw [← Balanced.braces_iff, text, braces_unlines, braces_joinSections]
  refine balanced_flatMap (List.forall_mem_cons.mpr ⟨balanced_of_plain hp, ?_⟩)
  refine List.forall_mem_cons.mpr ⟨?_, Functions.balanced_sections hf⟩
  rw [braces_takeOver, braces_unlines, List.flatMap_assoc]
  exact balanced_flatMap fun decl h => (hd decl h).balanced

end ShaderLift.Glsl
