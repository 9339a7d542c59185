import ShaderLift.Proofs.Glsl.Declaration

/-!
Printed lines hold no line break, so text that is cut into lines again gives them back.
-/

namespace ShaderLift

theorem unbroken_joinWith {s : String} {items : List String} (hs : Unbroken s)
    (h : ∀ t ∈ items, Unbroken t) : Unbroken (joinWith s items) := by
  fun_induction joinWith s items
  case case1 => exact List.forall_mem_nil _
  case case2 item => exact h item List.mem_cons_self
  case case3 hi =>
    obtain ⟨hitem, hitems⟩ := List.forall_mem_cons.mp h
    exact unbroken_append.mpr ⟨unbroken_append.mpr ⟨hitem, hs⟩, hi hitems⟩

namespace Glsl

-- A line that ends here is kept as it is.
theorem cutLines_feed {line front rest : List Char} (hf : '\r' ∉ front)
    (hl : ∀ c ∈ line, c ∉ ['\n', '\r']) :
    cutLines front (line ++ '\n' :: rest) = (front.reverse ++ line) :: cutLines [] rest := by
  induction line generalizing front
  case nil =>
    have hlast : front.head? ≠ some '\r' := fun h => hf (List.mem_of_mem_head? h)
    simp [cutLines, hlast]
  case cons c line hi =>
    obtain ⟨hc, hl⟩ := List.forall_mem_cons.mp hl
    simp only [List.mem_cons, List.not_mem_nil, or_false, not_or] at hc
    have hfront : '\r' ∉ c :: front := List.not_mem_cons_of_ne_of_not_mem (Ne.symm hc.right) hf
    simp [cutLines, hc.left, hi hfront hl]

theorem takeOver_unlines {lines : List String} (h : ∀ line ∈ lines, Unbroken line) :
    takeOver (unlines lines) = lines := by
  induction lines
  case nil => rfl
  case cons line lines hi =>
    obtain ⟨hline, hlines⟩ := List.forall_mem_cons.mp h
    have htext : (unlines (line :: lines)).toList =
        line.toList ++ '\n' :: (unlines lines).toList := by
      simp [unlines, String.join_cons]
    rw [takeOver, htext, cutLines_feed List.not_mem_nil hline, List.map_cons]
    rw [List.reverse_nil, List.nil_append, String.ofList_toList]
    exact congrArg _ (hi hlines)

theorem Jump.unbroken_text {j : Jump} : Unbroken j.text := by
  cases j
  case call => exact unbroken_append.mpr ⟨isWord_subroutineName.plain.unbroken, by decide⟩
  all_goals decide

section

variable {N : Name → Prop} (hN : ∀ name, N name → Plain name.text)

include hN

theorem Expr.unbroken_text {e : Expr} (h : e.Over N) : Unbroken e.text :=
  (plain_text hN h).unbroken

theorem Stmt.unbroken_text {s : Stmt} (h : s.Over N) : Unbroken s.text := by
  cases s
  case assign =>
    simp +decide [text, Expr.unbroken_text hN h.left, Expr.unbroken_text hN h.right]
  case eval => exact unbroken_append.mpr ⟨Expr.unbroken_text hN h, by decide⟩
  case declare =>
    have hnames := unbroken_joinWith (s := ", ") (by decide) <|
      List.forall_mem_map.mpr fun name hm => (hN name (h.right name hm)).unbroken
    simp +decide [text, h.left.plain.unbroken, hnames]
  case define =>
    simp +decide [text, h.left.plain.unbroken, (hN _ h.right.left).unbroken,
      Expr.unbroken_text hN h.right.right]
  case jump => exact Jump.unbroken_text
  case jumpIf => simp +decide [text, Expr.unbroken_text hN h.left, Jump.unbroken_text]
  case flush => decide

theorem Head.unbroken_text {head : Head} (h : head.Over N) : Unbroken head.text := by
  cases head
  case function => exact unbroken_append.mpr ⟨Plain.unbroken h, by decide⟩
  case when | choice =>
    have htest := Expr.unbroken_text hN h
    exact unbroken_append.mpr ⟨unbroken_append.mpr ⟨by decide, htest⟩, by decide⟩
  case times count =>
    have hcount := (plain_decimal (n := count)).unbroken
    exact unbroken_append.mpr ⟨unbroken_append.mpr ⟨by decide, hcount⟩, by decide⟩
  all_goals decide

theorem Line.unbroken_text {line : Line} (h : line.Over N) :
    ∀ t ∈ line.text?, Unbroken t := by
  cases line
  case stmts ss =>
    rintro _ ⟨⟩
    refine unbroken_joinWith (by decide) (List.forall_mem_map.mpr fun s hs => ?_)
    exact Stmt.unbroken_text hN (h s hs)
  case enter =>
    rintro _ ⟨⟩
    exact Head.unbroken_text hN h
  case caseLabel =>
    rintro _ ⟨⟩
    exact (CaseLabel.plain_text hN h).unbroken
  all_goals decide

theorem unbroken_renderLines {lines : List Line} {n : Nat} (h : ∀ line ∈ lines, line.Over N) :
    ∀ t ∈ renderLines n lines, Unbroken t := by
  induction lines generalizing n
  case nil => exact List.forall_mem_nil _
  case cons line lines hi =>
    obtain ⟨hline, hlines⟩ := List.forall_mem_cons.mp h
    simp only [renderLines]
    split
    case h_1 t ht =>
      have ht := Line.unbroken_text hN hline t ht
      exact List.forall_mem_cons.mpr
        ⟨unbroken_append.mpr ⟨plain_margin.unbroken, ht⟩, hi hlines⟩
    case h_2 => exact hi hlines

theorem Function.Over.unbroken {f : Function} (h : f.Over N) : ∀ t ∈ f.text, Unbroken t :=
  unbroken_renderLines hN (over_block h.signature h.body)

end

-- The texts of a declaration's lines are plain up to the braces of blocks.
theorem Decl.IsPlain.unbroken {decl : Decl} (h : decl.IsPlain) :
    ∀ t ∈ decl.lines, Unbroken t := by
  by_cases hb : decl.IsBlock
  case neg => exact fun t ht => (h.plain_lines hb t ht).unbroken
  case pos =>
    cases decl
    case uniformBlock slot showBinding name members =>
      have hhead : Plain (layoutText ("std140" :: bindingProperty showBinding slot.toNat) ++
          " uniform " ++ name) := by
        simp +decide [h.left]
      simp only [lines, List.forall_mem_append, List.forall_mem_singleton, List.forall_mem_map]
      refine ⟨⟨unbroken_append.mpr ⟨hhead.unbroken, by decide⟩, fun m hm => ?_⟩, by decide⟩
      exact (plain_indent.mpr (h.right m hm)).unbroken
    case storage s binding showBinding qualifiers =>
      have hlayout : Plain (layoutText ("std430" :: bindingProperty showBinding binding)) := by
        simp +decide
      simp only [lines, List.forall_mem_singleton]
      refine unbroken_joinWith (by decide) (List.forall_mem_cons.mpr ⟨hlayout.unbroken, ?_⟩)
      refine List.forall_mem_append.mpr ⟨fun q hq => (h q hq).unbroken, ?_⟩
      simp +decide [Storage.plain_blockName.unbroken, Storage.plain_content.unbroken]
    all_goals cases hb

theorem unbroken_joinSections {sections : List (List String)}
    (h : ∀ lines ∈ sections, ∀ t ∈ lines, Unbroken t) :
    ∀ t ∈ joinSections sections, Unbroken t := by
  fun_induction joinSections sections
  case case1 => exact List.forall_mem_nil _
  case case2 lines => exact h lines List.mem_cons_self
  case case3 hi =>
    obtain ⟨hlines, hsections⟩ := List.forall_mem_cons.mp h
    exact List.forall_mem_append.mpr
      ⟨hlines, List.forall_mem_cons.mpr ⟨List.forall_mem_nil _, hi hsections⟩⟩

section Phases

variable {fs : List Function} (h : ∀ f ∈ fs, ∀ t ∈ f.text, Unbroken t)

include h

theorem phasesLines_eq : phasesLines fs = joinSections (fs.map Function.text) := by
  fun_induction phasesLines fs
  case case1 | case2 => rfl
  case case3 f fs hne hi =>
    obtain ⟨hf, hfs⟩ := List.forall_mem_cons.mp h
    rw [takeOver_unlines hf, hi hfs]
    cases fs
    case nil => exact absurd rfl hne
    case cons => rfl

theorem phasesText_eq : phasesText fs = unlines (joinSections (fs.map Function.text)) :=
  congrArg unlines (phasesLines_eq h)

theorem takeOver_phasesText :
    takeOver (phasesText fs) = joinSections (fs.map Function.text) := by
  rw [phasesText_eq h]
  exact takeOver_unlines (unbroken_joinSections (List.forall_mem_map.mpr h))

end Phases

end Glsl

end ShaderLift
