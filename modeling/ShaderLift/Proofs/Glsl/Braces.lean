import ShaderLift.Proofs.Glsl.Over

/-!
The braces of printed shaders. Only heads, ends and the lines between two parts of an `if` have
unbalanced ones, whatever the names are, as long as those have none.
-/

namespace ShaderLift

variable {lines : List Line} {s : String}

@[simp] theorem braces_append {l l' : List Char} : braces (l ++ l') = braces l ++ braces l' :=
  List.filter_append ..

@[simp] theorem braces_nil : braces [] = [] :=
  rfl

-- Plain text in front of another adds no braces.
theorem braces_plain_append {t : String} (h : Plain s) :
    braces (s ++ t).toList = braces t.toList := by
  rw [String.toList_append, braces_append, h.braces, List.nil_append]

theorem Plain.balanced (h : Plain s) : Balanced s.toList :=
  Balanced.braces_iff.mp (h.braces ▸ .nil)

theorem Balanced.append_text {t : String} (hs : Balanced s.toList) (ht : Balanced t.toList) :
    Balanced (s ++ t).toList :=
  String.toList_append ▸ hs.append ht

theorem braces_joinWith {items : List String} (hs : Plain s) :
    braces (joinWith s items).toList = items.flatMap (braces ·.toList) := by
  fun_induction joinWith s items
  case case1 => rfl
  case case2 => simp
  case case3 hi => simp [hi, hs.braces]

theorem balanced_joinWith {items : List String} (hs : Balanced s.toList)
    (h : ∀ t ∈ items, Balanced t.toList) : Balanced (joinWith s items).toList := by
  fun_induction joinWith s items
  case case1 => exact .nil
  case case2 => simpa using h
  case case3 item items _ hi =>
    obtain ⟨hitem, hitems⟩ := List.forall_mem_cons.mp h
    exact (hitem.append_text hs).append_text (hi hitems)

theorem braces_plain_lines {lines : List String} (h : ∀ t ∈ lines, Plain t) :
    lines.flatMap (braces ·.toList) = [] :=
  List.flatMap_eq_nil_iff.mpr fun t ht => (h t ht).braces

theorem balanced_flatMap {α : Type} {f : α → List Char} {l : List α} (h : ∀ a ∈ l, Balanced (f a)) :
    Balanced (l.flatMap f) := by
  induction l
  case nil => exact .nil
  case cons hi =>
    have ⟨ha, hl⟩ := List.forall_mem_cons.mp h
    exact ha.append (hi hl)

namespace Glsl

theorem SamplerKey.isWord_name {key : SamplerKey} : IsWord key.name := by
  unfold name
  split
  case h_1 => simp +decide
  case h_2 => split <;> simp +decide

theorem RegisterFile.isWord_name {f : RegisterFile} : IsWord f.name := by
  cases f <;> decide

theorem Literal.plain_text {l : Literal} : Plain l.text := by
  cases l
  case int => exact plain_toString_int
  case uint => exact plain_append.mpr ⟨isWord_decimal.plain, by decide⟩
  case hex => exact IsWord.plain (by simp +decide [text])
  case long => exact IsWord.plain (by simp +decide [text])
  case float => exact Binary32.plain_text

theorem BinaryOp.plain_symbol {op : BinaryOp} : Plain op.symbol := by
  cases op <;> decide

theorem isWord_componentLetters {components : List Nat} :
    IsWord (.ofList (components.map componentLetter)) := by
  intro c hc
  rw [String.toList_ofList] at hc
  have ⟨k, _, hc⟩ := List.mem_map.mp hc
  rw [← hc, componentLetter, Quad.get]
  split <;> decide

theorem plain_componentText {components : List Nat} : Plain (componentText components) :=
  plain_append.mpr ⟨by decide, isWord_componentLetters.plain⟩

variable {N : Name → Prop}

namespace Expr

mutual

theorem plain_text (hN : ∀ name, N name → Plain name.text) : {e : Expr} → e.Over N → Plain e.text
  | var _, h => hN _ h
  | lit _, _ => Literal.plain_text
  | call _ _, ⟨hf, ha⟩ => by
    have := (plain_joinWith (s := ", ") (by decide)).mpr (plain_texts hN ha)
    simp +decide [text, hf.plain, this]
  | index _ _, ⟨ha, hs⟩ => by
    simp +decide [text, plain_text hN ha, plain_text hN hs]
  | select _ _, h => plain_append.mpr ⟨plain_text hN h, plain_componentText⟩
  | field _ _, ⟨hv, hn⟩ => by
    simp +decide [text, plain_text hN hv, hn.plain]
  | length _, h => plain_append.mpr ⟨plain_text hN h, by decide⟩
  | neg _, h | complement _, h => plain_append.mpr ⟨by decide, plain_text hN h⟩
  | paren _, h => plain_append.mpr ⟨plain_append.mpr ⟨by decide, plain_text hN h⟩, by decide⟩
  | binary _ _ _, ⟨hl, hr⟩ => by
    simp +decide [text, plain_text hN hl, plain_text hN hr, BinaryOp.plain_symbol]
  | cond _ _ _, ⟨ht, hy, hn⟩ => by
    simp +decide [text, plain_text hN ht, plain_text hN hy, plain_text hN hn]

theorem plain_texts (hN : ∀ name, N name → Plain name.text) :
    {es : List Expr} → Overs N es → ∀ t ∈ texts es, Plain t
  | [], _ => by simp [texts]
  | _ :: _, ⟨he, hes⟩ => List.forall_mem_cons.mpr ⟨plain_text hN he, plain_texts hN hes⟩

end

end Expr

theorem isWord_subroutineName {label : UInt32} : IsWord (subroutineName label) := by
  simp +decide [subroutineName]

theorem Jump.balanced_text {j : Jump} : Balanced j.text.toList := by
  cases j
  case call => exact Plain.balanced (plain_append.mpr ⟨isWord_subroutineName.plain, by decide⟩)
  all_goals exact balanced_iff.mpr (by decide)

-- The braces of lines alone.
def braceWord (lines : List Line) : List Char :=
  lines.flatMap fun line => braces (line.text?.getD "").toList

@[simp] theorem braceWord_nil : braceWord [] = [] :=
  rfl

@[simp] theorem braceWord_cons {line : Line} :
    braceWord (line :: lines) = braces (line.text?.getD "").toList ++ braceWord lines :=
  List.flatMap_cons

@[simp] theorem braceWord_append {lines' : List Line} :
    braceWord (lines ++ lines') = braceWord lines ++ braceWord lines' :=
  List.flatMap_append

@[simp] theorem braces_leave : braces (Line.leave.text?.getD "").toList = [closeBrace] := by
  decide

@[simp] theorem braces_otherwise :
    braces (Line.otherwise.text?.getD "").toList = [closeBrace, openBrace] := by
  decide

theorem balanced_braceWord (h : ∀ line ∈ lines, Balanced (braceWord [line])) :
    Balanced (braceWord lines) :=
  balanced_flatMap fun line hl => by simpa using h line hl

section

variable (hN : ∀ name, N name → Plain name.text)

include hN

theorem Stmt.balanced_text {s : Stmt} (h : s.Over N) : Balanced s.text.toList := by
  cases s
  case assign =>
    refine Plain.balanced ?_
    simp +decide [text, Expr.plain_text hN h.left, Expr.plain_text hN h.right]
  case eval => exact Plain.balanced (plain_append.mpr ⟨Expr.plain_text hN h, by decide⟩)
  case declare =>
    have hnames := (plain_joinWith (s := ", ") (by decide)).mpr <|
      List.forall_mem_map.mpr fun name hm => hN name (h.right name hm)
    refine Plain.balanced ?_
    simp +decide [text, h.left.plain, hnames]
  case define =>
    refine Plain.balanced ?_
    simp +decide [text, h.left.plain, hN _ h.right.left, Expr.plain_text hN h.right.right]
  case jump => exact Jump.balanced_text
  case jumpIf =>
    have htest := (Expr.plain_text hN h.left).balanced
    exact (((Plain.balanced (by decide)).append_text htest).append_text
      (Plain.balanced (by decide))).append_text Jump.balanced_text
  case flush => exact balanced_iff.mpr (by decide)

theorem Head.braces_text {head : Head} (h : head.Over N) :
    braces head.text.toList = [openBrace] := by
  cases head
  case function => exact braces_plain_append h
  case when => exact braces_plain_append (plain_append.mpr ⟨by decide, Expr.plain_text hN h⟩)
  case choice => exact braces_plain_append (plain_append.mpr ⟨by decide, Expr.plain_text hN h⟩)
  case times => exact braces_plain_append (plain_append.mpr ⟨by decide, isWord_decimal.plain⟩)
  all_goals decide

theorem CaseLabel.plain_text {label : CaseLabel} (h : label.Over N) : Plain label.text := by
  cases label
  case value => simp +decide [text, Expr.plain_text hN h]
  case default => decide

theorem Line.balanced_stmts {ss : List Stmt} (h : ∀ s ∈ ss, s.Over N) :
    Balanced (braceWord [stmts ss]) := by
  have hss : ∀ t ∈ ss.map Stmt.text, Balanced t.toList :=
    List.forall_mem_map.mpr fun s hs => Stmt.balanced_text hN (h s hs)
  have htext := balanced_joinWith (s := " ") (Plain.balanced (by decide)) hss
  simpa [Line.text?, Balanced.braces_iff] using htext

theorem balanced_block {head : Head} {body : List Line} (h : head.Over N)
    (hb : Balanced (braceWord body)) : Balanced (braceWord (block head body)) := by
  have hhead : braces ((Line.enter head).text?.getD "").toList = [openBrace] :=
    Head.braces_text hN h
  have hb := hb.braceDepth (n := 1)
  rw [block, braceWord_append, braceWord_cons, hhead, balanced_iff, braceDepth_append,
    braceDepth_append]
  simp +decide [braceDepth, hb]

end

section Render

variable {text : String} {level : Nat}

theorem plain_margin {n : Nat} : Plain (.ofList (.replicate n ' ')) := by
  intro c hc
  rw [String.toList_ofList] at hc
  exact List.eq_of_mem_replicate hc ▸ by decide

theorem braces_indent : braces (indent level text).toList = braces text.toList :=
  braces_plain_append plain_margin

@[simp] theorem plain_indent : Plain (indent level text) ↔ Plain text := by
  simp [indent, plain_margin]

-- How far lines are indented does not matter.
theorem braces_renderLines {lines : List Line} :
    (renderLines level lines).flatMap (braces ·.toList) = braceWord lines := by
  induction lines generalizing level
  case nil => rfl
  case cons line lines hi =>
    simp only [renderLines, braceWord_cons]
    split
    case h_1 h => simp [h, hi, braces_indent]
    case h_2 h => simp [h, hi]

theorem braces_unlines {lines : List String} :
    braces (unlines lines).toList = lines.flatMap (braces ·.toList) := by
  induction lines
  case nil => rfl
  case cons line lines hi =>
    have hline : braces (line ++ "\n").toList = braces line.toList := by
      have hn : braces "\n".toList = [] := by decide
      rw [String.toList_append, braces_append, hn, List.append_nil]
    rw [List.flatMap_cons, ← hi, unlines, List.map_cons, String.join_cons, String.toList_append,
      braces_append, hline, unlines]

-- Cutting text into lines drops line breaks only.
theorem braces_cutLines (line rest : List Char) :
    (cutLines line rest).flatMap braces = braces (line.reverse ++ rest) := by
  have hfeed : braces ['\n'] = [] := by decide
  have hreturn : braces ['\r'] = [] := by decide
  induction rest generalizing line
  case nil => cases line <;> simp [cutLines]
  case cons c rest hi =>
    have hcons : c :: rest = [c] ++ rest := rfl
    by_cases hc : c = '\n'
    case pos =>
      simp only [cutLines, hc, if_true, List.flatMap_cons, hi, List.reverse_nil, List.nil_append]
      rw [← hc, hcons, braces_append, braces_append, hc, hfeed, List.nil_append]
      congr 1
      cases line
      case nil => rfl
      case cons last line =>
        by_cases hl : last = '\r'
        case pos => simp [hl, hreturn]
        case neg => simp [hl]
    case neg => simp [cutLines, hc, hi]

theorem braces_takeOver : (takeOver text).flatMap (braces ·.toList) = braces text.toList := by
  rw [takeOver, List.flatMap_map]
  simpa using braces_cutLines [] text.toList

theorem braces_joinSections {sections : List (List String)} :
    (joinSections sections).flatMap (braces ·.toList) =
      sections.flatMap (·.flatMap (braces ·.toList)) := by
  fun_induction joinSections sections
  case case1 => rfl
  case case2 => simp
  case case3 hi => simp [hi]

end Render

end Glsl

end ShaderLift
