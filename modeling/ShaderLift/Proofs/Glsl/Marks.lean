import Mathlib
import ShaderLift.Glsl.Source
import ShaderLift.Proofs.Text.Braces

/-!
Labels and ends of blocks among the lines of a function. Both can be told from the text of a line
alone. A part of a `switch` is left empty where the end of a block follows a label.
-/

namespace ShaderLift.Glsl

inductive Mark where
  | label
  | closing
  | plain
  deriving DecidableEq, Repr

namespace Mark

-- Labels end in a colon. A line that ends a block holds a brace and nothing else.
def ofText (text : String) : Mark :=
  if text.toList.getLast? = some ':' then label
  else if text.toList.filter (· ≠ ' ') = [closeBrace] then closing
  else plain

-- No label stands directly in front of the end of a block.
def Filled (ms : List Mark) : Prop :=
  ms.IsChain fun m next => m = label → next ≠ closing

variable {front tail text : String} {ms ms' : List Mark}

theorem ofText_label : ofText (front ++ ":") = label := by
  simp [ofText]

-- All other lines end differently.
theorem ofText_append {first last : Char} (hfirst : tail.toList.head? = some first)
    (hlast : tail.toList.getLast? = some last)
    (hne : first ≠ ' ' ∧ first ≠ closeBrace ∧ last ≠ ':') : ofText (front ++ tail) = plain := by
  obtain ⟨hspace, hbrace, hcolon⟩ := hne
  have hlabel : (front ++ tail).toList.getLast? ≠ some ':' := by
    simp [List.getLast?_append, hlast, hcolon]
  have hclosing : (front ++ tail).toList.filter (· ≠ ' ') ≠ [closeBrace] := by
    intro h
    have hmem : first ∈ (front ++ tail).toList.filter (· ≠ ' ') := by
      simp [List.mem_of_head? hfirst, hspace]
    rw [h] at hmem
    exact hbrace (List.mem_singleton.mp hmem)
  rw [ofText, if_neg hlabel, if_neg hclosing]

theorem ofText_indent {n : Nat} : ofText (indent n text) = ofText text := by
  have hspaces : (List.replicate (4 * n) ' ').getLast? ≠ some ':' := by
    intro h
    exact absurd (List.eq_of_mem_replicate (List.mem_of_getLast? h)) (by decide)
  have hlast : (indent n text).toList.getLast? = some ':' ↔ text.toList.getLast? = some ':' := by
    simp [indent, List.getLast?_append, hspaces]
  have hfilter : (indent n text).toList.filter (· ≠ ' ') = text.toList.filter (· ≠ ' ') := by
    simp [indent, List.filter_append]
  simp only [ofText, hlast, hfilter]

theorem filled_append : Filled (ms ++ ms') ↔
    Filled ms ∧ Filled ms' ∧ ¬(ms.getLast? = some label ∧ ms'.head? = some closing) := by
  simp only [Filled, List.isChain_append, Option.mem_def]
  refine and_congr_right' (and_congr_right' ⟨fun h hne => ?_, fun h x hx y hy hl hc => ?_⟩)
  case refine_1 => exact h _ hne.left _ hne.right rfl rfl
  case refine_2 => exact h ⟨hl ▸ hx, hc ▸ hy⟩

theorem Filled.of_not_mem (h : label ∉ ms) : Filled ms := by
  induction ms
  case nil => exact .nil
  case cons m ms hi =>
    have ⟨hm, hms⟩ := not_or.mp (List.mem_cons.not.mp h)
    exact List.isChain_cons.mpr ⟨fun _ _ he => absurd he.symm hm, hi hms⟩

-- Lines without labels in front of others do not matter.
theorem filled_append_of_not_mem (h : label ∉ ms) : Filled (ms ++ ms') ↔ Filled ms' := by
  have hlast : ms.getLast? ≠ some label := fun hl => h (List.mem_of_getLast? hl)
  simp [filled_append, Filled.of_not_mem h, hlast]

section Pieces

variable {piece : Nat → List Mark} {first n : Nat}

theorem getLast?_pieces {m : Mark} :
    ((List.range' first n).flatMap piece).getLast? = some m ↔
      ∃ i, first ≤ i ∧ i < first + n ∧ (piece i).getLast? = some m ∧
        ∀ k, i < k → k < first + n → piece k = [] := by
  induction n
  case zero =>
    simp only [List.range'_zero, List.flatMap_nil, List.getLast?_nil, reduceCtorEq, false_iff]
    rintro ⟨i, hi, hlt, _⟩
    omega
  case succ n hi =>
    rw [List.range'_1_concat, List.flatMap_append, List.flatMap_singleton, List.getLast?_append]
    constructor
    case mp =>
      intro h
      cases Option.or_eq_some_iff.mp h
      case inl h => exact ⟨first + n, by omega, by omega, h, fun k _ _ => by omega⟩
      case inr h =>
        have hnil := List.getLast?_eq_none_iff.mp h.left
        obtain ⟨i, hle, hlt, hm, hbetween⟩ := hi.mp h.right
        refine ⟨i, hle, by omega, hm, fun k hk hkn => ?_⟩
        obtain hkn | rfl : k < first + n ∨ k = first + n := by omega
        case inl => exact hbetween k hk hkn
        case inr => exact hnil
    case mpr =>
      rintro ⟨i, hle, hlt, hm, hbetween⟩
      obtain hlt | rfl : i < first + n ∨ i = first + n := by omega
      case inl =>
        rw [hbetween (first + n) hlt (by omega), List.getLast?_nil, Option.none_or]
        exact hi.mpr ⟨i, hle, hlt, hm, fun k hk hkn => hbetween k hk (by omega)⟩
      case inr => rw [hm, Option.some_or]

-- Pieces in a row are filled if no label reaches the end of a block across empty pieces.
theorem filled_pieces (h : ∀ i, first ≤ i → i < first + n → Filled (piece i)) :
    Filled ((List.range' first n).flatMap piece) ↔
      ∀ i j, first ≤ i → i < j → j < first + n → (∀ k, i < k → k < j → piece k = []) →
        ¬((piece i).getLast? = some label ∧ (piece j).head? = some closing) := by
  induction n
  case zero =>
    refine iff_of_true .nil fun i j _ _ hj => ?_
    omega
  case succ n hi =>
    have hi := hi fun i hle hlt => h i hle (by omega)
    rw [List.range'_1_concat, List.flatMap_append, List.flatMap_singleton, filled_append, hi,
      getLast?_pieces]
    constructor
    case mp =>
      rintro ⟨hfilled, _, hend⟩ i j hle hij hj hbetween ⟨hlabel, hclosing⟩
      obtain hj | rfl : j < first + n ∨ j = first + n := by omega
      case inl => exact hfilled i j hle hij hj hbetween ⟨hlabel, hclosing⟩
      case inr => exact hend ⟨⟨i, hle, hij, hlabel, hbetween⟩, hclosing⟩
    case mpr =>
      intro hfilled
      refine ⟨fun i j hle hij hj => hfilled i j hle hij (by omega), h _ (by omega) (by omega), ?_⟩
      rintro ⟨⟨i, hle, hlt, hlabel, hbetween⟩, hclosing⟩
      exact hfilled i (first + n) hle hlt (by omega) hbetween ⟨hlabel, hclosing⟩

end Pieces

end Mark

-- The texts of statements end in a semicolon, or in one and the end of a block.
theorem Stmt.exists_text_eq {s : Stmt} :
    ∃ front tail, s.text = front ++ tail ∧ tail ∈ [";", "; \x7d"] := by
  have jumps {j : Jump} : ∃ front tail, j.text = front ++ tail ∧ tail ∈ [";", "; \x7d"] := by
    cases j
    case breakOut => exact ⟨"break", ";", rfl, by simp⟩
    case continueLoop => exact ⟨"continue", ";", rfl, by simp⟩
    case discard => exact ⟨"discard", ";", rfl, by simp⟩
    case ret => exact ⟨"return", ";", rfl, by simp⟩
    case flushRet => exact ⟨"\x7b store_outputs(); return", "; \x7d", rfl, by simp⟩
    case call label =>
      exact ⟨subroutineName label ++ "()", ";", by rw [String.append_assoc]; rfl, by simp⟩
  cases s
  case jump => exact jumps
  case jumpIf test j =>
    obtain ⟨front, tail, hj, ht⟩ := jumps (j := j)
    exact ⟨"if (" ++ test.text ++ ") " ++ front, tail, by simp [text, hj, String.append_assoc], ht⟩
  case flush => exact ⟨"store_outputs()", ";", rfl, by simp⟩
  all_goals exact ⟨_, ";", rfl, by simp⟩

theorem Stmt.exists_texts_eq {ss : List Stmt} (h : ss ≠ []) :
    ∃ front tail, joinWith " " (ss.map text) = front ++ tail ∧ tail ∈ [";", "; \x7d"] := by
  induction ss
  case nil => exact absurd rfl h
  case cons s ss hi =>
    cases ss
    case nil => exact exists_text_eq
    case cons s' ss =>
      obtain ⟨front, tail, hrest, ht⟩ := hi (List.cons_ne_nil s' ss)
      refine ⟨s.text ++ " " ++ front, tail, ?_, ht⟩
      calc
        joinWith " " ((s :: s' :: ss).map text)
          = s.text ++ " " ++ joinWith " " ((s' :: ss).map text) := rfl
        _ = s.text ++ " " ++ front ++ tail := by rw [hrest, ← String.append_assoc]

theorem Head.exists_text_eq {head : Head} : ∃ front tail, head.text = front ++ tail ∧
    tail ∈ ["\x7b", ") \x7b", "; i++) \x7b", "while (true) \x7b"] := by
  cases head
  case function signature =>
    exact ⟨signature ++ " ", "\x7b", by rw [String.append_assoc]; rfl, by simp⟩
  case when | choice => exact ⟨_, ") \x7b", rfl, by simp⟩
  case times => exact ⟨_, "; i++) \x7b", rfl, by simp⟩
  case forever => exact ⟨"", "while (true) \x7b", rfl, by simp⟩
  case bare => exact ⟨"", "\x7b", rfl, by simp⟩

namespace Line

def mark? : Line → Option Mark
  | stmts _ | enter _ | otherwise => some .plain
  | caseLabel _ => some .label
  | endCase => none
  | leave => some .closing

theorem map_ofText_text? {line : Line} : line.text?.map Mark.ofText = line.mark? := by
  cases line
  case stmts ss =>
    by_cases hss : ss = []
    case pos => subst hss; rfl
    case neg =>
      obtain ⟨front, tail, htext, ht⟩ := Stmt.exists_texts_eq hss
      simp only [List.mem_cons, List.not_mem_nil, or_false] at ht
      rw [text?, htext]
      rcases ht with rfl | rfl <;> exact congrArg some (Mark.ofText_append rfl rfl (by decide))
  case enter head =>
    obtain ⟨front, tail, htext, ht⟩ := Head.exists_text_eq
    simp only [List.mem_cons, List.not_mem_nil, or_false] at ht
    rw [text?, htext]
    rcases ht with rfl | rfl | rfl | rfl <;>
      exact congrArg some (Mark.ofText_append rfl rfl (by decide))
  case caseLabel label =>
    cases label
    case value => exact congrArg some Mark.ofText_label
    case default => rfl
  all_goals rfl

end Line

def marks (lines : List Line) : List Mark :=
  lines.filterMap Line.mark?

theorem map_ofText_renderLines {n : Nat} {lines : List Line} :
    (renderLines n lines).map Mark.ofText = marks lines := by
  induction lines generalizing n
  case nil => rfl
  case cons line lines hi =>
    have hline := line.map_ofText_text?
    simp only [renderLines]
    split
    case h_1 h =>
      rw [h] at hline
      simp [marks, ← hline, Mark.ofText_indent, hi]
    case h_2 h =>
      rw [h] at hline
      simp [marks, ← hline, hi]

@[simp] theorem marks_append {lines lines' : List Line} :
    marks (lines ++ lines') = marks lines ++ marks lines' :=
  List.filterMap_append

-- No part of a `switch` in a function is empty.
def Function.PartsFilled (f : Function) : Prop :=
  (renderLines 1 f.body).IsChain fun line next =>
    Mark.ofText line = .label → Mark.ofText next ≠ .closing

instance {f : Function} : Decidable f.PartsFilled :=
  inferInstanceAs (Decidable (List.IsChain ..))

theorem Function.partsFilled_iff {f : Function} : f.PartsFilled ↔ Mark.Filled (marks f.body) := by
  rw [← map_ofText_renderLines (n := 1), Mark.Filled, List.isChain_map]
  rfl

end ShaderLift.Glsl
