import Mathlib
import ShaderLift.Proofs.Glsl.Unbroken

/-!
Lines and sections that are printed one after the other. What stands behind some lines is printed on
the level that they lead to, which for most is the level that they start on.
-/

namespace ShaderLift

open Glsl

namespace Glsl

variable {n : Nat} {lines lines' : List Line} {sections sections' : List (List String)}

-- The level behind some lines.
def levelBehind (n : Nat) (lines : List Line) : Nat :=
  lines.foldl Line.levelAfter n

-- Lines that end on the level that they start on.
def Leveled (lines : List Line) : Prop :=
  ∀ n, levelBehind n lines = n

theorem levelBehind_append :
    levelBehind n (lines ++ lines') = levelBehind (levelBehind n lines) lines' :=
  List.foldl_append

namespace Leveled

theorem nil : Leveled [] :=
  fun _ => rfl

theorem append (h : Leveled lines) (h' : Leveled lines') : Leveled (lines ++ lines') :=
  fun n => by rw [levelBehind_append, h, h']

theorem stmts {ss : List Stmt} : Leveled [.stmts ss] :=
  fun _ => rfl

theorem flatMap {α : Type} {l : List α} {f : α → List Line} (h : ∀ a ∈ l, Leveled (f a)) :
    Leveled (l.flatMap f) := by
  induction l
  case nil => exact .nil
  case cons a l hi =>
    obtain ⟨ha, hl⟩ := List.forall_mem_cons.mp h
    rw [List.flatMap_cons]
    exact ha.append (hi hl)

theorem map {α : Type} {l : List α} {f : α → Stmt} : Leveled (l.map fun a => .stmt (f a)) := by
  rw [← List.flatMap_singleton' (l.map _), List.flatMap_map]
  exact flatMap fun _ _ => stmts

theorem block {head : Head} (h : Leveled lines) : Leveled (block head lines) := by
  intro n
  change levelBehind (n + 1) (lines ++ [.leave]) = n
  rw [levelBehind_append, h]
  rfl

end Leveled

theorem renderLines_append :
    renderLines n (lines ++ lines') =
      renderLines n lines ++ renderLines (levelBehind n lines) lines' := by
  induction lines generalizing n
  case nil => rfl
  case cons line lines hi =>
    have hi := hi (n := line.levelAfter n)
    cases htext : line.text? <;> simp only [List.cons_append, renderLines, htext, hi] <;> rfl

theorem renderLines_leveled (h : Leveled lines) :
    renderLines n (lines ++ lines') = renderLines n lines ++ renderLines n lines' := by
  rw [renderLines_append, h]

theorem renderLines_flatMap {α : Type} {l : List α} {f : α → List Line}
    (h : ∀ a ∈ l, Leveled (f a)) :
    renderLines n (l.flatMap f) = l.flatMap fun a => renderLines n (f a) := by
  induction l
  case nil => rfl
  case cons a l hi =>
    obtain ⟨ha, hl⟩ := List.forall_mem_cons.mp h
    rw [List.flatMap_cons, List.flatMap_cons, renderLines_leveled ha, hi hl]

theorem renderLines_block {head : Head} :
    renderLines n (block head lines) = indent n head.text :: renderLines (n + 1) lines ++
      [indent (levelBehind (n + 1) lines - 1) "\x7d"] := by
  change indent n head.text :: renderLines (n + 1) (lines ++ [.leave]) = _
  rw [renderLines_append]
  rfl

theorem renderLines_block_leveled {head : Head} (h : Leveled lines) :
    renderLines n (block head lines) =
      indent n head.text :: renderLines (n + 1) lines ++ [indent n "\x7d"] := by
  rw [renderLines_block, h, Nat.add_sub_cancel]

theorem indent_zero {text : String} : indent 0 text = text :=
  String.empty_append

-- The text of a function with some lines in it.
def functionLines (signature : String) (lines : List Line) : List String :=
  (signature ++ " \x7b") :: renderLines 1 lines ++ [indent (levelBehind 1 lines - 1) "\x7d"]

theorem Function.text_eq {f : Function} : f.text = functionLines f.signature f.body := by
  rw [Function.text, Function.lines, renderLines_block, indent_zero]
  rfl

theorem functionLines_leveled {signature : String} (h : Leveled lines) :
    functionLines signature lines = (signature ++ " \x7b") :: renderLines 1 lines ++ ["\x7d"] := by
  rw [functionLines, h]
  rfl

theorem unlines_append {texts texts' : List String} :
    unlines (texts ++ texts') = unlines texts ++ unlines texts' := by
  simp [unlines, String.join_eq]

theorem unlines_blank {texts : List String} : unlines ("" :: texts) = "\n" ++ unlines texts := by
  rw [← List.singleton_append, unlines_append]
  rfl

theorem joinSections_cons {section' : List String} (h : sections ≠ []) :
    joinSections (section' :: sections) = section' ++ "" :: joinSections sections := by
  cases sections
  case nil => exact absurd rfl h
  case cons => rfl

theorem joinSections_concat {last : List String} :
    joinSections (sections ++ [last]) = sections.flatMap (· ++ [""]) ++ last := by
  induction sections
  case nil => rfl
  case cons lines sections hi =>
    rw [List.cons_append, joinSections_cons (by simp), hi]
    simp

-- A shader with phases is the text of their functions, with main behind it.
theorem Source.text_phased {s : Source} {points forks joins : List Function} {main : Function}
    (h : s.functions = .phased points forks joins main)
    (hd : ∀ t ∈ s.decls.flatMap Decl.lines, Unbroken t)
    (hf : ∀ f ∈ s.functions.toList, ∀ t ∈ f.text, Unbroken t) :
    s.text = unlines (s.preamble ++ "" :: s.decls.flatMap Decl.lines) ++ "\n" ++
      phasesText points ++ "\n" ++ phasesText forks ++ "\n" ++ phasesText joins ++ "\n" ++
      unlines main.text := by
  rw [h, Functions.toList] at hf
  simp only [List.forall_mem_append, List.forall_mem_singleton] at hf
  obtain ⟨⟨⟨hpoints, hforks⟩, hjoins⟩, hmain⟩ := hf
  have hsections : s.functions.sections = [joinSections (points.map Function.text),
      joinSections (forks.map Function.text), joinSections (joins.map Function.text),
      main.text] := by
    rw [h, Functions.sections, List.map_cons, List.map_cons, List.map_cons, List.map_singleton,
      takeOver_phasesText hpoints, takeOver_phasesText hforks, takeOver_phasesText hjoins,
      takeOver_unlines hmain]
  rw [Source.text, takeOver_unlines hd, hsections, phasesText_eq hpoints, phasesText_eq hforks,
    phasesText_eq hjoins]
  simp only [joinSections, unlines_append, unlines_blank, String.append_assoc]

end Glsl

end ShaderLift
