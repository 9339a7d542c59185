import ShaderLift.Proofs.Glsl.Identifiers
import ShaderLift.Proofs.Text.Numerals

/-!
The bindings that declarations print. A line that shows a binding can be read back, and declares the
name that is bound.
-/

namespace ShaderLift.Glsl

-- The number that a line prints as a binding: that behind its first equals sign, if this follows
-- the word.
def printedBinding? (line : String) : Option Nat :=
  let (front, rest) := line.toList.span (· ≠ '=')
  if "binding ".toList <:+ front then
    (String.ofList ((rest.drop 2).takeWhile Char.isDigit)).toNat?
  else none

-- A line prints a binding, and declares a name behind it.
def DeclaresBound (line name : String) (n : Nat) : Prop :=
  printedBinding? line = some n ∧ ∃ before after, line = before ++ " " ++ name ++ after ∧
    after.toList.head?.any fun c => c = ';' || c = ' '

theorem printedBinding?_append {front back : String} {n : Nat} (hfront : '=' ∉ front.toList)
    (hback : NoDigitFirst back) :
    printedBinding? (front ++ "binding = " ++ toString n ++ back) = some n := by
  have hline : (front ++ "binding = " ++ toString n ++ back).toList =
      (front ++ "binding ").toList ++ '=' :: ' ' :: (n.repr ++ back).toList := by
    have hequals : "binding = ".toList = "binding ".toList ++ ['=', ' '] := by decide
    simp only [String.toList_append, hequals, List.append_assoc]
    rfl
  have hnone : '=' ∉ (front ++ "binding ").toList := by
    rw [String.toList_append]
    exact List.not_mem_append hfront (by decide)
  have hno : ∀ c ∈ (front ++ "binding ").toList, decide (c ≠ '=') = true := by
    intro c hc
    refine decide_eq_true ?_
    rintro rfl
    exact hnone hc
  have hword : "binding ".toList <:+ (front ++ "binding ").toList := by
    rw [String.toList_append]
    exact List.suffix_append _ _
  simp only [printedBinding?, hline, List.span_eq_takeWhile_dropWhile]
  rw [List.takeWhile_append_of_pos hno, List.dropWhile_append_of_pos hno,
    List.takeWhile_cons_of_neg (by decide), List.dropWhile_cons_of_neg (by decide), List.append_nil,
    if_pos hword, List.drop_succ_cons, List.drop_succ_cons, List.drop_zero,
    takeWhile_isDigit_repr hback, String.ofList_toList, Nat.toNat?_repr]

theorem joinWith_cons {s a : String} {l : List String} (h : l ≠ []) :
    joinWith s (a :: l) = a ++ (s ++ joinWith s l) := by
  cases l
  case nil => exact absurd rfl h
  case cons => exact String.append_assoc

theorem Storage.block_eq {l : List String} {s : Storage} :
    joinWith " " (l ++ ["buffer", s.blockName, "\x7b", s.content, "\x7d;"]) =
      joinWith " " (l ++ ["buffer"]) ++ " " ++ s.blockName ++
        (" " ++ joinWith " " ["\x7b", s.content, "\x7d;"]) := by
  rw [joinWith_append, joinWith_cons (by simp), String.append_assoc, String.append_assoc,
    String.append_assoc]

namespace Decl

-- What is declared for the host to bind, and the number that it is bound to.
def bound? : Decl → Option (String × Nat)
  | uniformBlock slot _ name _ => some (name, slot.toNat)
  | sampler unit _ _ _ key => some (key.name, unit)
  | storage s binding _ _ => some (s.blockName, binding)
  | image slot binding _ _ _ _ => some ((Name.image slot).text, binding)
  | _ => none

-- The layout of a declaration holds its binding.
def ShowsBinding : Decl → Prop
  | uniformBlock _ visible _ _ | sampler _ visible _ _ _ | storage _ _ visible _ => visible
  | image _ _ visible format _ _ => visible ∧ '=' ∉ format.toList
  | _ => True

theorem printedBinding?_layoutText (property : Option String) {n : Nat} {rest : String}
    (h : ∀ text ∈ property, '=' ∉ text.toList) :
    printedBinding? (layoutText (property.toList ++ bindingProperty true n) ++ rest) = some n := by
  have hrest : NoDigitFirst (")" ++ rest) := by simp [NoDigitFirst]
  cases property
  case none =>
    have hline : layoutText (bindingProperty true n) ++ rest =
        "layout(" ++ "binding = " ++ toString n ++ (")" ++ rest) := by
      simp only [layoutText, bindingProperty, if_true, joinWith, String.append_assoc]
    exact hline ▸ printedBinding?_append (by decide) hrest
  case some text =>
    have hline : layoutText (text :: bindingProperty true n) ++ rest =
        ("layout(" ++ text ++ ", ") ++ "binding = " ++ toString n ++ (")" ++ rest) := by
      simp only [layoutText, bindingProperty, if_true, joinWith, String.append_assoc]
    exact hline ▸ printedBinding?_append (by simpa using h text rfl) hrest

-- A layout, some words, and the name at the end.
theorem declaresBound_joinWith (property : Option String) {n : Nat} (words : List String)
    {type name : String} (h : ∀ text ∈ property, '=' ∉ text.toList) :
    DeclaresBound (joinWith " " (layoutText (property.toList ++ bindingProperty true n) ::
      words ++ [type, name]) ++ ";") name n := by
  constructor
  case left =>
    rw [List.cons_append, joinWith_cons (by simp), String.append_assoc]
    exact printedBinding?_layoutText property h
  case right => exact ⟨_, ";", by rw [joinWith_append]; rfl, by decide⟩

theorem exists_declaresBound {decl : Decl} {name : String} {n : Nat} (h : decl.ShowsBinding)
    (hb : decl.bound? = some (name, n)) :
    ∃ line rest, decl.lines = line :: rest ∧ DeclaresBound line name n := by
  cases decl
  case uniformBlock slot visible block members =>
    cases hb
    cases (h : visible = true)
    refine ⟨_, _, rfl, ?_, layoutText ("std140" :: bindingProperty true slot.toNat) ++ " uniform",
      " \x7b", ?_, by decide⟩
    case refine_1 =>
      rw [String.append_assoc, String.append_assoc]
      exact printedBinding?_layoutText (some "std140") (by decide)
    case refine_2 =>
      simp only [String.append_assoc]
      rfl
  case sampler unit visible precision type key =>
    cases hb
    cases (h : visible = true)
    exact ⟨_, _, rfl, declaresBound_joinWith none ("uniform" :: precision) (by decide)⟩
  case image slot binding visible format qualifiers type =>
    cases hb
    obtain ⟨hvisible, hformat⟩ := h
    cases hvisible
    refine ⟨_, _, rfl, declaresBound_joinWith (some format) ("uniform" :: qualifiers) ?_⟩
    simpa using hformat
  case storage s binding visible qualifiers =>
    cases hb
    cases (h : visible = true)
    refine ⟨_, _, rfl, ?_, ?_⟩
    case refine_1 =>
      rw [List.cons_append, joinWith_cons (by simp)]
      exact printedBinding?_layoutText (some "std430") (by decide)
    case refine_2 =>
      refine ⟨_, " " ++ joinWith " " ["\x7b", s.content, "\x7d;"], Storage.block_eq, ?_⟩
      rw [String.toList_append]
      rfl
  all_goals cases hb

end Decl

end ShaderLift.Glsl
