import ShaderLift.Proofs.Glsl.Layout

/-!
The variables that declarations introduce, and where their names stand in the text.
-/

namespace ShaderLift.Glsl

def Storage.data : Storage → Name
  | resource slot => .resourceData slot
  | uav slot => .uavData slot
  | counter slot => .counter slot

def Decl.identifiers : Decl → List String
  | stageLayout _ _ | depthLayout _ => []
  | uniformBlock _ _ _ members => members.map (·.declarator.name)
  | uniform _ _ v => [v.name]
  | sampler _ _ _ _ key => [key.name]
  | storage s _ _ _ => [s.data.text]
  | image slot _ _ _ _ _ => [(Name.image slot).text]
  | shared slot _ => [(Name.shared slot).text]
  | interface v => [v.name]
  | immediates _ _ _ => [Name.immediates.text]
  | temp _ register => [(Name.temp register).text]
  | indexableTemp register _ => [(Name.indexableTemp register).text]
  | file f _ => [f.name]

-- The identifier stands in the text behind a blank, as behind a type, and its declaration ends
-- there or goes on with a length.
def Introduces (text identifier : String) : Prop :=
  ∃ before after, text = before ++ identifier ++ after ∧ before.toList.getLast? = some ' ' ∧
    after.toList.head?.any fun c => c = ';' || c = '['

namespace Introduces

variable {text identifier before after : String}

theorem append_left (h : Introduces text identifier) : Introduces (before ++ text) identifier := by
  have ⟨b, a, ht, hb, ha⟩ := h
  refine ⟨before ++ b, a, ?_, ?_, ha⟩
  case refine_1 => rw [ht, String.append_assoc, String.append_assoc, String.append_assoc]
  case refine_2 => rw [String.toList_append, List.getLast?_append, hb, Option.some_or]

theorem append_right (h : Introduces text identifier) : Introduces (text ++ after) identifier := by
  have ⟨b, a, ht, hb, ha⟩ := h
  refine ⟨b, a ++ after, ?_, hb, ?_⟩
  case refine_1 => rw [ht, String.append_assoc]
  case refine_2 =>
    cases h : a.toList.head?
    case none => simp [h] at ha
    case some c => simpa [List.head?_append, h] using ha

end Introduces

theorem Declarator.introduces {v : Declarator} : Introduces (v.text ++ ";") v.name := by
  refine ⟨v.type ++ " ", (v.length.map subscript).getD "" ++ ";", ?_, ?_, ?_⟩
  case refine_1 => rw [text, String.append_assoc]
  case refine_2 => simp
  case refine_3 => cases v.length <;> simp [subscript]

theorem joinWith_append {s a b : String} {l l' : List String} :
    joinWith s (l ++ a :: b :: l') = joinWith s (l ++ [a]) ++ s ++ joinWith s (b :: l') := by
  induction l
  case nil => rfl
  case cons c l hi =>
    cases l
    case nil => simp [joinWith, String.append_assoc]
    case cons => simp_all [joinWith, String.append_assoc]

theorem introduces_joinWith {type name after : String} {l : List String}
    (h : after.toList.head?.any fun c => c = ';' || c = '[') :
    Introduces (joinWith " " (l ++ [type, name]) ++ after) name :=
  ⟨joinWith " " (l ++ [type]) ++ " ", after, by rw [joinWith_append]; rfl, by simp, h⟩

theorem Storage.introduces {s : Storage} : Introduces s.content s.data.text := by
  have hbefore : "uint ".toList.getLast? = some ' ' := by decide
  cases s
  case resource => exact ⟨"uint ", "[];", rfl, hbefore, by decide⟩
  case uav => exact ⟨"uint ", "[];", rfl, hbefore, by decide⟩
  case counter => exact ⟨"uint ", ";", rfl, hbefore, by decide⟩

theorem Storage.introduces_block {s : Storage} {l : List String} :
    Introduces (joinWith " " (l ++ ["buffer", s.blockName, "\x7b", s.content, "\x7d;"]))
      s.data.text := by
  have hl : l ++ ["buffer", s.blockName, "\x7b", s.content, "\x7d;"] =
      (l ++ ["buffer", s.blockName]) ++ "\x7b" :: s.content :: ["\x7d;"] := by
    rw [List.append_assoc]
    rfl
  rw [hl, joinWith_append]
  exact s.introduces.append_right.append_right.append_left

theorem introduces_subscript {type identifier : String} {length : UInt32}
    (h : type.toList.getLast? = some ' ') :
    Introduces (type ++ identifier ++ subscript length ++ ";") identifier :=
  ⟨type, subscript length ++ ";", String.append_assoc, h, by simp [subscript]⟩

theorem introduces_immediates {type : String} {length : Nat} :
    Introduces (type ++ " icb" ++ ("[" ++ toString length ++ "]")) Name.immediates.text := by
  refine ⟨type ++ " ", "[" ++ toString length ++ "]", ?_, by simp, by simp⟩
  have hicb : " icb" = " " ++ Name.immediates.text := by decide
  simp only [hicb, String.append_assoc]

theorem Decl.exists_line_introduces {decl : Decl} {identifier : String}
    (h : identifier ∈ decl.identifiers) : ∃ line ∈ decl.lines, Introduces line identifier := by
  cases decl
  case stageLayout | depthLayout => cases h
  case uniformBlock members =>
    have ⟨m, hm, h⟩ := List.mem_map.mp h
    refine ⟨_, List.mem_append_left _ (List.mem_append_right _ (List.mem_map_of_mem hm)), ?_⟩
    rw [BlockMember.text_eq, ← h, String.append_assoc]
    exact m.declarator.introduces.append_left.append_left
  all_goals cases List.mem_singleton.mp h
  case uniform v =>
    refine ⟨_, List.mem_singleton.mpr rfl, ?_⟩
    rw [String.append_assoc]
    exact v.introduces.append_left
  case sampler => exact ⟨_, List.mem_singleton.mpr rfl, introduces_joinWith (by decide)⟩
  case storage s _ _ qualifiers =>
    refine ⟨_, List.mem_singleton.mpr rfl, ?_⟩
    exact s.introduces_block
  case image => exact ⟨_, List.mem_singleton.mpr rfl, introduces_joinWith (by decide)⟩
  case interface v =>
    refine ⟨_, List.mem_singleton.mpr rfl, introduces_joinWith ?_⟩
    split <;> decide
  case immediates type length rows =>
    cases rows
    case none => exact ⟨_, List.mem_singleton.mpr rfl, introduces_immediates.append_right⟩
    case some =>
      refine ⟨_, List.mem_append_left _ (List.mem_append_left _ (List.mem_singleton.mpr rfl)), ?_⟩
      exact introduces_immediates.append_right.append_right.append_right.append_right
  case shared | indexableTemp | file =>
    exact ⟨_, List.mem_singleton.mpr rfl, introduces_subscript (by decide)⟩
  case temp type _ =>
    exact ⟨_, List.mem_singleton.mpr rfl, type ++ " ", ";", rfl, by simp, by decide⟩

end ShaderLift.Glsl
