import Mathlib
import ShaderLift.Proofs.Text.Words

/-!
Every text is bent into a legal identifier, and legal identifiers are left alone. Runs of
underscores are collapsed by rounds that halve them, until there are none.
-/

namespace ShaderLift.Identifier

-- What an identifier has to be.
structure Legal (name : String) : Prop where
  nonempty   : name ≠ ""
  characters : ∀ c ∈ name.toList, c.isAlphanum ∨ c = '_'
  start      : ∀ c ∈ name.toList.head?, ¬c.isDigit
  builtin    : ¬['g', 'l', '_'] <+: name.toList
  pairs      : ¬['_', '_'] <:+: name.toList
  reserved   : name ∉ reserved

-- One round: from the left, each pair of underscores becomes a single one.
def halve : List Char → List Char
  | '_' :: '_' :: cs => '_' :: halve cs
  | c :: cs => c :: halve cs
  | [] => []

-- Rounds are repeated while there is a pair.
inductive Halved : List Char → Nat → List Char → Prop
  | done {cs} (single : ¬['_', '_'] <:+: cs) : Halved cs 0 cs
  | round {cs n out} (pair : ['_', '_'] <:+: cs) (rest : Halved (halve cs) n out) :
      Halved cs (n + 1) out

section Collapse

variable {c : Char} {cs : List Char}

theorem pair_prefix_cons_iff : ['_', '_'] <+: c :: cs ↔ c = '_' ∧ cs.head? = some '_' := by
  rw [List.cons_prefix_cons, eq_comm]
  cases cs
  case nil => simp
  case cons d cs => simp [eq_comm]

theorem pair_infix_cons_iff :
    ['_', '_'] <:+: c :: cs ↔ (c = '_' ∧ cs.head? = some '_') ∨ ['_', '_'] <:+: cs := by
  rw [List.infix_cons_iff, pair_prefix_cons_iff]

theorem collapse_cons_of_pair (hc : c = '_') (h : (collapse cs).head? = some '_') :
    collapse (c :: cs) = collapse cs := by
  obtain ⟨rest, hrest⟩ := List.head?_eq_some_iff.mp h
  rw [hc, hrest]
  exact collapse.eq_2 cs rest hrest

theorem collapse_cons_of_single (h : ¬(c = '_' ∧ (collapse cs).head? = some '_')) :
    collapse (c :: cs) = c :: collapse cs := by
  apply collapse.eq_3
  intro rest hc hrest
  exact h ⟨hc, by rw [hrest, List.head?_cons]⟩

theorem head?_collapse : (collapse cs).head? = cs.head? := by
  cases cs
  case nil => rfl
  case cons c cs =>
    by_cases h : c = '_' ∧ (collapse cs).head? = some '_'
    case pos => rw [collapse_cons_of_pair h.left h.right, h.right, h.left, List.head?_cons]
    case neg => rw [collapse_cons_of_single h, List.head?_cons, List.head?_cons]

theorem not_pair_collapse : ¬['_', '_'] <:+: collapse cs := by
  induction cs
  case nil => simp [collapse]
  case cons c cs hi =>
    by_cases h : c = '_' ∧ (collapse cs).head? = some '_'
    case pos => rwa [collapse_cons_of_pair h.left h.right]
    case neg =>
      rw [collapse_cons_of_single h, pair_infix_cons_iff]
      exact not_or.mpr ⟨h, hi⟩

theorem collapse_of_single (h : ¬['_', '_'] <:+: cs) : collapse cs = cs := by
  induction cs
  case nil => rfl
  case cons c cs hi =>
    obtain ⟨hhead, htail⟩ := not_or.mp (mt pair_infix_cons_iff.mpr h)
    rw [collapse_cons_of_single (by rwa [head?_collapse]), hi htail]

theorem collapse_cons_congr {cs' : List Char} (h : collapse cs = collapse cs') :
    collapse (c :: cs) = collapse (c :: cs') := by
  simp only [collapse, h]

-- A round changes nothing that is not collapsed anyway.
theorem collapse_halve : collapse (halve cs) = collapse cs := by
  fun_induction halve cs
  case case1 cs hi =>
    have hpair : collapse ('_' :: '_' :: cs) = collapse ('_' :: cs) :=
      collapse_cons_of_pair rfl (by rw [head?_collapse, List.head?_cons])
    rw [hpair]
    exact collapse_cons_congr hi
  case case2 hi => exact collapse_cons_congr hi
  case case3 => rfl

theorem length_halve_le : (halve cs).length ≤ cs.length := by
  fun_induction halve cs
  case case1 hi => simp only [List.length_cons]; omega
  case case2 hi => simp only [List.length_cons]; omega
  case case3 => exact le_rfl

theorem length_halve_lt (h : ['_', '_'] <:+: cs) : (halve cs).length < cs.length := by
  fun_induction halve cs
  case case1 cs hi =>
    have : (halve cs).length ≤ cs.length := length_halve_le
    simp only [List.length_cons]
    omega
  case case2 c cs hne hi =>
    obtain ⟨rfl, hhead⟩ | htail := pair_infix_cons_iff.mp h
    case inl =>
      obtain ⟨cs', rfl⟩ := List.head?_eq_some_iff.mp hhead
      exact absurd rfl (hne cs' rfl)
    case inr => exact Nat.succ_lt_succ (hi htail)
  case case3 => simp at h

-- As each round makes the text shorter, they come to an end.
theorem exists_halved (cs : List Char) : ∃ n ≤ cs.length, Halved cs n (collapse cs) := by
  induction h : cs.length using Nat.strongRecOn generalizing cs
  case ind length hi =>
    subst h
    by_cases hpair : ['_', '_'] <:+: cs
    case pos =>
      have hlt := length_halve_lt hpair
      obtain ⟨n, hn, hrest⟩ := hi _ hlt (halve cs) rfl
      rw [collapse_halve] at hrest
      exact ⟨n + 1, by omega, .round hpair hrest⟩
    case neg =>
      rw [collapse_of_single hpair]
      exact ⟨0, Nat.zero_le _, .done hpair⟩

theorem Halved.unique {n m : Nat} {out out' : List Char} (h : Halved cs n out)
    (h' : Halved cs m out') : n = m ∧ out = out' := by
  induction h generalizing m
  case done hsingle =>
    cases h'
    case done => exact ⟨rfl, rfl⟩
    case round hpair _ => exact absurd hpair hsingle
  case round hpair _ hi =>
    cases h'
    case done hsingle => exact absurd hpair hsingle
    case round h' =>
      obtain ⟨rfl, rfl⟩ := hi h'
      exact ⟨rfl, rfl⟩

end Collapse

-- The text before its underscores are collapsed.
def guarded (name : String) : List Char :=
  guardStart (name.toList.map fun c => if isAllowed c then c else '_')

section OfString

variable {name : String}

theorem isAllowed_iff {c : Char} : isAllowed c ↔ c.isAlphanum ∨ c = '_' := by
  simp [isAllowed]

theorem toList_ofString (name : String) :
    (ofString name).toList =
      if ['g', 'l', '_'].isPrefixOf (collapse (guarded name)) then '_' :: collapse (guarded name)
      else if reserved.contains (String.ofList (collapse (guarded name))) then
        collapse (guarded name) ++ ['_', '0']
      else collapse (guarded name) := by
  rw [ofString, String.toList_ofList]
  rfl

theorem guarded_start (name : String) : ∃ c cs, guarded name = c :: cs ∧ ¬c.isDigit := by
  unfold guarded guardStart
  split
  case h_1 => exact ⟨'_', [], rfl, by decide⟩
  case h_2 c cs _ =>
    split
    case isTrue => exact ⟨'_', c :: cs, rfl, by decide⟩
    case isFalse h => exact ⟨c, cs, rfl, h⟩

-- No reserved word has an underscore in it.
theorem not_reserved_of_mem {word : String} (h : '_' ∈ word.toList) : word ∉ reserved := by
  have hall : ∀ word ∈ reserved, '_' ∉ word.toList := by decide
  exact fun hr => hall word hr h

theorem numbered_of_reserved {word : String} (h : word ∈ reserved) :
    ¬['g', 'l', '_'] <+: word.toList ++ ['_', '0'] ∧
      ¬['_', '_'] <:+: word.toList ++ ['_', '0'] := by
  have hall : ∀ word ∈ reserved, ¬['g', 'l', '_'] <+: word.toList ++ ['_', '0'] ∧
      ¬['_', '_'] <:+: word.toList ++ ['_', '0'] := by decide +kernel
  exact hall word h

theorem legal_of_toList {c : Char} {cs : List Char} (hlist : name.toList = c :: cs)
    (hword : IsWord name) (hdigit : ¬c.isDigit) (hbuiltin : ¬['g', 'l', '_'] <+: c :: cs)
    (hpairs : ¬['_', '_'] <:+: c :: cs) (hreserved : name ∉ reserved) : Legal name where
  nonempty := by
    rintro rfl
    cases hlist
  characters c hc := isAllowed_iff.mp (hword c hc)
  start := by simpa [hlist] using hdigit
  builtin := hlist ▸ hbuiltin
  pairs := hlist ▸ hpairs
  reserved := hreserved

-- Neither an underscore in front nor a number behind brings back what was taken away.
theorem legal_ofString : Legal (ofString name) := by
  obtain ⟨c, cs, hguarded, hdigit⟩ := guarded_start name
  obtain ⟨rest, hclean⟩ : ∃ rest, collapse (guarded name) = c :: rest := by
    apply List.head?_eq_some_iff.mp
    rw [head?_collapse, hguarded, List.head?_cons]
  have hpairs : ¬['_', '_'] <:+: c :: rest := hclean ▸ not_pair_collapse
  have hlist := toList_ofString name
  rw [hclean] at hlist
  split at hlist
  case isTrue hgl =>
    have hc : c = 'g' := (List.cons_prefix_cons.mp (List.isPrefixOf_iff_prefix.mp hgl)).left.symm
    refine legal_of_toList hlist isWord_ofString (by decide) ?_ ?_ (not_reserved_of_mem ?_)
    case refine_1 => simp
    case refine_2 =>
      rw [pair_infix_cons_iff, hc, List.head?_cons]
      exact not_or.mpr ⟨by simp, hc ▸ hpairs⟩
    case refine_3 => simp [hlist]
  case isFalse hgl =>
    split at hlist
    case isTrue hres =>
      have hres := numbered_of_reserved (List.contains_iff_mem.mp hres)
      rw [String.toList_ofList] at hres
      refine legal_of_toList hlist isWord_ofString hdigit hres.left hres.right ?_
      exact not_reserved_of_mem (by simp [hlist])
    case isFalse hres =>
      have hname : ofString name = String.ofList (c :: rest) := by
        apply String.toList_inj.mp
        rw [hlist, String.toList_ofList]
      refine legal_of_toList hlist isWord_ofString hdigit ?_ hpairs ?_
      case refine_1 => exact mt List.isPrefixOf_iff_prefix.mpr hgl
      case refine_2 => exact hname ▸ mt List.contains_iff_mem.mpr hres

theorem guarded_of_legal (h : Legal name) : guarded name = name.toList := by
  have hmap : (name.toList.map fun c => if isAllowed c then c else '_') = name.toList := by
    rw [List.map_congr_left (g := id), List.map_id]
    intro c hc
    exact if_pos (isAllowed_iff.mpr (h.characters c hc))
  unfold guarded
  rw [hmap]
  cases hlist : name.toList
  case nil => exact absurd (String.toList_eq_nil_iff.mp hlist) h.nonempty
  case cons c cs =>
    have hdigit : ¬c.isDigit := h.start c (by rw [hlist, List.head?_cons]; rfl)
    rw [guardStart, if_neg hdigit]

theorem ofString_of_legal (h : Legal name) : ofString name = name := by
  have hclean : collapse (guarded name) = name.toList := by
    rw [guarded_of_legal h, collapse_of_single h.pairs]
  apply String.toList_inj.mp
  rw [toList_ofString, hclean, if_neg (by simpa using h.builtin),
    if_neg (by simpa using h.reserved)]

end OfString

theorem ofString_normalizes (name : String) :
    Legal (ofString name) ∧ ofString (ofString name) = ofString name ∧
    (ofString name = name ↔ Legal name) ∧
    (∃ n ≤ (guarded name).length, Halved (guarded name) n (collapse (guarded name))) ∧
    ∀ n out, Halved (guarded name) n out → (ofString name).toList =
      if ['g', 'l', '_'].isPrefixOf out then '_' :: out
      else if reserved.contains (String.ofList out) then out ++ ['_', '0']
      else out := by
  refine ⟨legal_ofString, ofString_of_legal legal_ofString, ⟨fun h => ?_, ofString_of_legal⟩,
    exists_halved (guarded name), fun n out h => ?_⟩
  case refine_1 => exact h ▸ legal_ofString
  case refine_2 =>
    obtain ⟨_, _, hcollapse⟩ := exists_halved (guarded name)
    rw [(h.unique hcollapse).right, toList_ofString]

-- Two rounds bring out the reserved beginning.
theorem ofString_normalizes_hiddenBuiltin :
    Halved (guarded "gl_-_x") 2 ['g', 'l', '_', 'x'] ∧ ofString "gl_-_x" = "_gl_x" ∧
      ofString "_gl_x" = "_gl_x" ∧ Legal "_gl_x" := by
  have hrounds : Halved ['g', 'l', '_', '_', '_', 'x'] 2 ['g', 'l', '_', 'x'] :=
    .round (by decide) (.round (by decide) (.done (by decide)))
  have hguarded : guarded "gl_-_x" = ['g', 'l', '_', '_', '_', 'x'] := by decide
  rw [← hguarded] at hrounds
  obtain ⟨hlegal, hagain, _, _, hread⟩ := ofString_normalizes "gl_-_x"
  have hname : ofString "gl_-_x" = "_gl_x" := by
    apply String.toList_inj.mp
    rw [hread 2 _ hrounds]
    decide
  rw [hname] at hlegal hagain
  exact ⟨hrounds, hname, hagain, hlegal⟩

end ShaderLift.Identifier
