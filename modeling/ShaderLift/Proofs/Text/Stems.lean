import ShaderLift.Proofs.Text.Numerals

/-!
Names that are made of words and numbers. What a name says without its digits is its stem; names
with different stems are different, whatever their numbers.
-/

namespace ShaderLift

variable {s t : String} {n : UInt32}

def stem (s : String) : String :=
  .ofList (s.toList.filter (!·.isDigit))

@[simp] theorem stem_append : stem (s ++ t) = stem s ++ stem t := by
  simp [stem]

@[simp] theorem stem_repr {n : Nat} : stem n.repr = "" := by
  have hdigits : n.repr.toList.filter (!·.isDigit) = [] :=
    List.filter_eq_nil_iff.mpr fun c hc => by simpa using isDigit_of_mem_repr hc
  rw [stem, hdigits]

@[simp] theorem stem_decimal : stem (decimal n) = "" :=
  stem_repr

-- The name starts with a word and a number.
def Numbered (word : String) (n : UInt32) (name : String) : Prop :=
  ∃ rest, name = word ++ decimal n ++ rest ∧ NoDigitFirst rest

theorem Numbered.inj {word name : String} {m : UInt32} (hm : Numbered word m name)
    (hn : Numbered word n name) : m = n := by
  obtain ⟨rest, hname, hrest⟩ := hm
  obtain ⟨rest', hname', hrest'⟩ := hn
  have h : word ++ (decimal m ++ rest) = word ++ (decimal n ++ rest') := by
    rw [← String.append_assoc, ← String.append_assoc, ← hname, ← hname']
  exact (decimal_append_inj hrest hrest' (append_cancel_left h)).left

-- No name stands in the list twice, and each has one of the given stems.
structure Stemmed (stems names : List String) : Prop where
  nodup : names.Nodup
  stems : ∀ name ∈ names, stem name ∈ stems

namespace Stemmed

variable {stems stems' names names' : List String}

theorem nil : Stemmed stems [] :=
  ⟨List.nodup_nil, List.forall_mem_nil _⟩

theorem singleton (h : stem s ∈ stems) : Stemmed stems [s] :=
  ⟨List.nodup_singleton s, List.forall_mem_singleton.mpr h⟩

theorem mono (h : Stemmed stems names) (hs : ∀ s ∈ stems, s ∈ stems') : Stemmed stems' names :=
  ⟨h.nodup, fun name hn => hs _ (h.stems name hn)⟩

theorem ite {p : Prop} [Decidable p] (h : Stemmed stems names) :
    Stemmed stems (if p then names else []) := by
  split
  case isTrue => exact h
  case isFalse => exact nil

theorem append (h : Stemmed stems names) (h' : Stemmed stems' names')
    (hs : ∀ s ∈ stems, s ∉ stems') : Stemmed (stems ++ stems') (names ++ names') where
  nodup := by
    refine List.nodup_append.mpr ⟨h.nodup, h'.nodup, fun s hn t ht heq => ?_⟩
    exact hs _ (h.stems s hn) (heq ▸ h'.stems t ht)
  stems := List.forall_mem_append.mpr
    ⟨fun s hn => List.mem_append_left _ (h.stems s hn),
      fun s hn => List.mem_append_right _ (h'.stems s hn)⟩

theorem pair {w w' : String} (hs : stem s = w) (ht : stem t = w') (h : w ≠ w') :
    Stemmed [w, w'] [s, t] := by
  have hs : Stemmed [w] [s] := .singleton (by simp [hs])
  have ht : Stemmed [w'] [t] := .singleton (by simp [ht])
  exact hs.append ht (by simp [h])

theorem map {α : Type} {f : α → String} {l : List α} (hl : l.Nodup)
    (hf : ∀ a ∈ l, ∀ b ∈ l, f a = f b → a = b) (hs : ∀ a ∈ l, stem (f a) ∈ stems) :
    Stemmed stems (l.map f) :=
  ⟨List.Nodup.map_on hf hl, List.forall_mem_map.mpr hs⟩

theorem numbers (word : String) {l : List UInt32} (hw : stem word ∈ stems) (hl : l.Nodup) :
    Stemmed stems (l.map fun n => word ++ decimal n) :=
  .map hl (fun _ _ _ _ h => decimal_inj.mp (append_cancel_left h)) fun _ _ => by simpa using hw

-- Each slot has some names, and all of these tell its number.
theorem slots {α : Type} (slot : α → UInt32) (word : String) {f : α → List String} {l : List α}
    (hl : (l.map slot).Nodup) (hf : ∀ a ∈ l, Stemmed stems (f a))
    (hn : ∀ a ∈ l, ∀ name ∈ f a, Numbered word (slot a) name) : Stemmed stems (l.flatMap f) where
  nodup := by
    refine List.nodup_flatMap.mpr ⟨fun a ha => (hf a ha).nodup, ?_⟩
    refine (List.pairwise_map.mp hl).imp_of_mem fun {a b} ha hb hne name hna hnb => ?_
    exact hne ((hn a ha name hna).inj (hn b hb name hnb))
  stems := List.forall_mem_flatMap.mpr fun a ha => (hf a ha).stems

end Stemmed

end ShaderLift
