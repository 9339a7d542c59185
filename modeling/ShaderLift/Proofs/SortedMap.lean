import Mathlib
import ShaderLift.SortedMap

/-!
The entries of a sorted map: which there are after a change, and that no key has two of them.
-/

namespace ShaderLift.SortedMap

variable {κ α : Type} [Ranked κ] {m : SortedMap κ α} {k : κ} {a : α} {f : Option α → α} {k' : κ}

theorem mem_entries_of_get? (h : m.get? k = some a) : (k, a) ∈ m.entries := by
  have ⟨e, he, ha⟩ := Option.map_eq_some_iff.mp h
  have hk : e.1 = k := Ranked.rank_inj (by simpa using List.find?_some he)
  have hmem := List.mem_of_find?_eq_some he
  rwa [show e = (k, a) from Prod.ext hk ha] at hmem

theorem mem_alter {e : κ × α} (h : e ∈ (m.alter k f).entries) :
    e ∈ m.entries ∨ ∃ old, e = (k, f old) := by
  obtain ⟨entries⟩ := m
  simp only [alter] at h ⊢
  fun_induction alter.go k f entries
  case case1 => exact .inr ⟨none, List.mem_singleton.mp h⟩
  case case2 =>
    cases List.mem_cons.mp h
    case inl h => exact .inr ⟨none, h⟩
    case inr h => exact .inl h
  case case3 old _ _ _ _ =>
    cases List.mem_cons.mp h
    case inl h => exact .inr ⟨_, h⟩
    case inr h => exact .inl (List.mem_cons_of_mem _ h)
  case case4 hi =>
    cases List.mem_cons.mp h
    case inl h => exact .inl (h ▸ List.mem_cons_self)
    case inr h => exact (hi h).imp_left (List.mem_cons_of_mem _)

theorem mem_insert {e : κ × α} (h : e ∈ (m.insert k a).entries) : e ∈ m.entries ∨ e = (k, a) :=
  (mem_alter h).imp_right fun ⟨_, h⟩ => h

theorem Sorted.alter (h : m.Sorted) : (m.alter k f).Sorted := by
  obtain ⟨entries⟩ := m
  induction entries
  case nil => exact List.pairwise_singleton _ _
  case cons e es hi =>
    have ⟨he, hes⟩ := List.pairwise_cons.mp h
    simp only [Sorted, SortedMap.alter, alter.go] at hi ⊢
    split_ifs with hlt heq
    case pos =>
      refine List.pairwise_cons.mpr ⟨List.forall_mem_cons.mpr ⟨hlt, fun x hx => ?_⟩, h⟩
      exact hlt.trans (he x hx)
    case pos => exact List.pairwise_cons.mpr ⟨fun x hx => heq ▸ he x hx, hes⟩
    case neg =>
      refine List.pairwise_cons.mpr ⟨fun x hx => ?_, hi hes⟩
      cases mem_alter (m := ⟨es⟩) hx
      case inl hx => exact he x hx
      case inr hx =>
        obtain ⟨_, rfl⟩ := hx
        change rank e.1 < rank k
        omega

theorem Sorted.insert (h : m.Sorted) : (m.insert k a).Sorted :=
  h.alter

theorem Sorted.nodup_keys (h : m.Sorted) : m.keys.Nodup :=
  List.pairwise_map.mpr (h.imp fun hlt heq => hlt.ne (congrArg rank heq))

theorem Sorted.get?_eq_some (h : m.Sorted) (hm : (k, a) ∈ m.entries) : m.get? k = some a := by
  cases hget : m.get? k
  case none =>
    have hnone := List.find?_eq_none.mp (Option.map_eq_none_iff.mp hget) _ hm
    simp at hnone
  case some b =>
    have hb := mem_entries_of_get? hget
    cases List.inj_on_of_nodup_map h.nodup_keys hm hb rfl
    rfl

theorem mem_keys_alter : k' ∈ (m.alter k f).keys ↔ k' = k ∨ k' ∈ m.keys := by
  obtain ⟨entries⟩ := m
  simp only [alter, keys]
  fun_induction alter.go k f entries
  case case1 => simp
  case case2 => simp
  case case3 e es hlt heq =>
    have hk : k = e.1 := Ranked.rank_inj heq
    simp [hk]
  case case4 hi =>
    rw [List.map_cons, List.mem_cons, hi, List.map_cons, List.mem_cons]
    exact or_left_comm

theorem mem_keys_insert : k' ∈ (m.insert k a).keys ↔ k' = k ∨ k' ∈ m.keys :=
  mem_keys_alter

theorem mem_keys_insertNew : k' ∈ (m.insertNew k a).keys ↔ k' = k ∨ k' ∈ m.keys :=
  mem_keys_alter

theorem Sorted.insertNew (h : m.Sorted) : (m.insertNew k a).Sorted :=
  h.alter

theorem Sorted.modify (h : m.Sorted) {g : α → α} : (m.modify k g).Sorted := by
  refine List.pairwise_map.mpr (h.imp fun {e e'} hlt => ?_)
  split <;> split <;> exact hlt

theorem get?_modify {g : α → α} :
    (m.modify k g).get? k' = if rank k' = rank k then (m.get? k').map g else m.get? k' := by
  obtain ⟨entries⟩ := m
  have hp : ((fun e : κ × α => decide (rank e.1 = rank k')) ∘
      fun e => if rank e.1 = rank k then (e.1, g e.2) else e) =
        fun e => decide (rank e.1 = rank k') := by
    funext e
    simp only [Function.comp]
    split <;> rfl
  simp only [modify, get?, List.find?_map, hp]
  cases h : entries.find? fun e => decide (rank e.1 = rank k')
  case none => simp
  case some e =>
    have he : rank e.1 = rank k' := by simpa using List.find?_some h
    simp only [he, Option.map_some]
    split <;> rfl

theorem Sorted.foldl_insertNew (h : m.Sorted) {ks : List κ} :
    (ks.foldl (fun m k => m.insertNew k a) m).Sorted :=
  List.foldlRecOn ks _ h fun _ h _ _ => h.insertNew

theorem mem_keys_foldl_insertNew {ks : List κ} :
    k' ∈ (ks.foldl (fun m k => m.insertNew k a) m).keys ↔ k' ∈ ks ∨ k' ∈ m.keys := by
  induction ks generalizing m
  case nil => simp
  case cons k ks hi =>
    rw [List.foldl_cons, hi, mem_keys_insertNew, List.mem_cons, or_assoc, or_left_comm]

-- Changes at different keys can be made in either order.
theorem alter_comm {g : Option α → α} (h : k ≠ k') :
    (m.alter k f).alter k' g = (m.alter k' g).alter k f := by
  have hrank : rank k ≠ rank k' := fun heq => h (Ranked.rank_inj heq)
  obtain ⟨entries⟩ := m
  simp only [alter, mk.injEq]
  induction entries
  case nil =>
    simp only [alter.go]
    split_ifs <;> first | rfl | omega
  case cons e es hi =>
    rcases Nat.lt_trichotomy (rank k) (rank e.1) with hk | hk | hk <;>
    rcases Nat.lt_trichotomy (rank k') (rank e.1) with hk' | hk' | hk' <;>
    rcases Nat.lt_or_gt_of_ne hrank with hlt | hlt <;>
    first
    | omega
    | simp (disch := omega) [alter.go, if_neg, if_pos, hi]

-- Two changes at one key are one.
theorem alter_alter {g : Option α → α} :
    (m.alter k f).alter k g = m.alter k fun old => g (some (f old)) := by
  obtain ⟨entries⟩ := m
  simp only [alter, mk.injEq]
  fun_induction alter.go k f entries
  case case1 => simp [alter.go]
  case case2 h => simp [alter.go, h]
  case case3 h h' => simp [alter.go, h']
  case case4 h h' hi => simp [alter.go, h, h', hi]

end ShaderLift.SortedMap
