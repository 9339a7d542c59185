/-!
Finite maps kept as lists in the order of their keys, so that everything printed from them has one
order. Keys are compared by a rank, which is a natural number that tells them apart.
-/

namespace ShaderLift

class Ranked (κ : Type) where
  rank : κ → Nat
  rank_inj : ∀ {a b : κ}, rank a = rank b → a = b

export Ranked (rank)

instance : Ranked UInt32 where
  rank := UInt32.toNat
  rank_inj := UInt32.toNat_inj.mp

-- Two digits of a number to the base `m` can be read off it.
theorem digits_inj {m a b a' b' : Nat} (hb : b < m) (hb' : b' < m)
    (h : a * m + b = a' * m + b') : a = a' ∧ b = b' := by
  have key (x y : Nat) (hy : y < m) : (x * m + y) / m = x ∧ (x * m + y) % m = y := by
    rw [Nat.mul_comm]
    exact ⟨by rw [Nat.mul_add_div (by omega), Nat.div_eq_of_lt hy, Nat.add_zero],
      by rw [Nat.mul_add_mod, Nat.mod_eq_of_lt hy]⟩
  have h₁ := key a b hb
  have h₂ := key a' b' hb'
  rw [h] at h₁
  exact ⟨h₁.1.symm.trans h₂.1, h₁.2.symm.trans h₂.2⟩

structure SortedMap (κ α : Type) where
  entries : List (κ × α)
  deriving Repr

namespace SortedMap

variable {κ α β : Type} [Ranked κ]

def empty : SortedMap κ α := ⟨[]⟩

instance : Inhabited (SortedMap κ α) := ⟨empty⟩

def get? (m : SortedMap κ α) (k : κ) : Option α :=
  (m.entries.find? fun e => rank e.1 = rank k).map (·.2)

def contains (m : SortedMap κ α) (k : κ) : Bool :=
  m.entries.any fun e => rank e.1 = rank k

def keys (m : SortedMap κ α) : List κ :=
  m.entries.map (·.1)

def values (m : SortedMap κ α) : List α :=
  m.entries.map (·.2)

def isEmpty (m : SortedMap κ α) : Bool :=
  m.entries.isEmpty

def alter (m : SortedMap κ α) (k : κ) (f : Option α → α) : SortedMap κ α :=
  ⟨go m.entries⟩
where
  go : List (κ × α) → List (κ × α)
    | [] => [(k, f none)]
    | e :: es =>
      if rank k < rank e.1 then (k, f none) :: e :: es
      else if rank k = rank e.1 then (k, f (some e.2)) :: es
      else e :: go es

def insert (m : SortedMap κ α) (k : κ) (a : α) : SortedMap κ α :=
  m.alter k fun _ => a

def insertNew (m : SortedMap κ α) (k : κ) (a : α) : SortedMap κ α :=
  m.alter k (·.getD a)

def modify (m : SortedMap κ α) (k : κ) (f : α → α) : SortedMap κ α :=
  ⟨m.entries.map fun e => if rank e.1 = rank k then (e.1, f e.2) else e⟩

def Sorted (m : SortedMap κ α) : Prop :=
  m.entries.Pairwise fun a b => rank a.1 < rank b.1

theorem sorted_empty : (empty : SortedMap κ α).Sorted :=
  List.Pairwise.nil

theorem get?_alter (m : SortedMap κ α) (h : m.Sorted) (k : κ) (f : Option α → α) :
    (m.alter k f).get? k = some (f (m.get? k)) := by
  obtain ⟨entries⟩ := m
  simp only [get?, alter]
  simp only [Sorted] at h
  induction entries with
  | nil => simp [alter.go]
  | cons e es ih =>
    obtain ⟨he, hes⟩ := List.pairwise_cons.mp h
    rw [alter.go]
    split
    case isTrue hk =>
      have hn : ((e :: es).find? fun e => rank e.1 = rank k) = none := by
        simp only [List.find?_eq_none, List.mem_cons, decide_eq_true_eq]
        rintro x (rfl | hx)
        · omega
        · have := he x hx; omega
      simp [hn]
    case isFalse hk =>
      split
      case isTrue hk' => simp [hk']
      case isFalse hk' => simp [Ne.symm hk', ih hes]

theorem get?_insert (m : SortedMap κ α) (h : m.Sorted) (k : κ) (a : α) :
    (m.insert k a).get? k = some a :=
  m.get?_alter h k _

end SortedMap

abbrev SlotMap := SortedMap UInt32

end ShaderLift
