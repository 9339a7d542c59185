import ShaderLift.Proofs.Glsl.Layout
import ShaderLift.Proofs.Lift.Resources

/-!
The variables of constant buffers. What is counted in words of 32 bits is counted here in numbers
that do not wrap around, and the declaration of a member is read back as memory.
-/

namespace ShaderLift

open Glsl

theorem Glsl.Shape.ofType?_vecName {d : Dialect} {t : ValueType} {n : Nat} (hl : 1 ≤ n)
    (hu : n ≤ 4) : ofType? (t.vecName d n) = some { components := n } := by
  simp only [ValueType.vecName, ValueType.scalarName]
  obtain rfl | rfl | rfl | rfl : n = 1 ∨ n = 2 ∨ n = 3 ∨ n = 4 := by omega
  all_goals cases t.lower d <;> rfl

namespace Member

variable {d : Dialect} {m : Member} {ms : List Member}

-- What all variables have in common that make a member.
structure Regular (m : Member) : Prop where
  offset     : 4 ∣ m.offset.toNat
  components : 1 ≤ m.components.toNat ∧ m.components.toNat ≤ 4
  registers  : 1 ≤ m.registers.toNat ∧ m.registers.toNat ≤ 4
  matrix     : m.isMatrix → 1 < m.registers.toNat ∧ 1 < m.components.toNat

theorem regular_of_ofVariable {v : Variable} (h : ofVariable d v = some m) : m.Regular := by
  simp only [ofVariable] at h
  split at h
  case isTrue => cases h
  case isFalse hv =>
    obtain ⟨⟨registers, components, isMatrix⟩, _, h⟩ := Option.bind_eq_some_iff.mp h
    split at h
    case isFalse => cases h
    case isTrue hr =>
      obtain ⟨hcl, hcu, hrl, hru⟩ := hr
      cases Option.some.inj h
      refine ⟨?offset, ⟨hcl, hcu⟩, ⟨hrl, hru⟩, fun hm => ?matrix⟩
      case offset =>
        have hoffset : v.offset % 4 = 0 := not_not.mp (not_or.mp hv).right
        exact Nat.dvd_of_mod_eq_zero (congrArg UInt32.toNat hoffset)
      case matrix =>
        simp only [Bool.and_eq_true, decide_eq_true_eq] at hm
        exact ⟨hm.left.left.left.right, hm.left.left.right⟩

theorem regular_of_ofBuffer {buffer : ConstantBuffer} (h : ofBuffer d buffer = some ms) :
    ∀ m ∈ ms, m.Regular := by
  have ⟨vs, hvs, h⟩ := Option.map_eq_some_iff.mp h
  intro m hm
  have hm : m ∈ vs := (List.mergeSort_perm vs _).mem_iff.mp (h ▸ hm)
  exact forall_mem_of_mapM hvs (fun _ _ => regular_of_ofVariable) m hm

theorem ofBuffer_eq_some {buffer : ConstantBuffer}
    (h : buffer.members.mapM (ofVariable d) = some ms)
    (hs : ms.Pairwise fun m m' => decide (m.offset ≤ m'.offset)) : ofBuffer d buffer = some ms := by
  rw [ofBuffer, h, Option.map_some, List.mergeSort_of_pairwise hs]

-- What the name of the type says.
def shape (m : Member) : Shape where
  columns := if m.isMatrix then some m.registers.toNat else none
  components := m.components.toNat

theorem isArray_iff : m.isArray ↔ 0 < m.elements.toNat ∨ 1 < m.registers.toNat := by
  simp only [isArray, Bool.or_eq_true, decide_eq_true_eq, GT.gt, UInt32.lt_iff_toNat_lt]
  rfl

theorem toNat_count (h : m.registerCount < 2 ^ 32) : m.count.toNat = m.registerCount := by
  have hmax : (max m.elements 1).toNat = max m.elements.toNat 1 := by
    have hite : max m.elements 1 = if m.elements ≤ 1 then 1 else m.elements := rfl
    by_cases hle : m.elements.toNat ≤ 1
    case pos =>
      rw [hite, if_pos (UInt32.le_iff_toNat_le.mpr hle), Nat.max_eq_right hle]
      rfl
    case neg => rw [hite, if_neg (mt UInt32.le_iff_toNat_le.mp hle), Nat.max_eq_left (by omega)]
  rw [count, UInt32.toNat_mul, hmax]
  exact Nat.mod_eq_of_lt h

theorem toNat_size (hs : m.space < 2 ^ 32) : m.size.toNat = m.space := by
  by_cases ha : m.isArray
  case pos =>
    rw [space, if_pos ha] at hs
    have hc : m.registerCount < 2 ^ 32 := by omega
    have hsize : m.size.toNat = m.registerCount * 16 % 2 ^ 32 := by
      simp [size, ha, UInt32.toNat_mul, toNat_count hc]
    rw [hsize, space, if_pos ha]
    omega
  case neg =>
    rw [space, if_neg ha] at hs
    have hsize : m.size.toNat = m.components.toNat * 4 % 2 ^ 32 := by
      simp [size, ha, UInt32.toNat_mul]
    rw [hsize, space, if_neg ha]
    omega

section Dimensions

theorem dimensions_matrix (hm : m.isMatrix) : (m.declarator d).dimensions m.shape =
    (if 0 < m.elements.toNat then [m.elements.toNat] else []) ++ [m.registers.toNat] := by
  have he : m.elements > 0 ↔ 0 < m.elements.toNat := UInt32.lt_iff_toNat_lt
  simp only [Declarator.dimensions, declarator, shape, hm, if_true, he]
  split <;> rfl

theorem dimensions_array (hm : ¬m.isMatrix) (ha : m.isArray) :
    (m.declarator d).dimensions m.shape = [m.count.toNat] := by
  simp [Declarator.dimensions, declarator, shape, hm, ha]

theorem dimensions_vector (hm : ¬m.isMatrix) (ha : ¬m.isArray) :
    (m.declarator d).dimensions m.shape = [] := by
  simp [Declarator.dimensions, declarator, shape, hm, ha]

end Dimensions

namespace Regular

variable (h : m.Regular)
include h

theorem isArray_of_isMatrix (hm : m.isMatrix) : m.isArray :=
  isArray_iff.mpr (.inr (h.matrix hm).left)

theorem registerCount_pos : 0 < m.registerCount :=
  Nat.mul_pos (by omega) h.registers.left

theorem registerCount_eq_one (ha : ¬m.isArray) : m.registerCount = 1 := by
  have hr := h.registers
  have ⟨he, hs⟩ := not_or.mp (mt isArray_iff.mpr ha)
  have he : m.elements.toNat = 0 := by omega
  have hs : m.registers.toNat = 1 := by omega
  rw [registerCount, he, hs]
  rfl

theorem registerCount_lt_of_space (hs : m.space < 2 ^ 32) : m.registerCount < 2 ^ 32 := by
  unfold space at hs
  split at hs
  case isTrue => omega
  case isFalse ha => simp [h.registerCount_eq_one ha]

theorem ofType?_typeName : Shape.ofType? (m.typeName d) = some m.shape := by
  have hc := h.components
  unfold typeName shape
  split
  case isFalse =>
    extract_lets n
    cases m.base
    case bool =>
      obtain hn | hn | hn | hn : n = 1 ∨ n = 2 ∨ n = 3 ∨ n = 4 := by omega
      all_goals simp only [hn, ← show n = m.components.toNat from rfl]; rfl
    all_goals exact Shape.ofType?_vecName hc.left hc.right
  case isTrue hm =>
    have ⟨hr, hc'⟩ := h.matrix hm
    have hr' := h.registers
    simp only [← UInt32.toNat_inj, decimal]
    obtain hr | hr | hr :
      m.registers.toNat = 2 ∨ m.registers.toNat = 3 ∨ m.registers.toNat = 4 := by omega
    all_goals
      obtain hc | hc | hc :
        m.components.toNat = 2 ∨ m.components.toNat = 3 ∨ m.components.toNat = 4 := by omega
      all_goals rw [hr, hc]; rfl

theorem extent?_declarator (hc : m.registerCount < 2 ^ 32) :
    Std140.extent? (m.declarator d) = some ⟨m.align.toNat, m.space⟩ := by
  have hshape : Shape.ofType? (m.declarator d).type = some m.shape := h.ofType?_typeName
  by_cases hm : m.isMatrix
  case pos =>
    have ha := h.isArray_of_isMatrix hm
    have hprod : ((m.declarator d).dimensions m.shape).prod = m.registerCount := by
      rw [dimensions_matrix hm, registerCount]
      split
      case isTrue he => simp [Nat.max_eq_left he]
      case isFalse he => simp [Nat.eq_zero_of_not_pos he]
    rw [Std140.extent?_eq_prod hshape (by simp [dimensions_matrix hm]), hprod]
    simp [align, space, ha]
  case neg =>
    by_cases ha : m.isArray
    case pos =>
      rw [Std140.extent?_eq_prod hshape (by simp [dimensions_array hm ha])]
      simp [dimensions_array hm ha, toNat_count hc, align, space, ha]
    case neg =>
      have hcomp := h.components
      rw [Std140.extent?_eq_ofVector hshape (dimensions_vector hm ha)]
      obtain hn | hn | hn | hn : m.components.toNat = 1 ∨ m.components.toNat = 2 ∨
        m.components.toNat = 3 ∨ m.components.toNat = 4 := by omega
      all_goals simp [shape, align, space, ha, hn, Std140.ofVector]

theorem toNat_extent (hb : m.bytes < 2 ^ 32) : m.extent.toNat = m.bytes := by
  have hpos := h.registerCount_pos
  have hcomp := h.components
  simp only [bytes] at hb ⊢
  have hcount : m.count.toNat = m.registerCount := toNat_count (by omega)
  have hone : (1 : UInt32).toNat = 1 := rfl
  have hc : m.count > 1 ↔ 1 < m.registerCount := by
    rw [GT.gt, UInt32.lt_iff_toNat_lt, hcount, hone]
  simp only [extent, hc]
  split
  case isTrue hc' =>
    have hle : (1 : UInt32) ≤ m.count := UInt32.le_of_lt (hc.mpr hc')
    simp only [UInt32.toNat_add, UInt32.toNat_mul, UInt32.toNat_sub_of_le _ _ hle, hcount, hone]
    change ((m.registerCount - 1) * 16 % 2 ^ 32 + m.components.toNat * 4 % 2 ^ 32) % 2 ^ 32 = _
    omega
  case isFalse hc' =>
    rw [UInt32.toNat_mul]
    change m.components.toNat * 4 % 2 ^ 32 = _
    omega

end Regular

end Member

end ShaderLift
