import ShaderLift.Proofs.Lift.Member
import ShaderLift.Proofs.Retarget.Resources

/-!
Which variable of a constant buffer lies at a component of a register: the expression that is found
there reads exactly the bytes that the bytecode names.
-/

namespace ShaderLift

open Glsl

namespace Member

variable {d : Dialect} {m : Member} {ms : List Member} {register : UInt32} {component : Nat}

-- Truth values are turned into numbers.
def converted (d : Dialect) (m : Member) (e : Expr) : Expr :=
  if m.base = .bool then .call (ValueType.uint.scalarName d) [e] else e

theorem converted_inj {e e' : Expr} (h : m.converted d e = m.converted d e') : e = e' := by
  unfold converted at h
  split at h
  case isTrue => injection h with _ h; injection h
  case isFalse => exact h

-- The vector or scalar that lies in a register of the member.
def row (m : Member) (register : UInt32) : Expr :=
  let name := Expr.var (.member m.name)
  if m.isMatrix then
    let element := if m.elements > 0 then .index name (.number (register / m.registers)) else name
    .index element (.number (register % m.registers))
  else if m.isArray then .index name (.number register)
  else name

def scalar (m : Member) (register : UInt32) (component : Nat) : Expr :=
  if m.components > 1 then .select (m.row register) [component] else m.row register

theorem lane_eq {distance : UInt32} : m.lane d distance =
    let register := if m.isArray then distance / 16 else 0
    let component := if m.isArray then distance % 16 / 4 else distance / 4
    if component ≥ m.components then .padding
    else .value (m.converted d (m.scalar register component.toNat)) m.valueType :=
  rfl

namespace Regular

variable (h : m.Regular)
include h

section Row

variable (hq : register.toNat < m.registerCount) (hc : m.registerCount < 2 ^ 32)
include hq hc

theorem vector?_row : (m.declarator d).vector? m.shape (m.row register) = some register.toNat := by
  have hname : (m.declarator d).name = m.name := rfl
  by_cases hm : m.isMatrix
  case pos =>
    have hpos := h.registers.left
    have hmod : register.toNat % m.registers.toNat < m.registers.toNat := Nat.mod_lt _ hpos
    have he : m.elements > 0 ↔ 0 < m.elements.toNat := UInt32.lt_iff_toNat_lt
    unfold registerCount at hq
    by_cases helements : 0 < m.elements.toNat
    case pos =>
      have hdiv : register.toNat / m.registers.toNat < m.elements.toNat := by
        rw [Nat.max_eq_left helements] at hq
        exact Nat.div_lt_of_lt_mul (Nat.mul_comm _ _ ▸ hq)
      have hposition := position?_pair hdiv hmod
      rw [Nat.div_add_mod'] at hposition
      simpa [Declarator.vector?, row, hm, he, helements, hname, dimensions_matrix] using hposition
    case neg =>
      have hlt : register.toNat < m.registers.toNat := by
        simpa [Nat.eq_zero_of_not_pos helements] using hq
      have hposition := position?_single hmod
      rw [Nat.mod_eq_of_lt hlt] at hposition
      simpa [Declarator.vector?, row, hm, he, helements, hname, dimensions_matrix,
        Nat.mod_eq_of_lt hlt] using hposition
  case neg =>
    by_cases ha : m.isArray
    case pos =>
      have hposition := position?_single (toNat_count hc ▸ hq)
      simpa [Declarator.vector?, row, hm, ha, hname, dimensions_array] using hposition
    case neg =>
      have hzero : register.toNat = 0 := by
        rw [h.registerCount_eq_one ha] at hq
        omega
      simp [Declarator.vector?, row, hm, ha, hname, dimensions_vector, position?, hzero]

theorem lane?_scalar (hl : component < m.components.toNat) :
    (m.declarator d).lane? (m.scalar register component) = some (register.toNat, component) := by
  have hshape : Shape.ofType? (m.declarator d).type = some m.shape := h.ofType?_typeName
  have hvector := h.vector?_row (d := d) hq hc
  have hgt : m.components > 1 ↔ 1 < m.components.toNat := UInt32.lt_iff_toNat_lt
  by_cases hone : 1 < m.components.toNat
  case pos =>
    rw [scalar, if_pos (hgt.mpr hone), Declarator.lane?_select hshape hone.ne' hl, hvector]
    rfl
  case neg =>
    have hone : m.components.toNat = 1 := by omega
    have hcomponents : m.shape = ⟨m.shape.columns, 1⟩ := by simp [shape, hone]
    rw [scalar, if_neg (mt hgt.mp (by omega)),
      Declarator.lane?_scalar (hcomponents ▸ hshape), ← hcomponents, hvector,
      show component = 0 by omega]
    rfl

end Row

-- The distance from the start of the member splits into a register and a component. A member that
-- takes no registers of its own has only one.
theorem exists_lane {distance : UInt32} (hb : m.bytes < 2 ^ 32) (hd : distance.toNat < m.bytes)
    (h4 : 4 ∣ distance.toNat) :
    ∃ q l, distance.toNat = 16 * q + 4 * l ∧ q < m.registerCount ∧ l < 4 ∧
      if l < m.components.toNat then
        ∃ e, m.lane d distance = .value (m.converted d e) m.valueType ∧
          (m.declarator d).lane? e = some (q, l)
      else m.lane d distance = .padding := by
  let register := if m.isArray then distance / 16 else 0
  let component := if m.isArray then distance % 16 / 4 else distance / 4
  have hcount := h.registerCount_pos
  have hcomponents := h.components
  have ⟨hsplit, hq, hl⟩ : distance.toNat = 16 * register.toNat + 4 * component.toNat ∧
      register.toNat < m.registerCount ∧ component.toNat < 4 := by
    unfold bytes at hd
    by_cases ha : m.isArray
    case pos =>
      have hregister : register.toNat = distance.toNat / 16 := by simp [register, ha]
      have hcomponent : component.toNat = distance.toNat % 16 / 4 := by simp [component, ha]
      omega
    case neg =>
      have hregister : register.toNat = 0 := by simp [register, ha]
      have hcomponent : component.toNat = distance.toNat / 4 := by simp [component, ha]
      rw [h.registerCount_eq_one ha] at hd ⊢
      omega
  have hc : m.registerCount < 2 ^ 32 := by unfold bytes at hb; omega
  have hlane : m.lane d distance = if component ≥ m.components then .padding
      else .value (m.converted d (m.scalar register component.toNat)) m.valueType := lane_eq
  refine ⟨register.toNat, component.toNat, hsplit, hq, hl, ?_⟩
  split
  case isTrue hlt =>
    refine ⟨m.scalar register component.toNat, ?_, h.lane?_scalar hq hc hlt⟩
    rw [hlane, if_neg (UInt32.not_le.mpr (UInt32.lt_iff_toNat_lt.mpr hlt))]
  case isFalse hlt =>
    rw [hlane, if_pos (UInt32.le_iff_toNat_le.mpr (Nat.le_of_not_lt hlt))]

section Cover

variable (he : m.offset.toNat + m.bytes < 2 ^ 32)
include he

theorem toNat_end : (m.offset + m.extent).toNat = m.offset.toNat + m.bytes := by
  rw [UInt32.toNat_add, h.toNat_extent (by omega), Nat.mod_eq_of_lt he]

theorem covers_iff {byte : UInt32} : covers byte m ↔ m.Holds byte.toNat := by
  simp only [covers, Holds, Bool.and_eq_true, decide_eq_true_eq, UInt32.le_iff_toNat_le,
    UInt32.lt_iff_toNat_lt, h.toNat_end he]

theorem touches_iff : touches register m ↔ m.Overlaps register.toNat := by
  have hcomponents := h.components
  have hpos : 0 < m.bytes := by unfold bytes; omega
  have hle : (1 : UInt32) ≤ m.offset + m.extent := by
    rw [UInt32.le_iff_toNat_le, h.toNat_end he]
    exact Nat.le_trans hpos (Nat.le_add_left _ _)
  have hlast : (m.offset + m.extent - 1).toNat = m.offset.toNat + m.bytes - 1 := by
    rw [UInt32.toNat_sub_of_le _ _ hle, h.toNat_end he]
    rfl
  simp only [touches, Overlaps, Bool.and_eq_true, decide_eq_true_eq, UInt32.le_iff_toNat_le,
    UInt32.toNat_div, hlast]
  change m.offset.toNat / 16 ≤ register.toNat ∧
    register.toNat ≤ (m.offset.toNat + m.bytes - 1) / 16 ↔ _
  omega

end Cover

-- Only of a member that holds the byte the end matters.
theorem covers_eq {byte : UInt32}
    (he : m.Holds byte.toNat → m.offset.toNat + m.bytes < 2 ^ 32) :
    covers byte m = decide (m.Holds byte.toNat) := by
  rw [Bool.eq_iff_iff, decide_eq_true_eq]
  by_cases hend : m.offset.toNat + m.bytes < 2 ^ 32
  case pos => exact h.covers_iff hend
  case neg =>
    have hholds : ¬m.Holds byte.toNat := fun hm => hend (he hm)
    refine iff_of_false (fun hcovers => hholds ⟨?_, ?_⟩) hholds
    case refine_1 =>
      simp only [covers, Bool.and_eq_true, decide_eq_true_eq] at hcovers
      exact hcovers.left
    case refine_2 => exact byte.toNat_lt.trans_le (Nat.not_lt.mp hend)

end Regular

-- Register `q` and component `l` of the first member that holds the byte lie at the byte.
structure FirstLane (ms : List Member) (byte : Nat) (m : Member) (q l : Nat) : Prop where
  first     : ms.find? (Holds byte) = some m
  byte      : byte = m.offset.toNat + 16 * q + 4 * l
  register  : q < m.registerCount
  component : l < m.components.toNat

section LaneAt

theorem toNat_byte_mod (hc : component < 4) :
    (register * 16 + .ofNat component * 4).toNat =
      (16 * register.toNat + 4 * component) % 2 ^ 32 := by
  have hcomponent : (UInt32.ofNat component).toNat = component := by
    rw [UInt32.toNat_ofNat']
    omega
  simp only [UInt32.toNat_add, UInt32.toNat_mul, hcomponent]
  change (register.toNat * 16 % 2 ^ 32 + component * 4 % 2 ^ 32) % 2 ^ 32 = _
  omega

theorem toNat_byte (hr : 16 * register.toNat + 16 ≤ 2 ^ 32) (hc : component < 4) :
    (register * 16 + .ofNat component * 4).toNat = 16 * register.toNat + 4 * component := by
  rw [toNat_byte_mod hc, Nat.mod_eq_of_lt (by omega)]

section Found

variable (hms : ∀ m ∈ ms, m.Regular) (hr : 16 * register.toNat + 16 ≤ 2 ^ 32) (hc : component < 4)
  (hfound : ∀ m, ms.find? (Holds (16 * register.toNat + 4 * component)) = some m →
    m.offset.toNat + m.bytes < 2 ^ 32)
include hms hr hc hfound

theorem find?_covers : ms.find? (covers (register * 16 + .ofNat component * 4)) =
    ms.find? (Holds (16 * register.toNat + 4 * component)) := by
  have hbyte := toNat_byte hr hc
  induction ms
  case nil => rfl
  case cons m ms hi =>
    have ⟨hregular, hms⟩ := List.forall_mem_cons.mp hms
    have hm : covers (register * 16 + .ofNat component * 4) m =
        decide (m.Holds (16 * register.toNat + 4 * component)) := by
      have hhead (h : m.Holds (16 * register.toNat + 4 * component)) :
          m.offset.toNat + m.bytes < 2 ^ 32 :=
        hfound m (List.find?_cons_of_pos (decide_eq_true h))
      rw [← hbyte] at hhead ⊢
      exact hregular.covers_eq hhead
    rw [List.find?_cons, List.find?_cons, hm]
    split
    case h_1 => rfl
    case h_2 hholds => exact hi hms fun m' hm' => hfound m' (by rw [List.find?_cons, hholds, hm'])

theorem laneAt_cases_of_found :
    (∃ m q l e, FirstLane ms (16 * register.toNat + 4 * component) m q l ∧
      laneAt d ms register component = .value (m.converted d e) m.valueType ∧
      (m.declarator d).lane? e = some (q, l)) ∨
    (¬∃ m q l, FirstLane ms (16 * register.toNat + 4 * component) m q l) ∧
      ∀ e type, laneAt d ms register component ≠ .value e type := by
  have hbyte := toNat_byte hr hc
  cases hfind : ms.find? (Holds (16 * register.toNat + 4 * component))
  case none =>
    refine .inr ⟨fun ⟨m, q, l, h⟩ => ?_, fun e type h => ?_⟩
    case refine_1 => cases hfind.symm.trans h.first
    case refine_2 =>
      simp only [laneAt, find?_covers hms hr hc hfound, hfind] at h
      split at h <;> cases h
  case some m =>
    have hlane : laneAt d ms register component =
        m.lane d (register * 16 + .ofNat component * 4 - m.offset) := by
      simp only [laneAt, find?_covers hms hr hc hfound, hfind]
    have hregular := hms m (List.mem_of_find?_eq_some hfind)
    have he := hfound m hfind
    obtain ⟨hle, hlt⟩ : m.Holds (16 * register.toNat + 4 * component) := by
      simpa using List.find?_some hfind
    have hdistance : (register * 16 + .ofNat component * 4 - m.offset).toNat =
        16 * register.toNat + 4 * component - m.offset.toNat := by
      rw [UInt32.toNat_sub_of_le _ _ (UInt32.le_iff_toNat_le.mpr (hbyte ▸ hle)), hbyte]
    have hoffset := hregular.offset
    have hbytes : m.bytes < 2 ^ 32 := by omega
    obtain ⟨q, l, hsplit, hq, hl, hvalue⟩ := hregular.exists_lane (d := d) hbytes
      (hdistance ▸ (by omega : 16 * register.toNat + 4 * component - m.offset.toNat < m.bytes))
      (hdistance ▸ (by omega : 4 ∣ 16 * register.toNat + 4 * component - m.offset.toNat))
    rw [← hlane] at hvalue
    split at hvalue
    case isTrue hlt =>
      obtain ⟨e, hvalue, he⟩ := hvalue
      exact .inl ⟨m, q, l, e, ⟨hfind, by omega, hq, hlt⟩, hvalue, he⟩
    case isFalse hlt =>
      refine .inr ⟨fun ⟨m', q', l', h⟩ => hlt ?_, fun e type h => ?_⟩
      case refine_1 =>
        cases hfind.symm.trans h.first
        have hbyte' := h.byte
        have hcomponent := h.component
        have hcomponents := hregular.components
        omega
      case refine_2 => cases hvalue.symm.trans h

end Found

variable (hms : ∀ m ∈ ms, m.Regular ∧ m.offset.toNat + m.bytes < 2 ^ 32)
  (hr : 16 * register.toNat + 16 ≤ 2 ^ 32) (hc : component < 4)
include hms hr hc

theorem laneAt_cases :
    (∃ m q l e, FirstLane ms (16 * register.toNat + 4 * component) m q l ∧
      laneAt d ms register component = .value (m.converted d e) m.valueType ∧
      (m.declarator d).lane? e = some (q, l)) ∨
    (¬∃ m q l, FirstLane ms (16 * register.toNat + 4 * component) m q l) ∧
      ∀ e type, laneAt d ms register component ≠ .value e type :=
  laneAt_cases_of_found (fun m hm => (hms m hm).left) hr hc fun m hm =>
    (hms m (List.mem_of_find?_eq_some hm)).right

theorem laneAt_eq_uncovered_iff_overlaps : laneAt d ms register component = .uncovered ↔
    ∀ m ∈ ms, ¬m.Overlaps register.toNat := by
  rw [laneAt_eq_uncovered_iff]
  constructor
  case mp =>
    intro h m hm ho
    have ⟨hregular, he⟩ := hms m hm
    exact h.right m hm ((hregular.touches_iff he).mpr ho)
  case mpr =>
    refine fun h => ⟨fun m hm hcovers => ?_, fun m hm htouches => ?_⟩
    all_goals
      have ⟨hregular, he⟩ := hms m hm
      refine h m hm ?_
    case refine_1 =>
      have ⟨hle, hlt⟩ := (hregular.covers_iff he).mp hcovers
      rw [toNat_byte hr hc] at hle hlt
      constructor <;> omega
    case refine_2 => exact (hregular.touches_iff he).mp htouches

theorem laneAt_eq_padding_iff : laneAt d ms register component = .padding ↔
    (∃ m ∈ ms, m.Overlaps register.toNat) ∧
      ¬∃ m q l, FirstLane ms (16 * register.toNat + 4 * component) m q l := by
  have huncovered := laneAt_eq_uncovered_iff_overlaps (d := d) hms hr hc
  have hcases := laneAt_cases (d := d) hms hr hc
  cases hlane : laneAt d ms register component
  case value e type =>
    refine iff_of_false nofun fun ⟨_, hnone⟩ => ?_
    cases hcases
    case inl hcases =>
      have ⟨m, q, l, _, hfirst, _⟩ := hcases
      exact hnone ⟨m, q, l, hfirst⟩
    case inr hcases => exact hcases.right e type hlane
  case padding =>
    rw [hlane] at huncovered
    refine iff_of_true rfl ⟨?_, fun hfirst => ?_⟩
    case refine_1 =>
      by_contra hnone
      exact nomatch huncovered.mpr fun m hm ho => hnone ⟨m, hm, ho⟩
    case refine_2 =>
      cases hcases
      case inl hcases =>
        have ⟨_, _, _, _, _, hvalue, _⟩ := hcases
        cases hlane.symm.trans hvalue
      case inr hcases => exact hcases.left hfirst
  case uncovered =>
    refine iff_of_false nofun fun ⟨⟨m, hm, ho⟩, _⟩ => ?_
    exact huncovered.mp hlane m hm ho

end LaneAt

theorem pairwise_offset_of_ofBuffer {buffer : ConstantBuffer} (h : ofBuffer d buffer = some ms) :
    ms.Pairwise fun m m' => m.offset ≤ m'.offset := by
  have ⟨vs, _, h⟩ := Option.map_eq_some_iff.mp h
  have hsorted : (vs.mergeSort (·.offset ≤ ·.offset)).Pairwise
      fun m m' => decide (m.offset ≤ m'.offset) := by
    refine List.pairwise_mergeSort (fun _ _ _ => ?_) (fun m m' => ?_) vs
    case refine_1 => simpa using UInt32.le_trans
    case refine_2 => simpa using UInt32.le_total m.offset m'.offset
  simpa [h] using hsorted

-- A lane of a member is found at one place only: the expression tells which lane it is, and the
-- lane tells its byte.
theorem existsUnique_laneAt (hms : ∀ m ∈ ms, m.Regular ∧ m.offset.toNat + m.bytes < 2 ^ 32)
    {before after : List Member} {q l : Nat} (hsplit : ms = before ++ m :: after)
    (hq : q < m.registerCount) (hl : l < m.components.toNat)
    (hbefore : ∀ m' ∈ before, ¬m'.Holds (m.offset.toNat + 16 * q + 4 * l)) :
    ∃! lane : UInt32 × Nat, 16 * lane.1.toNat + 16 ≤ 2 ^ 32 ∧ lane.2 < 4 ∧
      ms.find? (Holds (16 * lane.1.toNat + 4 * lane.2)) = some m ∧
      ∃ inner, laneAt d ms lane.1 lane.2 = .value (m.converted d inner) m.valueType ∧
        (m.declarator d).lane? inner = some (q, l) := by
  have ⟨hregular, hend⟩ := hms m (hsplit ▸ List.mem_append_right _ List.mem_cons_self)
  have hcomponents := hregular.components
  have hin : 16 * q + 4 * l < m.bytes := by unfold bytes; omega
  have hfind : ms.find? (Holds (m.offset.toNat + 16 * q + 4 * l)) = some m := by
    have hnone : before.find? (Holds (m.offset.toNat + 16 * q + 4 * l)) = none := by
      simpa using hbefore
    have hm : m.Holds (m.offset.toNat + 16 * q + 4 * l) := by constructor <;> omega
    simp [hsplit, List.find?_append, hnone, hm]
  have hoffset := hregular.offset
  let register := UInt32.ofNat ((m.offset.toNat + 16 * q + 4 * l) / 16)
  let component := (m.offset.toNat + 16 * q + 4 * l) % 16 / 4
  have hregister : register.toNat = (m.offset.toNat + 16 * q + 4 * l) / 16 := by
    simp only [register, UInt32.toNat_ofNat']
    omega
  have hbyte : 16 * register.toNat + 4 * component = m.offset.toNat + 16 * q + 4 * l := by omega
  have hr : 16 * register.toNat + 16 ≤ 2 ^ 32 := by omega
  have hc : component < 4 := by omega
  refine ⟨(register, component), ⟨hr, hc, hbyte ▸ hfind, ?_⟩, ?_⟩
  case refine_1 =>
    cases laneAt_cases (d := d) hms hr hc
    case inl hlane =>
      have ⟨m', q', l', e, hfirst, hvalue, hlane⟩ := hlane
      cases (hbyte ▸ hfirst.first).symm.trans hfind
      have hbyte' := hfirst.byte
      have hl' := hfirst.component
      have hql : (q, l) = (q', l') := by
        rw [Prod.mk.injEq]
        omega
      exact ⟨e, hvalue, hql ▸ hlane⟩
    case inr hlane =>
      exact (hlane.left ⟨m, q, l, hbyte ▸ hfind, hbyte, hq, hl⟩).elim
  case refine_2 =>
    rintro ⟨register', component'⟩ ⟨hr', hc', hfind', inner, hvalue, hlane⟩
    cases laneAt_cases (d := d) hms hr' hc'
    case inl hcases =>
      have ⟨m', q', l', e, hfirst, hvalue', hlane'⟩ := hcases
      cases hfirst.first.symm.trans hfind'
      have he : e = inner := by
        injection hvalue'.symm.trans hvalue with he
        exact converted_inj he
      cases Option.some.inj (hlane'.symm.trans (he ▸ hlane))
      have hbyte' : 16 * register'.toNat + 4 * component' = _ := hfirst.byte
      have hc' : component' < 4 := hc'
      have hregister' : register' = register := UInt32.toNat_inj.mp (by omega)
      have hcomponent' : component' = component := by omega
      rw [hregister', hcomponent']
    case inr hcases => exact absurd hvalue (hcases.right _ _)

theorem laneAt_addresses_bytes {buffer : ConstantBuffer} (h : ofBuffer d buffer = some ms)
    (hends : ∀ m ∈ ms, m.offset.toNat + m.bytes < 2 ^ 32) :
    ms.Pairwise (fun m m' => m.offset ≤ m'.offset) ∧
    (∀ (register : UInt32) (component : Nat), 16 * register.toNat + 16 ≤ 2 ^ 32 → component < 4 →
      (∀ e type, laneAt d ms register component = .value e type →
        ∃ m q l inner, FirstLane ms (16 * register.toNat + 4 * component) m q l ∧
          type = m.valueType ∧ e = m.converted d inner ∧
          (m.declarator d).lane? inner = some (q, l)) ∧
      (laneAt d ms register component = .uncovered ↔ ∀ m ∈ ms, ¬m.Overlaps register.toNat) ∧
      (laneAt d ms register component = .padding ↔ (∃ m ∈ ms, m.Overlaps register.toNat) ∧
        ¬∃ m q l, FirstLane ms (16 * register.toNat + 4 * component) m q l)) ∧
    ∀ before m after q l, ms = before ++ m :: after → q < m.registerCount →
      l < m.components.toNat → (∀ m' ∈ before, ¬m'.Holds (m.offset.toNat + 16 * q + 4 * l)) →
      ∃! lane : UInt32 × Nat, 16 * lane.1.toNat + 16 ≤ 2 ^ 32 ∧ lane.2 < 4 ∧
        ms.find? (Holds (16 * lane.1.toNat + 4 * lane.2)) = some m ∧
        ∃ inner, laneAt d ms lane.1 lane.2 = .value (m.converted d inner) m.valueType ∧
          (m.declarator d).lane? inner = some (q, l) := by
  have hms : ∀ m ∈ ms, m.Regular ∧ m.offset.toNat + m.bytes < 2 ^ 32 :=
    fun m hm => ⟨regular_of_ofBuffer h m hm, hends m hm⟩
  refine ⟨pairwise_offset_of_ofBuffer h, fun register component hr hc => ⟨fun e type h => ?_,
    laneAt_eq_uncovered_iff_overlaps hms hr hc, laneAt_eq_padding_iff hms hr hc⟩,
    fun _ _ _ _ _ hsplit hq hl hbefore => existsUnique_laneAt hms hsplit hq hl hbefore⟩
  cases laneAt_cases (d := d) hms hr hc
  case inl hlane =>
    have ⟨m, q, l, inner, hfirst, hvalue, hlane⟩ := hlane
    cases hvalue.symm.trans h
    exact ⟨m, q, l, inner, hfirst, rfl, rfl, hlane⟩
  case inr hlane => exact absurd h (hlane.right e type)

-- A truth value behind a vector in one register, an array with gaps, and an array of matrices.
def packedConstants : ConstantBuffer :=
  ⟨"Light", 0, 144, [⟨"direction", 0, 12, .vector .float 3⟩, ⟨"enabled", 12, 4, .scalar .bool⟩,
    ⟨"weights", 16, 20, (VariableType.scalar .float).array 2⟩,
    ⟨"bones", 48, 92, (VariableType.matrix .float 3 3 false).array 2⟩]⟩

def packedMembers : List Member :=
  [⟨"direction", 0, .float, 1, 3, 0, false⟩, ⟨"enabled", 12, .bool, 1, 1, 0, false⟩,
    ⟨"weights", 16, .float, 1, 1, 2, false⟩, ⟨"bones", 48, .float, 3, 3, 2, true⟩]

theorem laneAt_addresses_bytes_packed :
    ofBuffer (.ofVersion .gl33) packedConstants = some packedMembers ∧
    (∀ m ∈ packedMembers, m.offset.toNat + m.bytes < 2 ^ 32) ∧
    (∃ m q l inner, FirstLane packedMembers (16 * 7 + 4 * 1) m q l ∧
      Expr.select (.index (.index (.var (.member "bones")) (.int 1)) (.int 1)) [1] =
        m.converted (.ofVersion .gl33) inner ∧
      (m.declarator (.ofVersion .gl33)).lane? inner = some (q, l)) ∧
    ((∃ m ∈ packedMembers, m.Overlaps 1) ∧
      ¬∃ m q l, FirstLane packedMembers (16 * 1 + 4 * 1) m q l) ∧
    (∀ m ∈ packedMembers, ¬m.Overlaps 9) ∧
    ∃! lane : UInt32 × Nat, 16 * lane.1.toNat + 16 ≤ 2 ^ 32 ∧ lane.2 < 4 ∧
      packedMembers.find? (Holds (16 * lane.1.toNat + 4 * lane.2)) =
        some ⟨"enabled", 12, .bool, 1, 1, 0, false⟩ ∧
      ∃ inner, laneAt (.ofVersion .gl33) packedMembers lane.1 lane.2 =
          .value (.call "uint" [inner]) .uint ∧
        Declarator.lane? ⟨"bool", "enabled", none⟩ inner = some (0, 0) := by
  have hms : ofBuffer (.ofVersion .gl33) packedConstants = some packedMembers :=
    ofBuffer_eq_some (by decide +kernel) (by decide)
  have hends : ∀ m ∈ packedMembers, m.offset.toNat + m.bytes < 2 ^ 32 := by decide
  have ⟨_, hfound, hunique⟩ := laneAt_addresses_bytes hms hends
  have ⟨hvalue, _, _⟩ := hfound 7 1 (by decide) (by decide)
  have ⟨_, _, hpadding⟩ := hfound 1 1 (by decide) (by decide)
  have ⟨_, huncovered, _⟩ := hfound 9 0 (by decide) (by decide)
  refine ⟨hms, hends, ?_, hpadding.mp rfl, huncovered.mp rfl, ?_⟩
  case refine_1 =>
    have ⟨m, q, l, inner, hfirst, _, he, hlane⟩ := hvalue _ .float rfl
    exact ⟨m, q, l, inner, hfirst, he, hlane⟩
  case refine_2 =>
    exact hunique [⟨"direction", 0, .float, 1, 3, 0, false⟩] _ _ 0 0 rfl (by decide) (by decide)
      (by decide)

end Member

end ShaderLift
