import ShaderLift.Proofs.Lift.Lifted

/-!
What assignments do to single lanes. The lanes of both sides can be read off an assignment, and a
terminal is loaded and stored by the same pairs of lanes, with their sides exchanged.
-/

namespace ShaderLift

namespace Glsl

-- A component of a vector.
structure Lane where
  value     : Expr
  component : Nat

-- One lane that is copied to another.
structure Transfer where
  target : Lane
  source : Lane

-- A number made of a vector is made of its first lane.
def scalarConversions : List String :=
  ["float", "int", "uint"]

def laneConversions : List String :=
  ["floatBitsToInt", "floatBitsToUint", "intBitsToFloat", "uintBitsToFloat", "vec2", "vec3", "vec4",
    "ivec2", "ivec3", "ivec4", "uvec2", "uvec3", "uvec4"]

def wholeLanes (value : Expr) : List Lane :=
  [0, 1, 2, 3].map (Lane.mk value)

-- The lanes that a value consists of. What is neither picked from nor converted counts as a vector
-- of four; a number has only the first of them, but then the other side of its assignment is as
-- short.
def Expr.lanes : Expr → List Lane
  | select value components => components.map (Lane.mk value)
  | call function [value] =>
    if function ∈ scalarConversions then value.lanes.take 1
    else if function ∈ laneConversions then value.lanes
    else []
  | call _ _ => []
  | value => wholeLanes value

def Stmt.transfers : Stmt → List Transfer
  | assign target value => target.lanes.zipWith Transfer.mk value.lanes
  | _ => []

def Line.transfers : Line → List Transfer
  | stmts ss => ss.flatMap Stmt.transfers
  | _ => []

def transfers (lines : List Line) : List Transfer :=
  lines.flatMap Line.transfers

@[simp] theorem transfers_nil : transfers [] = [] :=
  rfl

@[simp] theorem transfers_append {lines lines' : List Line} :
    transfers (lines ++ lines') = transfers lines ++ transfers lines' :=
  List.flatMap_append

@[simp] theorem transfers_block {head : Head} {stmts : List Stmt} :
    transfers (block head [.stmts stmts]) = stmts.flatMap Stmt.transfers := by
  simp [transfers, block, Line.transfers]

@[simp] theorem transfers_lines {stmts : List Stmt} :
    transfers (Border.lines stmts) = stmts.flatMap Stmt.transfers := by
  simp [transfers, Border.lines, List.flatMap_map, Line.stmt, Line.transfers]

-- Whether casts between floats and a type leave only the first lane.
def Narrows (d : Dialect) (t : ValueType) (n : Nat) : Prop :=
  t.lower d ≠ .float ∧ ¬d.has .bitCasts ∧ n ≤ 1

instance {d : Dialect} {t : ValueType} {n : Nat} : Decidable (Narrows d t n) :=
  inferInstanceAs (Decidable (_ ∧ _ ∧ _))

section Cast

variable {d : Dialect} {e : Expr} {t : ValueType} {n : Nat}

theorem vecName_mem_scalarConversions (h : n ≤ 1) : t.vecName d n ∈ scalarConversions := by
  rw [ValueType.vecName, if_pos h, ValueType.scalarName]
  cases t.lower d <;> decide

theorem vecName_mem_laneConversions (h : 1 < n) (hn : n ≤ 4) :
    t.vecName d n ∈ laneConversions ∧ t.vecName d n ∉ scalarConversions := by
  rw [ValueType.vecName, if_neg (by omega)]
  have hcases : n = 2 ∨ n = 3 ∨ n = 4 := by omega
  rcases hcases with rfl | rfl | rfl <;> cases t.lower d <;> decide

theorem lanes_convert (hn : n ≤ 4) :
    (Expr.call (t.vecName d n) [e]).lanes = if n ≤ 1 then e.lanes.take 1 else e.lanes := by
  simp only [Expr.lanes]
  by_cases h : n ≤ 1
  case pos => rw [if_pos h, if_pos (vecName_mem_scalarConversions h)]
  case neg =>
    have hmem := vecName_mem_laneConversions (d := d) (t := t) (Nat.lt_of_not_le h) hn
    rw [if_neg h, if_neg hmem.2, if_pos hmem.1]

theorem lanes_bitCast {f : String} (h : f ∈ laneConversions) (h' : f ∉ scalarConversions) :
    (Expr.call f [e]).lanes = e.lanes := by
  simp only [Expr.lanes, if_neg h', if_pos h]

-- Casts from floats and casts to floats keep the same lanes.
theorem lanes_cast {source target : ValueType} (hn : n ≤ 4)
    (h : source = t ∧ target = .float ∨ source = .float ∧ target = t) :
    (cast d e source target n).lanes = if Narrows d t n then e.lanes.take 1 else e.lanes := by
  have hfloat : ValueType.float.lower d = .float := rfl
  rcases h with ⟨rfl, rfl⟩ | ⟨rfl, rfl⟩
  case inl =>
    cases ht : source.lower d <;> cases hd : d.has .bitCasts <;>
      simp +decide [cast, Narrows, hfloat, ht, hd, lanes_convert hn, lanes_bitCast]
  case inr =>
    cases ht : target.lower d <;> cases hd : d.has .bitCasts <;>
      simp +decide [cast, Narrows, hfloat, ht, hd, lanes_convert hn, lanes_bitCast]

end Cast

-- Which lanes of a masked vector are copied.
def maskLanes (mask : WriteMask) : List Nat :=
  if mask = .xyzw ∨ mask.isEmpty then [0, 1, 2, 3] else mask.components

theorem lanes_maskPick {mask : WriteMask} {e : Expr} (he : e.lanes = wholeLanes e) :
    (maskPick mask e).lanes = (maskLanes mask).map (Lane.mk e) := by
  unfold maskPick maskLanes
  split
  case isTrue => exact he
  case isFalse => simp only [Expr.lanes]

end Glsl

theorem WriteMask.count_le (mask : WriteMask) : mask.count ≤ 4 :=
  List.length_filter_le ..

namespace Terminal

open Glsl

variable {d : Dialect} {register : Expr} {mask : WriteMask} {t : Terminal}

-- Which components of a register go with which lanes of a terminal.
def links (d : Dialect) (mask : WriteMask) : Terminal → List (Nat × Lane)
  | scalar value _ => [(firstLane mask, ⟨value, 0⟩)]
  | vector value type =>
    let components :=
      if Narrows d type mask.count then (maskLanes mask).take 1 else maskLanes mask
    components.map fun c => (c, ⟨value, c⟩)
  | lanes values => mask.components.zipWith (fun c value => (c, ⟨value, 0⟩)) values

-- The values of a terminal are places of their own.
def IsWhole : Terminal → Prop
  | scalar value _ | vector value _ => value.lanes = wholeLanes value
  | lanes values => ∀ value ∈ values, value.lanes = wholeLanes value

theorem transfers_zipWith {cs : List Nat} {values : List Expr} {assign : Nat → Expr → Stmt}
    {transfer : Nat × Lane → Transfer}
    (h : ∀ c, ∀ value ∈ values, (assign c value).transfers = [transfer (c, ⟨value, 0⟩)]) :
    (cs.zipWith assign values).flatMap Stmt.transfers =
      (cs.zipWith (fun c value => (c, ⟨value, 0⟩)) values).map transfer := by
  induction cs generalizing values
  case nil => rfl
  case cons c cs hi =>
    cases values
    case nil => rfl
    case cons value values =>
      have hrest := hi (fun c value hvalue => h c value (List.mem_cons_of_mem _ hvalue))
      rw [List.zipWith_cons_cons, List.flatMap_cons, h c value List.mem_cons_self, hrest]
      rfl

theorem transfers_load (hr : register.lanes = wholeLanes register) (ht : t.IsWhole) :
    (t.load d register mask).flatMap Stmt.transfers =
      (t.links d mask).map fun (c, lane) => ⟨⟨register, c⟩, lane⟩ := by
  cases t
  case scalar value type =>
    have hvalue : value.lanes = wholeLanes value := ht
    simp only [load, links, List.flatMap_singleton, List.map_singleton, Stmt.transfers, Expr.lanes,
      lanes_cast (Nat.one_le_ofNat (n := 4)) (.inl ⟨rfl, rfl⟩), hvalue]
    split <;> rfl
  case vector value type =>
    simp only [load, links, List.flatMap_singleton, Stmt.transfers, lanes_maskPick hr,
      lanes_maskPick ht, lanes_cast mask.count_le (.inl ⟨rfl, rfl⟩)]
    split
    case isTrue => cases maskLanes mask <;> simp
    case isFalse => simp [List.zipWith_map]
  case lanes values =>
    refine transfers_zipWith fun c value hvalue => ?_
    simp [Stmt.transfers, Expr.lanes, ht value hvalue, wholeLanes]

theorem transfers_store (hr : register.lanes = wholeLanes register) (ht : t.IsWhole) :
    (t.store d register mask).flatMap Stmt.transfers =
      (t.links d mask).map fun (c, lane) => ⟨lane, ⟨register, c⟩⟩ := by
  cases t
  case scalar value type =>
    have hvalue : value.lanes = wholeLanes value := ht
    simp only [store, links, List.flatMap_singleton, List.map_singleton, Stmt.transfers, Expr.lanes,
      lanes_cast (Nat.one_le_ofNat (n := 4)) (.inr ⟨rfl, rfl⟩), hvalue]
    split <;> rfl
  case vector value type =>
    simp only [store, links, List.flatMap_singleton, Stmt.transfers, lanes_maskPick hr,
      lanes_maskPick ht, lanes_cast mask.count_le (.inr ⟨rfl, rfl⟩)]
    split
    case isTrue => cases maskLanes mask <;> simp
    case isFalse => simp [List.zipWith_map]
  case lanes values =>
    refine transfers_zipWith fun c value hvalue => ?_
    simp [Stmt.transfers, Expr.lanes, ht value hvalue, wholeLanes]

theorem target_of_mem_assign {target value : Expr} {transfer : Transfer}
    (h : transfer ∈ (Stmt.assign target value).transfers) : transfer.target ∈ target.lanes := by
  have h : transfer ∈ target.lanes.zipWith Transfer.mk value.lanes := h
  rw [← List.map_uncurry_zip_eq_zipWith] at h
  have ⟨_, hmem, hpair⟩ := List.mem_map.mp h
  exact hpair ▸ (List.of_mem_zip hmem).1

-- A register is loaded in its own components, whatever it is loaded from.
theorem target_of_mem_load (hr : register.lanes = wholeLanes register) {transfer : Transfer}
    (h : transfer ∈ (t.load d register mask).flatMap Stmt.transfers) :
    transfer.target.value = register := by
  have hselect {cs : List Nat} {lane : Lane} (h : lane ∈ (Expr.select register cs).lanes) :
      lane.value = register := by
    have ⟨_, _, hlane⟩ := List.mem_map.mp h
    exact hlane ▸ rfl
  have ⟨s, hs, h⟩ := List.mem_flatMap.mp h
  cases t
  case scalar value type =>
    cases List.mem_singleton.mp hs
    exact hselect (target_of_mem_assign h)
  case vector value type =>
    cases List.mem_singleton.mp hs
    have hlane := target_of_mem_assign h
    rw [lanes_maskPick hr] at hlane
    have ⟨_, _, hlane⟩ := List.mem_map.mp hlane
    exact hlane ▸ rfl
  case lanes values =>
    have hs : s ∈ mask.components.zipWith (fun c v => .assign (.select register [c]) v) values := hs
    rw [← List.map_uncurry_zip_eq_zipWith] at hs
    have ⟨_, _, hs⟩ := List.mem_map.mp hs
    cases hs
    exact hselect (target_of_mem_assign h)

end Terminal

end ShaderLift
