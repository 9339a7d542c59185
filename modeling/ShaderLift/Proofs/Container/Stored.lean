import Mathlib

/-!
Bytes that stand at a place of a file, and tables of records with the parts of the file that the
records lead to.
-/

namespace ShaderLift

-- These bytes are those of the file from `start` on.
def StandsAt (bytes : List UInt8) (start : Nat) (file : List UInt8) : Prop :=
  start + bytes.length ≤ file.length ∧ (file.drop start).take bytes.length = bytes

instance {bytes file : List UInt8} {start : Nat} : Decidable (StandsAt bytes start file) :=
  inferInstanceAs (Decidable (_ ∧ _))

section StandsAt

variable {bytes a b file : List UInt8} {start n : Nat}

theorem standsAt_iff :
    StandsAt bytes start file ↔
      ∃ front back, file = front ++ bytes ++ back ∧ front.length = start := by
  constructor
  case mp =>
    rintro ⟨hlength, hbytes⟩
    refine ⟨file.take start, file.drop (start + bytes.length), ?_, by simp; omega⟩
    have hrest : bytes ++ file.drop (start + bytes.length) = file.drop start := by
      nth_rewrite 1 [← hbytes]
      rw [← List.drop_drop, List.take_append_drop]
    rw [List.append_assoc, hrest, List.take_append_drop]
  case mpr =>
    rintro ⟨front, back, rfl, rfl⟩
    exact ⟨by simp, by simp⟩

theorem standsAt_self (file : List UInt8) : StandsAt file 0 file :=
  ⟨by simp, by simp⟩

theorem standsAt_append :
    StandsAt (a ++ b) start file ↔ StandsAt a start file ∧ StandsAt b (start + a.length) file := by
  constructor
  case mp =>
    intro h
    obtain ⟨front, back, rfl, rfl⟩ := standsAt_iff.mp h
    exact ⟨standsAt_iff.mpr ⟨front, b ++ back, by simp, rfl⟩,
      standsAt_iff.mpr ⟨front ++ a, back, by simp, by simp⟩⟩
  case mpr =>
    rintro ⟨⟨ha, ha'⟩, hb, hb'⟩
    refine ⟨by rw [List.length_append]; omega, ?_⟩
    rw [List.length_append, List.take_add, ha', List.drop_drop, hb']

theorem StandsAt.le_length (h : StandsAt bytes start file) : start + bytes.length ≤ file.length :=
  h.left

-- Places in a file of less than 4 GiB are words.
theorem StandsAt.toNat_ofNat (h : StandsAt bytes start file) (hfile : file.length < 2 ^ 32) :
    (UInt32.ofNat start).toNat = start :=
  UInt32.toNat_ofNat_of_lt' ((Nat.le_of_add_right_le h.le_length).trans_lt hfile)

-- Two answers of one length that stand at one place are the same.
theorem StandsAt.eq (ha : StandsAt a start file) (hb : StandsAt b start file)
    (h : a.length = b.length) : a = b := by
  rw [← ha.right, ← hb.right, h]

theorem exists_standsAt (h : start + n ≤ file.length) :
    ∃ bytes, bytes.length = n ∧ StandsAt bytes start file := by
  have hlength : ((file.drop start).take n).length = n := by simp; omega
  exact ⟨(file.drop start).take n, hlength, by rw [hlength]; exact h, by rw [hlength]⟩

-- What follows behind the bytes does not matter.
theorem standsAt_take (hn : n ≤ file.length) :
    StandsAt bytes start (file.take n) ↔
      start + bytes.length ≤ n ∧ StandsAt bytes start file := by
  unfold StandsAt
  rw [List.length_take, Nat.min_eq_left hn]
  refine and_congr_right fun h => ?_
  rw [List.drop_take, List.take_take, Nat.min_eq_left (by omega)]
  exact (and_iff_right (by omega)).symm

end StandsAt

-- The places of records of one size.
def recordPlaces (start count size : Nat) : List Nat :=
  (List.range count).map fun i => start + i * size

-- The places of things of given lengths, each right behind the one before.
def places (start : Nat) : List Nat → List Nat
  | [] => []
  | length :: lengths => start :: places (start + length) lengths

section Places

variable {file : List UInt8} {parts : List (List UInt8)} {start size : Nat} {lengths : List Nat}

theorem StandsAt.part (h : StandsAt parts.flatten start file) {i place : Nat} {part : List UInt8}
    (hplace : (places start (parts.map List.length))[i]? = some place)
    (hpart : parts[i]? = some part) : StandsAt part place file := by
  induction parts generalizing start i
  case nil => cases hpart
  case cons hi =>
    obtain ⟨hfirst, hrest⟩ := standsAt_append.mp h
    cases i
    case zero =>
      cases hplace
      cases hpart
      exact hfirst
    case succ => exact hi hrest hplace hpart

theorem length_places : (places start lengths).length = lengths.length := by
  induction lengths generalizing start
  case nil => rfl
  case cons hi => rw [places, List.length_cons, List.length_cons, hi]

theorem le_of_mem_places {place : Nat} (h : place ∈ places start lengths) : start ≤ place := by
  induction lengths generalizing start
  case nil => cases h
  case cons hi =>
    cases List.mem_cons.mp h
    case inl h => exact h.ge
    case inr h => exact Nat.le_of_add_right_le (hi h)

theorem places_eq_recordPlaces (h : ∀ length ∈ lengths, length = size) :
    places start lengths = recordPlaces start lengths.length size := by
  induction lengths generalizing start
  case nil => rfl
  case cons length lengths hi =>
    obtain ⟨rfl, hlengths⟩ := List.forall_mem_cons.mp h
    rw [places, hi hlengths, recordPlaces, recordPlaces, List.length_cons, List.range_succ_eq_map]
    simp only [List.map_cons, List.map_map, Nat.zero_mul, Nat.add_zero, List.cons.injEq, true_and]
    refine List.map_congr_left fun i _ => ?_
    simp only [Function.comp_apply, Nat.succ_mul]
    omega

theorem length_flatten_records (hsize : ∀ part ∈ parts, part.length = size) :
    parts.flatten.length = parts.length * size := by
  rw [List.length_flatten, List.sum_eq_card_nsmul _ size (List.forall_mem_map.mpr hsize),
    List.length_map, smul_eq_mul]

theorem StandsAt.record (h : StandsAt parts.flatten start file)
    (hsize : ∀ part ∈ parts, part.length = size) {i : Nat} {part : List UInt8}
    (hpart : parts[i]? = some part) : StandsAt part (start + i * size) file := by
  have hi : i < parts.length := (List.getElem?_eq_some_iff.mp hpart).choose
  refine h.part ?_ hpart
  rw [places_eq_recordPlaces (List.forall_mem_map.mpr hsize), List.length_map]
  simp [recordPlaces, hi]

theorem forall₂_map_range_iff {α β : Type} {R : α → β → Prop} {f : Nat → α} {count : Nat}
    {l : List β} :
    List.Forall₂ R ((List.range count).map f) l ↔
      l.length = count ∧ ∀ i b, l[i]? = some b → R (f i) b := by
  rw [List.forall₂_iff_get]
  simp only [List.length_map, List.length_range, List.get_eq_getElem, List.getElem_map,
    List.getElem_range]
  constructor
  case mp =>
    rintro ⟨rfl, h⟩
    refine ⟨rfl, fun i b hb => ?_⟩
    obtain ⟨hi, rfl⟩ := List.getElem?_eq_some_iff.mp hb
    exact h i hi hi
  case mpr =>
    rintro ⟨rfl, h⟩
    exact ⟨rfl, fun i _ hi => h i l[i] (List.getElem?_eq_getElem hi)⟩

theorem zipIdx_recordPlaces {count : Nat} :
    (recordPlaces start count size).zipIdx =
      (List.range count).map fun i => (start + i * size, i) := by
  refine List.ext_getElem (by simp [recordPlaces]) fun i _ _ => ?_
  simp [recordPlaces]

end Places

-- How things are written to a table: a record of one size for each, which can lead to a part of the
-- file behind the table. Both are told where that part stands.
structure TableFormat (α : Type) where
  size          : Nat
  record        : α → Nat → List UInt8
  part          : α → Nat → List UInt8
  length_record : ∀ a place, (record a place).length = size
  length_part   : ∀ a place, (part a place).length = (part a 0).length

namespace TableFormat

variable {α : Type} {format : TableFormat α} {items : List α} {start : Nat} {file : List UInt8}

-- Where the parts of a table at `start` stand: one after the other behind the records.
def partPlaces (format : TableFormat α) (items : List α) (start : Nat) : List Nat :=
  places (start + items.length * format.size) (items.map (format.part · 0 |>.length))

def records (format : TableFormat α) (items : List α) (start : Nat) : List (List UInt8) :=
  List.zipWith format.record items (format.partPlaces items start)

def parts (format : TableFormat α) (items : List α) (start : Nat) : List (List UInt8) :=
  List.zipWith format.part items (format.partPlaces items start)

-- The records of a table that stands at `start`, and their parts.
def table (format : TableFormat α) (items : List α) (start : Nat) : List UInt8 :=
  (format.records items start).flatten ++ (format.parts items start).flatten

theorem length_partPlaces : (format.partPlaces items start).length = items.length := by
  rw [partPlaces, length_places, List.length_map]

theorem length_of_mem_records :
    ∀ record ∈ format.records items start, record.length = format.size := by
  intro record h
  obtain ⟨i, hi, rfl⟩ := List.mem_iff_getElem.mp h
  exact (congrArg List.length List.getElem_zipWith).trans (format.length_record _ _)

theorem length_records :
    (format.records items start).flatten.length = items.length * format.size := by
  rw [length_flatten_records length_of_mem_records, records, List.length_zipWith, length_partPlaces,
    Nat.min_self]

theorem map_length_parts :
    (format.parts items start).map List.length = items.map (format.part · 0 |>.length) := by
  refine List.ext_getElem (by simp [parts, length_partPlaces]) fun i _ _ => ?_
  simp only [parts, List.getElem_map, List.getElem_zipWith]
  exact format.length_part _ _

-- The length of a table does not depend on where it stands.
theorem length_table : (format.table items start).length =
    items.length * format.size + (items.map (format.part · 0 |>.length)).sum := by
  rw [table, List.length_append, length_records, List.length_flatten, map_length_parts]

theorem fits_of_standsAt (h : StandsAt (format.table items start) start file) :
    start + items.length * format.size ≤ file.length := by
  have hlength := h.le_length
  rw [length_table] at hlength
  omega

theorem toNat_ofNat_length (h : StandsAt (format.table items start) start file)
    (hsize : 0 < format.size) (hfile : file.length < 2 ^ 32) :
    (UInt32.ofNat items.length).toNat = items.length := by
  have hend := fits_of_standsAt h
  have hcount : items.length ≤ items.length * format.size := Nat.le_mul_of_pos_right _ hsize
  exact UInt32.toNat_ofNat_of_lt' (by rw [UInt32.size]; omega)

theorem standsAt_of_partPlaces (h : StandsAt (format.table items start) start file) {i place : Nat}
    {a : α} (ha : items[i]? = some a) (hplace : (format.partPlaces items start)[i]? = some place) :
    StandsAt (format.record a place) (start + i * format.size) file ∧
      StandsAt (format.part a place) place file := by
  obtain ⟨hrecords, hparts⟩ := standsAt_append.mp h
  have hrecord : (format.records items start)[i]? = some (format.record a place) := by
    rw [records, List.getElem?_zipWith, ha, hplace]
  have hpart : (format.parts items start)[i]? = some (format.part a place) := by
    rw [parts, List.getElem?_zipWith, ha, hplace]
  refine ⟨hrecords.record length_of_mem_records hrecord, hparts.part ?_ hpart⟩
  rwa [map_length_parts, length_records]

-- Each record leads to its part.
theorem exists_place (h : StandsAt (format.table items start) start file) {i : Nat} {a : α}
    (ha : items[i]? = some a) :
    ∃ place, StandsAt (format.record a place) (start + i * format.size) file ∧
      StandsAt (format.part a place) place file := by
  have hi : i < items.length := (List.getElem?_eq_some_iff.mp ha).choose
  refine ⟨_, standsAt_of_partPlaces h ha (List.getElem?_eq_getElem ?_)⟩
  rwa [length_partPlaces]

end TableFormat

-- A table of records stands in a file: as many as counted, each stored at its place.
structure TableAt {α : Type} (stored : α → Nat → Prop) (size : Nat) (items : List α)
    (count start : UInt32) (file : List UInt8) : Prop where
  count  : count.toNat = items.length
  fits   : start.toNat + items.length * size ≤ file.length
  stored : ∀ i a, items[i]? = some a → stored a (start.toNat + i * size)

section TableAt

variable {α : Type} {stored : α → Nat → Prop} {items : List α} {file : List UInt8}

theorem tableAt_iff {size : Nat} {count start : UInt32} :
    TableAt stored size items count start file ↔
      start.toNat + count.toNat * size ≤ file.length ∧
        List.Forall₂ (fun place a => stored a place)
          (recordPlaces start.toNat count.toNat size) items := by
  rw [recordPlaces, forall₂_map_range_iff]
  constructor
  case mp =>
    rintro ⟨hcount, hfits, hstored⟩
    exact ⟨hcount ▸ hfits, hcount.symm, hstored⟩
  case mpr =>
    rintro ⟨hfits, hcount, hstored⟩
    exact ⟨hcount.symm, hcount ▸ hfits, hstored⟩

-- What is written in a format stands in a table, if each item is stored by its record and part.
theorem TableFormat.tableAt {format : TableFormat α} {start : Nat}
    (h : StandsAt (format.table items start) start file) (hsize : 0 < format.size)
    (hfile : file.length < 2 ^ 32)
    (hstored : ∀ a ∈ items, ∀ record place, StandsAt (format.record a place) record file →
      StandsAt (format.part a place) place file → stored a record) :
    TableAt stored format.size items (.ofNat items.length) (.ofNat start) file := by
  have hstart : (UInt32.ofNat start).toNat = start := h.toNat_ofNat hfile
  refine ⟨toNat_ofNat_length h hsize hfile, ?_, fun i a ha => ?_⟩
  case refine_1 =>
    rw [hstart]
    exact fits_of_standsAt h
  case refine_2 =>
    obtain ⟨place, hrecord, hpart⟩ := exists_place h ha
    rw [hstart]
    exact hstored a (List.mem_of_getElem? ha) _ place hrecord hpart

end TableAt

end ShaderLift
