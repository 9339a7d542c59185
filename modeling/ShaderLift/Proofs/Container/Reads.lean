import ShaderLift.Container.Window
import ShaderLift.Proofs.Container.Stored
import ShaderLift.Proofs.Outcome

/-!
Words, halves of words and names in a file. A checked read gives an answer exactly if the bytes of
that answer stand where it looks.
-/

namespace ShaderLift

namespace Word

variable {a b c d : UInt8}

theorem bytes_ofBytes : bytes (ofBytes a b c d) = [a, b, c, d] := by
  have ha := a.toNat_lt
  have hb := b.toNat_lt
  have hc := c.toNat_lt
  have hd := d.toNat_lt
  have hword : (ofBytes a b c d).toNat =
      a.toNat + 0x100 * b.toNat + 0x10000 * c.toNat + 0x1000000 * d.toNat :=
    UInt32.toNat_ofNat_of_lt (by simp only [UInt32.size]; omega)
  have hbyte {n : Nat} {x : UInt8} (h : n % 256 = x.toNat) : UInt8.ofNat (n % 256) = x := by
    rw [h, UInt8.ofNat_toNat]
  simp only [bytes, bits, hword, List.map_cons, List.map_nil, Nat.shiftRight_eq_div_pow,
    Nat.one_shiftLeft, List.cons.injEq, and_true]
  exact ⟨hbyte (by omega), hbyte (by omega), hbyte (by omega), hbyte (by omega)⟩

theorem exists_bytes (word : UInt32) :
    ∃ a b c d, bytes word = [a, b, c, d] ∧ ofBytes a b c d = word := by
  refine ⟨_, _, _, _, rfl, UInt32.toNat_inj.mp ?_⟩
  have hword := word.toNat_lt
  simp only [ofBytes, bits, UInt32.toNat_ofNat', UInt8.toNat_ofNat', Nat.shiftRight_eq_div_pow,
    Nat.one_shiftLeft]
  omega

theorem bytes_inj {word other : UInt32} (h : bytes word = bytes other) : word = other := by
  obtain ⟨a, b, c, d, hbytes, hword⟩ := exists_bytes word
  obtain ⟨a', b', c', d', hbytes', hother⟩ := exists_bytes other
  rw [hbytes, hbytes'] at h
  cases h
  exact hword.symm.trans hother

end Word

theorem exists_word (file : List UInt8) (start : Nat) (h : start + 4 ≤ file.length) :
    ∃ v, StandsAt (Word.bytes v) start file := by
  obtain ⟨bytes, hlength, hbytes⟩ := exists_standsAt h
  match bytes, hlength with
  | [a, b, c, d], _ => exact ⟨Word.ofBytes a b c d, Word.bytes_ofBytes.symm ▸ hbytes⟩

theorem exists_byte (file : List UInt8) (start : Nat) (h : start + 1 ≤ file.length) :
    ∃ b, StandsAt [b] start file := by
  obtain ⟨bytes, hlength, hbytes⟩ := exists_standsAt h
  match bytes, hlength with
  | [b], _ => exact ⟨b, hbytes⟩

-- The two bytes of half a word, lowest first.
def halfBytes (half : UInt16) : List UInt8 :=
  [.ofNat (half.toNat % 0x100), .ofNat (half.toNat / 0x100)]

theorem length_halfBytes {half : UInt16} : (halfBytes half).length = 2 :=
  rfl

theorem exists_halfBytes (half : UInt16) :
    ∃ a b, halfBytes half = [a, b] ∧ Word.ofBytes a b 0 0 = half.toUInt32 := by
  refine ⟨_, _, rfl, UInt32.toNat_inj.mp ?_⟩
  have := half.toNat_lt
  simp [Word.ofBytes]
  omega

theorem exists_half (a b : UInt8) : ∃ half, halfBytes half = [a, b] := by
  have ha := a.toNat_lt
  have hb := b.toNat_lt
  refine ⟨.ofNat (a.toNat + 0x100 * b.toNat), ?_⟩
  have hhalf : (UInt16.ofNat (a.toNat + 0x100 * b.toNat)).toNat = a.toNat + 0x100 * b.toNat :=
    UInt16.toNat_ofNat_of_lt (by simp only [UInt16.size]; omega)
  have hbyte {n : Nat} {x : UInt8} (h : n = x.toNat) : UInt8.ofNat n = x := by
    rw [h, UInt8.ofNat_toNat]
  rw [halfBytes, hhalf, hbyte (x := a) (by omega), hbyte (x := b) (by omega)]

section Rows

-- Words, and halves of words, one after the other.
def wordRow (words : List UInt32) : List UInt8 :=
  (words.map Word.bytes).flatten

def halfRow (halves : List UInt16) : List UInt8 :=
  (halves.map halfBytes).flatten

variable {start : Nat} {file : List UInt8}

theorem length_wordRow {words : List UInt32} : (wordRow words).length = words.length * 4 := by
  rw [wordRow, length_flatten_records (List.forall_mem_map.mpr fun _ _ => Word.length_bytes _),
    List.length_map]

theorem length_halfRow {halves : List UInt16} : (halfRow halves).length = halves.length * 2 := by
  rw [halfRow, length_flatten_records (List.forall_mem_map.mpr fun _ _ => length_halfBytes),
    List.length_map]

theorem StandsAt.word {words : List UInt32} (h : StandsAt (wordRow words) start file) (i : Nat)
    {v : UInt32} (hv : words[i]? = some v) : StandsAt (Word.bytes v) (start + i * 4) file :=
  h.record (List.forall_mem_map.mpr fun _ _ => Word.length_bytes _)
    (by rw [List.getElem?_map, hv, Option.map_some])

theorem StandsAt.half {halves : List UInt16} (h : StandsAt (halfRow halves) start file) (i : Nat)
    {v : UInt16} (hv : halves[i]? = some v) : StandsAt (halfBytes v) (start + i * 2) file :=
  h.record (List.forall_mem_map.mpr fun _ _ => length_halfBytes)
    (by rw [List.getElem?_map, hv, Option.map_some])

end Rows

-- The bytes of a name, without the zero that ends it.
def nameBytes (name : String) : List UInt8 :=
  name.toByteArray.data.toList

-- A name and the zero behind it.
def terminated (name : String) : List UInt8 :=
  nameBytes name ++ [0]

-- A name stands at an offset, and its first zero byte is the one behind it.
def NameAt (name : String) (start : Nat) (file : List UInt8) : Prop :=
  '\x00' ∉ name.toList ∧ StandsAt (terminated name) start file

section Names

variable {name : String}

theorem zero_mem_utf8EncodeChar {c : Char} : 0 ∈ String.utf8EncodeChar c ↔ c = '\x00' := by
  have hchar : c = '\x00' ↔ c.val.toNat = 0 := by
    rw [← Char.toNat_inj]
    rfl
  have hzero {n : Nat} : (0 : UInt8) = .ofNat n ↔ n % 256 = 0 := by
    rw [← UInt8.toNat_inj, UInt8.toNat_ofNat']
    exact eq_comm
  have hc : c.val.toNat < 0x110000 := by
    have := c.valid
    unfold UInt32.isValidChar Nat.isValidChar at this
    omega
  rw [hchar]
  simp only [String.utf8EncodeChar]
  split_ifs <;> simp only [List.mem_cons, List.not_mem_nil, or_false, hzero] <;> omega

theorem zero_mem_nameBytes : 0 ∈ nameBytes name ↔ '\x00' ∈ name.toList := by
  have hbytes : nameBytes name = name.toList.flatMap String.utf8EncodeChar := by
    rw [nameBytes, ← String.utf8Encode_toList, List.utf8Encode, List.toList_data_toByteArray]
  rw [hbytes, List.mem_flatMap]
  simp only [zero_mem_utf8EncodeChar, exists_eq_right]

theorem fromUTF8?_eq_some_iff {bytes : List UInt8} :
    String.fromUTF8? ⟨bytes.toArray⟩ = some name ↔ nameBytes name = bytes := by
  have hbytes : nameBytes name = bytes ↔ name.toByteArray = ⟨bytes.toArray⟩ := by
    rw [nameBytes, ByteArray.ext_iff, ← Array.toList_inj]
  rw [hbytes, String.fromUTF8?]
  split
  case isTrue valid =>
    rw [Option.some.injEq, ← String.toByteArray_inj]
    exact eq_comm
  case isFalse invalid =>
    refine iff_of_false (by simp) fun h => ?_
    exact invalid (h ▸ name.isValidUTF8)

end Names

namespace Window

variable {w : Window} {start : Nat} {what : String}

theorem cut?_eq_some_iff {length : Nat} {bytes : List UInt8} :
    w.cut? start length = some bytes ↔ bytes.length = length ∧ StandsAt bytes start w.bytes := by
  constructor
  case mp =>
    intro h
    have hlength := length_cut? h
    unfold cut? at h
    split at h
    case isTrue hle =>
      subst hlength
      exact ⟨rfl, hle, Option.some.inj h⟩
    case isFalse => cases h
  case mpr =>
    rintro ⟨rfl, hle, hbytes⟩
    rw [cut?, if_pos hle, hbytes]

theorem byte_eq_ok_iff {b : UInt8} : w.byte start what = .ok b ↔ StandsAt [b] start w.bytes := by
  unfold byte
  split
  case h_1 a h =>
    have h := (cut?_eq_some_iff.mp h).right
    refine ⟨fun hb => Except.ok.inj hb ▸ h, fun hb => ?_⟩
    cases h.eq hb rfl
    rfl
  case h_2 h =>
    refine ⟨(by cases ·), fun hb => ?_⟩
    exact absurd (cut?_eq_some_iff.mpr ⟨rfl, hb⟩) (h b)

theorem word_eq_ok_iff {v : UInt32} :
    w.word start what = .ok v ↔ StandsAt (Word.bytes v) start w.bytes := by
  unfold word
  split
  case h_1 a b c d h =>
    have h := (cut?_eq_some_iff.mp h).right
    rw [← Word.bytes_ofBytes] at h
    refine ⟨fun hv => Except.ok.inj hv ▸ h, fun hv => ?_⟩
    rw [Word.bytes_inj (h.eq hv rfl)]
  case h_2 h =>
    refine ⟨(by cases ·), fun hv => ?_⟩
    obtain ⟨a, b, c, d, hbytes, _⟩ := Word.exists_bytes v
    exact absurd (cut?_eq_some_iff.mpr ⟨rfl, hbytes ▸ hv⟩) (h a b c d)

theorem half_eq_ok_iff {v : UInt32} :
    w.half start what = .ok v ↔
      ∃ n, v = UInt16.toUInt32 n ∧ StandsAt (halfBytes n) start w.bytes := by
  unfold half
  split
  case h_1 a b h =>
    have h := (cut?_eq_some_iff.mp h).right
    obtain ⟨n, hn⟩ := exists_half a b
    obtain ⟨a', b', hn', hword⟩ := exists_halfBytes n
    cases hn.symm.trans hn'
    rw [hword]
    constructor
    case mp =>
      intro hv
      exact ⟨n, (Except.ok.inj hv).symm, hn ▸ h⟩
    case mpr =>
      rintro ⟨m, rfl, hm⟩
      obtain ⟨c, d, hm', hword'⟩ := exists_halfBytes m
      rw [hm'] at hm
      cases h.eq hm rfl
      rw [← hword, hword']
  case h_2 h =>
    refine ⟨(by cases ·), fun ⟨n, _, hn⟩ => ?_⟩
    obtain ⟨a, b, hbytes, _⟩ := exists_halfBytes n
    exact absurd (cut?_eq_some_iff.mpr ⟨rfl, hbytes ▸ hn⟩) (h a b)

theorem number_eq_ok_iff {n : Nat} :
    w.number start what = .ok n ↔
      ∃ v, UInt32.toNat v = n ∧ StandsAt (Word.bytes v) start w.bytes := by
  have hmap : w.number start what = .ok n ↔ ∃ v, w.word start what = .ok v ∧ v.toNat = n := by
    unfold number
    cases w.word start what <;> simp
  simp only [hmap, word_eq_ok_iff, and_comm]

theorem text_eq_ok_iff {name : String} :
    w.text start what = .ok name ↔ NameAt name start w.bytes := by
  unfold text
  rw [List.span_eq_takeWhile_dropWhile]
  constructor
  case mp =>
    intro h
    split at h
    case isTrue => cases h
    case isFalse hstart =>
      split at h
      case h_1 => cases h
      case h_2 bytes zero rest hspan =>
        split at h
        case h_2 => cases h
        case h_1 text htext =>
          cases h
          obtain ⟨hbytes, hrest⟩ := Prod.mk.inj hspan
          have hname : nameBytes name = bytes := fromUTF8?_eq_some_iff.mp htext
          have hzero : zero = 0 := by
            have hhead := List.head?_dropWhile_not (fun b : UInt8 => b ≠ 0) (w.bytes.drop start)
            rw [hrest] at hhead
            simpa using hhead
          have hnonzero : 0 ∉ nameBytes name := by
            rw [hname, ← hbytes]
            intro hmem
            simpa using List.mem_takeWhile_imp hmem
          refine ⟨mt zero_mem_nameBytes.mpr hnonzero, ?_⟩
          have hfile : w.bytes = w.bytes.take start ++ terminated name ++ rest := by
            rw [terminated, hname, List.append_assoc, List.append_assoc, List.singleton_append,
              ← hzero, ← hrest, ← hbytes, List.takeWhile_append_dropWhile, List.take_append_drop]
          exact standsAt_iff.mpr ⟨_, rest, hfile, by simp; omega⟩
  case mpr =>
    rintro ⟨hname, hstands⟩
    obtain ⟨front, back, hfile, rfl⟩ := standsAt_iff.mp hstands
    have hnonzero : ∀ b ∈ nameBytes name, decide (b ≠ 0) = true := by
      intro b hb
      rw [decide_eq_true_eq]
      rintro rfl
      exact hname (zero_mem_nameBytes.mp hb)
    have hdrop : w.bytes.drop front.length = nameBytes name ++ 0 :: back := by
      rw [hfile, terminated, List.append_assoc, List.drop_left, List.append_assoc,
        List.singleton_append]
    have hlength : ¬w.bytes.length < front.length := by
      rw [hfile]
      simp
    rw [if_neg hlength, hdrop, List.takeWhile_append_of_pos hnonzero,
      List.dropWhile_append_of_pos hnonzero]
    simp [fromUTF8?_eq_some_iff.mpr rfl]

theorem textAt_eq_ok_iff {name : String} :
    w.textAt start what = .ok name ↔
      ∃ offset, StandsAt (Word.bytes offset) start w.bytes ∧ NameAt name offset.toNat w.bytes := by
  unfold textAt
  rw [bind_eq_ok_iff]
  simp only [number_eq_ok_iff, text_eq_ok_iff]
  constructor
  case mp =>
    rintro ⟨_, ⟨offset, rfl, hoffset⟩, hname⟩
    exact ⟨offset, hoffset, hname⟩
  case mpr =>
    rintro ⟨offset, hoffset, hname⟩
    exact ⟨_, ⟨offset, rfl, hoffset⟩, hname⟩

theorem table_eq_ok_iff {count size : Nat} {places : List Nat} :
    w.table start count size what = .ok places ↔
      start + count * size ≤ w.bytes.length ∧ recordPlaces start count size = places := by
  simp only [table]
  split
  case isTrue h => simp [h, recordPlaces]
  case isFalse h => exact iff_of_false (by simp [fail]) fun h' => h h'.left

end Window

end ShaderLift
