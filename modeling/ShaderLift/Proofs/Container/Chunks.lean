import ShaderLift.Container.Basic
import ShaderLift.Proofs.Container.Reads

/-!
Reading a container finds exactly the chunks that its table of offsets leads to, looks at nothing
behind the size that it declares, and undoes the assembly of a container from chunks.
-/

namespace ShaderLift

theorem Window.ite_fail_eq_ok_iff {α : Type} {P : Prop} [Decidable P] {w : Window} {start : Nat}
    {fault : ContainerFault} {next : Unit → Except DecodeError α} {a : α} :
    (if P then w.fail start fault >>= next else next ()) = .ok a ↔ ¬P ∧ next () = .ok a := by
  split
  case isTrue h => exact iff_of_false (by simp [fail, bind, Except.bind]) fun h' => h'.left h
  case isFalse h => exact (and_iff_right h).symm

theorem Quad.length_toList {α : Type} {q : Quad α} : q.toList.length = 4 :=
  rfl

-- A chunk whose code and length stand at `start`, with its data right behind them.
structure Chunk.StoredAt (c : Chunk) (start : Nat) (file : List UInt8) : Prop where
  code   : StandsAt c.fourCC.bytes.toList start file
  length : ∃ length, StandsAt (Word.bytes length) (start + 4) file ∧ length.toNat = c.data.length
  offset : c.offset = start + 8
  data   : StandsAt c.data c.offset file

theorem Chunk.storedAt_take {c : Chunk} {start n : Nat} {file : List UInt8} (hn : n ≤ file.length) :
    c.StoredAt start (file.take n) ↔ c.StoredAt start file ∧ c.offset + c.data.length ≤ n := by
  constructor
  case mp =>
    rintro ⟨hcode, ⟨length, hlength, hsize⟩, hoffset, hdata⟩
    rw [standsAt_take hn] at hcode hlength hdata
    exact ⟨⟨hcode.right, ⟨length, hlength.right, hsize⟩, hoffset, hdata.right⟩, hdata.left⟩
  case mpr =>
    rintro ⟨⟨hcode, ⟨length, hlength, hsize⟩, hoffset, hdata⟩, hfits⟩
    refine ⟨(standsAt_take hn).mpr ⟨by rw [Quad.length_toList]; omega, hcode⟩, ⟨length, ?_, hsize⟩,
      hoffset, ?_⟩
    case refine_1 => exact (standsAt_take hn).mpr ⟨by rw [Word.length_bytes]; omega, hlength⟩
    case refine_2 => exact (standsAt_take hn).mpr ⟨hfits, hdata⟩

-- What a file holds that is a container of a declared size.
structure Container.StoredIn (c : Container) (total : UInt32) (file : List UInt8) : Prop where
  magic    : StandsAt FourCC.dxbc.bytes.toList 0 file
  checksum : c.checksum.length = 16 ∧ StandsAt c.checksum 4 file
  declared : StandsAt (Word.bytes total) 24 file ∧ total.toNat ≤ file.length
  count    : ∃ count, StandsAt (Word.bytes count) 28 file ∧ count.toNat = c.chunks.length
  limit    : c.chunks.length ≤ 4096
  table    : 32 + c.chunks.length * 4 ≤ total.toNat
  chunks   : ∀ i chunk, c.chunks[i]? = some chunk →
    ∃ start, StandsAt (Word.bytes start) (32 + i * 4) file ∧
      32 + c.chunks.length * 4 ≤ start.toNat ∧ chunk.StoredAt start.toNat file ∧
      chunk.offset + chunk.data.length ≤ total.toNat

namespace Container

variable {w : Window} {start : Nat}

theorem readFourCC_eq_ok_iff {code : FourCC} :
    readFourCC w start = .ok code ↔ StandsAt code.bytes.toList start w.bytes := by
  have hlist : code.bytes.toList =
      [code.bytes.x] ++ ([code.bytes.y] ++ ([code.bytes.z] ++ [code.bytes.w])) := rfl
  rw [hlist, standsAt_append, standsAt_append, standsAt_append]
  simp only [readFourCC, bind_eq_ok_iff, Window.byte_eq_ok_iff]
  constructor
  case mp =>
    rintro ⟨x, hx, y, hy, z, hz, w, hw, h⟩
    cases h
    exact ⟨hx, hy, hz, hw⟩
  case mpr =>
    rintro ⟨hx, hy, hz, hw⟩
    exact ⟨_, hx, _, hy, _, hz, _, hw, rfl⟩

theorem readChunk_eq_ok_iff {tableEnd i entry : Nat} {chunk : Chunk} :
    readChunk w tableEnd i entry = .ok chunk ↔
      ∃ start, StandsAt (Word.bytes start) entry w.bytes ∧ tableEnd ≤ start.toNat ∧
        chunk.StoredAt start.toNat w.bytes := by
  simp only [readChunk, bind_eq_ok_iff, Window.ite_fail_eq_ok_iff, Window.number_eq_ok_iff,
    readFourCC_eq_ok_iff, not_lt]
  constructor
  case mp =>
    rintro ⟨_, ⟨start, rfl, hstart⟩, hend, code, hcode, _, ⟨length, rfl, hlength⟩, h⟩
    refine ⟨start, hstart, hend, ?_⟩
    split at h
    case h_2 => cases h
    case h_1 data hdata =>
      cases h
      obtain ⟨hsize, hdata⟩ := Window.cut?_eq_some_iff.mp hdata
      exact ⟨hcode, ⟨length, hlength, hsize.symm⟩, rfl, hdata⟩
  case mpr =>
    rintro ⟨start, hstart, hend, hcode, ⟨length, hlength, hsize⟩, hoffset, hdata⟩
    refine ⟨_, ⟨start, rfl, hstart⟩, hend, _, hcode, _, ⟨length, rfl, hlength⟩, ?_⟩
    rw [Window.cut?_eq_some_iff.mpr ⟨hsize.symm, hoffset ▸ hdata⟩]
    simp only [← hoffset]
    rfl

variable {bytes : List UInt8}

theorem parse_eq_ok_iff {c : Container} :
    parse bytes = .ok c ↔ ∃ total, c.StoredIn total bytes := by
  simp only [parse, bind_eq_ok_iff, Window.ite_fail_eq_ok_iff, Window.number_eq_ok_iff,
    readFourCC_eq_ok_iff, Window.table_eq_ok_iff, mapM_eq_ok_iff, readChunk_eq_ok_iff, not_lt,
    not_or, not_not]
  constructor
  case mp =>
    rintro ⟨hheader, magic, hmagic, rfl, _, ⟨total, rfl, htotal⟩, ⟨hsize, hfits⟩, _,
      ⟨count, rfl, hcount⟩, hlimit, _, ⟨htable, rfl⟩, chunks, hchunks, h⟩
    cases h
    rw [zipIdx_recordPlaces] at hchunks
    obtain ⟨hlength, hchunks⟩ := forall₂_map_range_iff.mp hchunks
    simp only [standsAt_take hfits, Chunk.storedAt_take hfits] at hcount hchunks
    rw [List.length_take, Nat.min_eq_left hfits] at htable
    have hsum : ((bytes.drop 4).take 16).length = 16 := by
      rw [List.length_take, List.length_drop]
      simp only [headerLength] at hheader
      omega
    refine ⟨total, hmagic, ⟨hsum, ?_, by rw [hsum]⟩, ⟨htotal, hfits⟩,
      ⟨count, hcount.right, hlength.symm⟩, hlength ▸ hlimit, hlength ▸ htable, ?_⟩
    case refine_1 => exact hsum.symm ▸ hheader.trans' (by decide)
    case refine_2 =>
      intro i chunk hchunk
      obtain ⟨start, ⟨_, hstart⟩, hend, hstored⟩ := hchunks i chunk hchunk
      exact ⟨start, hstart, hlength ▸ hend, hstored⟩
  case mpr =>
    rintro ⟨total, hmagic, ⟨hsum, hchecksum⟩, ⟨htotal, hfits⟩, ⟨count, hcount, hlength⟩, hlimit,
      htable, hchunks⟩
    rw [← hlength] at hlimit htable hchunks
    refine ⟨by rw [headerLength]; omega, .dxbc, hmagic, rfl, _, ⟨total, rfl, htotal⟩,
      ⟨by rw [headerLength]; omega, hfits⟩, _, ⟨count, rfl, ?_⟩, hlimit, _, ⟨?_, rfl⟩, c.chunks, ?_,
      ?_⟩
    case refine_1 =>
      exact (standsAt_take hfits).mpr ⟨by rw [Word.length_bytes]; omega, hcount⟩
    case refine_2 => rwa [List.length_take, Nat.min_eq_left hfits]
    case refine_3 =>
      rw [zipIdx_recordPlaces]
      refine forall₂_map_range_iff.mpr ⟨hlength.symm, fun i chunk hchunk => ?_⟩
      obtain ⟨start, hstart, hend, hstored⟩ := hchunks i chunk hchunk
      have hi : i < c.chunks.length := (List.getElem?_eq_some_iff.mp hchunk).choose
      refine ⟨start, (standsAt_take hfits).mpr ⟨?_, hstart⟩, hend,
        (Chunk.storedAt_take hfits).mpr hstored⟩
      rw [Word.length_bytes, headerLength]
      omega
    case refine_4 =>
      rw [← hsum, hchecksum.right]
      rfl

theorem exists_fourCC {file : List UInt8} (h : start + 4 ≤ file.length) :
    ∃ code : FourCC, StandsAt code.bytes.toList start file := by
  obtain ⟨bytes, hlength, hbytes⟩ := exists_standsAt h
  match bytes, hlength with
  | [x, y, z, w], _ => exact ⟨⟨⟨x, y, z, w⟩⟩, hbytes⟩

-- Nothing behind the declared size is looked at.
theorem parse_take {total : UInt32} (htotal : StandsAt (Word.bytes total) 24 bytes)
    (hsize : 32 ≤ total.toNat) (hfits : total.toNat ≤ bytes.length) :
    parse (bytes.take total.toNat) = parse bytes := by
  obtain ⟨code, hcode⟩ : ∃ code : FourCC, StandsAt code.bytes.toList 0 bytes :=
    exists_fourCC (by omega)
  have hlength : (bytes.take total.toNat).length = total.toNat := by
    rw [List.length_take, Nat.min_eq_left hfits]
  have hchecksum : ((bytes.take total.toNat).drop 4).take 16 = (bytes.drop 4).take 16 := by
    rw [List.drop_take, List.take_take, Nat.min_eq_left (by omega)]
  have hmagic : readFourCC ⟨0, bytes⟩ 0 = .ok code := readFourCC_eq_ok_iff.mpr hcode
  have hmagic' : readFourCC ⟨0, bytes.take total.toNat⟩ 0 = .ok code := by
    refine readFourCC_eq_ok_iff.mpr ((standsAt_take hfits).mpr ⟨?_, hcode⟩)
    exact hsize.trans' (by rw [Quad.length_toList]; decide)
  have hnumber : (⟨0, bytes⟩ : Window).number 24 "total size" = .ok total.toNat :=
    Window.number_eq_ok_iff.mpr ⟨total, rfl, htotal⟩
  have hnumber' :
      (⟨0, bytes.take total.toNat⟩ : Window).number 24 "total size" = .ok total.toNat := by
    refine Window.number_eq_ok_iff.mpr ⟨total, rfl, (standsAt_take hfits).mpr ⟨?_, htotal⟩⟩
    exact hsize.trans' (by rw [Word.length_bytes]; decide)
  have hheader : ¬bytes.length < headerLength := not_lt.mpr (hsize.trans hfits)
  have hdeclared : ¬total.toNat < headerLength := not_lt.mpr hsize
  have hinside : ¬bytes.length < total.toNat := not_lt.mpr hfits
  simp only [parse, hmagic, hmagic', hnumber, hnumber', hlength, hchecksum, hheader, hdeclared,
    hinside, List.take_take, Nat.min_self, lt_irrefl, if_false, or_self, Window.fail, bind,
    Except.bind]

-- The code, the length and the data of a chunk.
def chunkRecord (chunk : FourCC × List UInt8) : List UInt8 :=
  chunk.1.bytes.toList ++ Word.bytes (.ofNat chunk.2.length) ++ chunk.2

-- A table of offsets with the chunks behind it.
def chunkFormat : TableFormat (FourCC × List UInt8) where
  size := 4
  record _ place := Word.bytes (.ofNat place)
  part chunk _ := chunkRecord chunk
  length_record _ _ := Word.length_bytes _
  length_part _ _ := rfl

-- A container of some chunks: its header, the table of their offsets, and the chunks themselves.
def assemble (checksum : List UInt8) (reserved : UInt32) (chunks : List (FourCC × List UInt8)) :
    List UInt8 :=
  let table := chunkFormat.table chunks 32
  FourCC.dxbc.bytes.toList ++ checksum ++ Word.bytes reserved ++
    Word.bytes (.ofNat (32 + table.length)) ++ Word.bytes (.ofNat chunks.length) ++ table

-- The chunks that are found in it.
def assembled (checksum : List UInt8) (chunks : List (FourCC × List UInt8)) : Container where
  checksum := checksum
  chunks := List.zipWith (fun place chunk => ⟨chunk.1, place + 8, chunk.2⟩)
    (chunkFormat.partPlaces chunks 32) chunks

section Assembly

variable {checksum : List UInt8} {reserved : UInt32} {chunks : List (FourCC × List UInt8)}

theorem length_assembled : (assembled checksum chunks).chunks.length = chunks.length := by
  rw [assembled, List.length_zipWith, TableFormat.length_partPlaces, Nat.min_self]

theorem length_assemble (hsum : checksum.length = 16) (reserved : UInt32)
    (chunks : List (FourCC × List UInt8)) :
    (assemble checksum reserved chunks).length = 32 + (chunkFormat.table chunks 32).length := by
  simp only [assemble, List.length_append, hsum, Word.length_bytes, Quad.length_toList]

theorem storedAt_of_chunkRecord {chunk : FourCC × List UInt8} {file : List UInt8}
    (h : StandsAt (chunkRecord chunk) start file) (hfile : file.length < 2 ^ 32) :
    (⟨chunk.1, start + 8, chunk.2⟩ : Chunk).StoredAt start file := by
  obtain ⟨h, hdata⟩ := standsAt_append.mp h
  obtain ⟨hcode, hlength⟩ := standsAt_append.mp h
  refine ⟨hcode, ⟨_, hlength, UInt32.toNat_ofNat_of_lt ?_⟩, rfl, hdata⟩
  exact (Nat.le_of_add_left_le hdata.le_length).trans_lt hfile

theorem storedIn_assemble (hsum : checksum.length = 16) (hlimit : chunks.length ≤ 4096)
    (hfits : (assemble checksum reserved chunks).length < 2 ^ 32) :
    (assembled checksum chunks).StoredIn (.ofNat (assemble checksum reserved chunks).length)
      (assemble checksum reserved chunks) := by
  have hlength := length_assemble hsum reserved chunks
  have hparts := standsAt_self (assemble checksum reserved chunks)
  nth_rewrite 1 [assemble] at hparts
  rw [← hlength] at hparts
  generalize assemble checksum reserved chunks = file at hfits hlength hparts ⊢
  simp only [standsAt_append, List.length_append, hsum, Quad.length_toList, Word.length_bytes,
    Nat.zero_add, Nat.reduceAdd] at hparts
  obtain ⟨⟨⟨⟨⟨hmagic, hchecksum⟩, _⟩, htotal⟩, hcount⟩, htable⟩ := hparts
  have hsize : (UInt32.ofNat file.length).toNat = file.length := UInt32.toNat_ofNat_of_lt hfits
  refine ⟨hmagic, ⟨hsum, hchecksum⟩, ⟨htotal, hsize.le⟩, ⟨_, hcount, ?_⟩, ?_, ?_, ?_⟩
  case refine_1 =>
    rw [length_assembled]
    exact UInt32.toNat_ofNat_of_lt (hlimit.trans_lt (by decide))
  case refine_2 => rwa [length_assembled]
  case refine_3 =>
    rw [length_assembled, hsize]
    exact TableFormat.fits_of_standsAt htable
  case refine_4 =>
    intro i chunk hchunk
    obtain ⟨place, pair, hplace, hpair, rfl⟩ := List.getElem?_zipWith_eq_some.mp hchunk
    obtain ⟨hentry, hrecord⟩ := TableFormat.standsAt_of_partPlaces htable hpair hplace
    have hword : (UInt32.ofNat place).toNat = place := hrecord.toNat_ofNat hfits
    have hstored := storedAt_of_chunkRecord hrecord hfits
    refine ⟨_, hentry, ?_, by rwa [hword], by rw [hsize]; exact hstored.data.le_length⟩
    rw [hword, length_assembled]
    exact le_of_mem_places (List.mem_of_getElem? hplace)

theorem map_assembled :
    (assembled checksum chunks).chunks.map (fun c => (c.fourCC, c.data)) = chunks := by
  rw [assembled, List.map_zipWith, ← List.map_uncurry_zip_eq_zipWith]
  exact List.map_snd_zip TableFormat.length_partPlaces.ge

end Assembly

theorem parse_undoes_assembly (bytes : List UInt8) :
    (∀ c, parse bytes = .ok c ↔ ∃ total, c.StoredIn total bytes) ∧
    (∀ total : UInt32, StandsAt (Word.bytes total) 24 bytes → 32 ≤ total.toNat →
      total.toNat ≤ bytes.length →
        ∀ other, other.take total.toNat = bytes.take total.toNat → parse other = parse bytes) ∧
    ∀ checksum reserved chunks, checksum.length = 16 → chunks.length ≤ 4096 →
      (assemble checksum reserved chunks).length < 2 ^ 32 →
        ∃ c, parse (assemble checksum reserved chunks) = .ok c ∧ c.checksum = checksum ∧
          c.chunks.map (fun chunk => (chunk.fourCC, chunk.data)) = chunks := by
  refine ⟨fun c => parse_eq_ok_iff, ?_, ?_⟩
  case refine_1 =>
    intro total htotal hsize hfits other hother
    have hfits' : total.toNat ≤ other.length := by
      have hlength := congrArg List.length hother
      rw [List.length_take, List.length_take, Nat.min_eq_left hfits] at hlength
      omega
    have htotal' : StandsAt (Word.bytes total) 24 other := by
      have hend : 24 + (Word.bytes total).length ≤ total.toNat :=
        hsize.trans' (by rw [Word.length_bytes]; decide)
      have htake := (standsAt_take hfits).mpr ⟨hend, htotal⟩
      rw [← hother] at htake
      exact ((standsAt_take hfits').mp htake).right
    rw [← parse_take htotal hsize hfits, ← parse_take htotal' hsize hfits', hother]
  case refine_2 =>
    intro checksum reserved chunks hsum hlimit hfits
    exact ⟨assembled checksum chunks, parse_eq_ok_iff.mpr ⟨_, storedIn_assemble hsum hlimit hfits⟩,
      rfl, map_assembled⟩

-- Two chunks, one of them empty, and two bytes behind the declared size.
theorem parse_undoes_assembly_twoChunks :
    let checksum := List.replicate 16 7
    let chunks := [(FourCC.isgn, [1, 2, 3]), (FourCC.shdr, [])]
    let file := assemble checksum 1 chunks
    StandsAt (Word.bytes 59) 24 (file ++ [8, 9]) ∧ parse file = parse (file ++ [8, 9]) ∧
      (∃ c, parse file = .ok c ∧ c.checksum = checksum ∧
        c.chunks.map (fun chunk => (chunk.fourCC, chunk.data)) = chunks) ∧
      ∀ c, parse file = .ok c → ∃ total, c.StoredIn total file := by
  intro checksum chunks file
  have htotal : StandsAt (Word.bytes 59) 24 (file ++ [8, 9]) := by decide
  have htake : file.take 59 = (file ++ [8, 9]).take 59 := by decide
  refine ⟨htotal, ?_, ?_, ?_⟩
  case refine_1 =>
    exact (parse_undoes_assembly _).right.left 59 htotal (by decide) (by decide) file htake
  case refine_2 =>
    exact (parse_undoes_assembly []).right.right checksum 1 chunks rfl (by decide) (by decide)
  case refine_3 => exact fun c => ((parse_undoes_assembly file).left c).mp

end Container

end ShaderLift
