import ShaderLift.Container.Signature
import ShaderLift.Proofs.Container.Reads

/-!
Reading a signature finds exactly the entries that its table holds, in each of the three layouts,
and undoes the encoding of entries.
-/

namespace ShaderLift

-- The layouts of entries: the plain one, that with a stream in front, and that with a stream in
-- front and a precision behind.
inductive EntryForm where
  | plain
  | streamed
  | precise
  deriving DecidableEq

namespace EntryForm

def size : EntryForm → Nat
  | plain => 24
  | streamed => 28
  | precise => 32

-- How many bytes stand in front of the plain entry.
def front : EntryForm → Nat
  | plain => 0
  | streamed | precise => 4

theorem front_add_le_size {form : EntryForm} : form.front + 24 ≤ form.size := by
  cases form <;> decide

end EntryForm

def FourCC.entryForm (code : FourCC) : EntryForm :=
  if code = .ofChars 'O' 'S' 'G' '5' then .streamed
  else if code.bytes.w = .ofNat '1'.toNat then .precise
  else .plain

theorem FourCC.entryLayout_eq {code : FourCC} :
    code.entryLayout = ⟨code.entryForm.size, code.entryForm ≠ .plain⟩ := by
  have hone : UInt8.ofNat '1'.toNat = 0x31 := by decide
  unfold entryLayout entryForm osg5
  rw [hone]
  split_ifs <;> rfl

-- The number of a system value in signatures.
def SystemValue.raw : SystemValue → UInt32
  | undefined => 0
  | position => 1
  | clipDistance => 2
  | cullDistance => 3
  | renderTargetArrayIndex => 4
  | viewportArrayIndex => 5
  | vertexId => 6
  | primitiveId => 7
  | instanceId => 8
  | isFrontFace => 9
  | sampleIndex => 10
  | finalQuadEdgeTessFactor => 11
  | finalQuadInsideTessFactor => 12
  | finalTriEdgeTessFactor => 13
  | finalTriInsideTessFactor => 14
  | finalLineDetailTessFactor => 15
  | finalLineDensityTessFactor => 16
  | target => 64
  | depth => 65
  | coverage => 66
  | depthGreaterEqual => 67
  | depthLessEqual => 68
  | stencilRef => 69
  | innerCoverage => 70

-- The system value of a number. Unknown numbers say nothing.
def SystemValue.ofCode (code : UInt32) : SystemValue :=
  (all.find? (·.raw = code)).getD .undefined

theorem SystemValue.getD_ofRaw? (code : UInt32) :
    (ofRaw? code.toNat).getD .undefined = ofCode code := by
  by_cases h : code.toNat < 71
  case pos =>
    rw [← UInt32.ofNat_toNat (x := code)]
    generalize code.toNat = n at h
    interval_cases n <;> rfl
  case neg =>
    have hnone : all.find? (·.raw = code) = none := by
      refine List.find?_eq_none.mpr fun sv _ hsv => h ?_
      rw [← of_decide_eq_true hsv]
      cases sv <;> decide
    rw [ofCode, hnone, ofRaw?, if_neg (by omega)]
    exact congrArg (Option.getD · _) (List.getElem?_eq_none (Nat.le_sub_of_add_le (not_lt.mp h)))

theorem SystemValue.ofCode_raw {sv : SystemValue} : ofCode sv.raw = sv := by
  cases sv <;> rfl

def ComponentType.raw : ComponentType → UInt32
  | uint32 => 1
  | sint32 => 2
  | float32 => 3

-- All numbers but those of integers stand for floats.
def ComponentType.ofCode (code : UInt32) : ComponentType :=
  if code = 1 then .uint32 else if code = 2 then .sint32 else .float32

theorem ComponentType.ofRaw_toNat (code : UInt32) : ofRaw code.toNat = ofCode code := by
  simp only [ofCode, ← UInt32.toNat_inj]
  unfold ofRaw
  split <;> simp_all

theorem ComponentType.ofCode_raw {type : ComponentType} : ofCode type.raw = type := by
  cases type <;> rfl

-- What stands at `start`, where the plain part of the entry is.
structure SignatureEntry.PlainAt (e : SignatureEntry) (start : Nat) (file : List UInt8) : Prop where
  semantic      : ∃ offset, StandsAt (Word.bytes offset) start file ∧
    NameAt e.semantic offset.toNat file
  semanticIndex : StandsAt (Word.bytes e.semanticIndex) (start + 4) file
  systemValue   : ∃ raw, StandsAt (Word.bytes raw) (start + 8) file ∧
    e.systemValue = .ofCode raw
  componentType : ∃ raw, StandsAt (Word.bytes raw) (start + 12) file ∧
    e.componentType = .ofCode raw
  register      : StandsAt (Word.bytes e.register) (start + 16) file
  mask          : ∃ raw, StandsAt [raw] (start + 20) file ∧ e.mask.bits = raw &&& 0xf
  readWriteMask : ∃ raw, StandsAt [raw] (start + 21) file ∧ e.readWriteMask.bits = raw &&& 0xf
  interpolation : e.interpolation = none

structure SignatureEntry.StoredAt (e : SignatureEntry) (form : EntryForm) (start : Nat)
    (file : List UInt8) : Prop where
  stream : if form = .plain then e.stream = 0 else StandsAt (Word.bytes e.stream) start file
  plain  : e.PlainAt (start + form.front) file

-- What a chunk holds that is a signature: a count, the place of the table, and the entries there.
def Signature.StoredIn (entries : Signature) (form : EntryForm) (file : List UInt8) : Prop :=
  ∃ count table, StandsAt (Word.bytes count) 0 file ∧ StandsAt (Word.bytes table) 4 file ∧
    TableAt (SignatureEntry.StoredAt · form · file) form.size entries count table file

-- All of an entry can be read that lies in the file, up to its name.
theorem SignatureEntry.exists_storedAt {form : EntryForm} {start : Nat} {file : List UInt8}
    {offset : UInt32} {name : String} (hfits : start + form.size ≤ file.length)
    (hoffset : StandsAt (Word.bytes offset) (start + form.front) file)
    (hname : NameAt name offset.toNat file) : ∃ e : SignatureEntry, e.StoredAt form start file := by
  have hfront := form.front_add_le_size
  obtain ⟨stream, hstream⟩ := exists_word file start (by omega)
  obtain ⟨index, hindex⟩ := exists_word file (start + form.front + 4) (by omega)
  obtain ⟨value, hvalue⟩ := exists_word file (start + form.front + 8) (by omega)
  obtain ⟨type, htype⟩ := exists_word file (start + form.front + 12) (by omega)
  obtain ⟨register, hregister⟩ := exists_word file (start + form.front + 16) (by omega)
  obtain ⟨mask, hmask⟩ := exists_byte file (start + form.front + 20) (by omega)
  obtain ⟨readWrite, hreadWrite⟩ := exists_byte file (start + form.front + 21) (by omega)
  let e : SignatureEntry :=
    { semantic := name, semanticIndex := index, register,
      systemValue := .ofCode value
      componentType := .ofCode type
      mask := ⟨mask &&& 0xf⟩, readWriteMask := ⟨readWrite &&& 0xf⟩
      stream := if form = .plain then 0 else stream }
  refine ⟨e, ?_, ⟨offset, hoffset, hname⟩, hindex, ⟨value, hvalue, rfl⟩, ⟨type, htype, rfl⟩,
    hregister, ⟨mask, hmask, rfl⟩, ⟨readWrite, hreadWrite, rfl⟩, rfl⟩
  split
  case isTrue hform => exact if_pos hform
  case isFalse hform => rwa [show e.stream = stream from if_neg hform]

namespace Chunk

variable {w : Window} {start : Nat} {e : SignatureEntry}

theorem signatureEntry_eq_ok_iff {stream : UInt32} :
    signatureEntry w stream start = .ok e ↔ e.stream = stream ∧ e.PlainAt start w.bytes := by
  simp only [signatureEntry, bind_eq_ok_iff, Window.textAt_eq_ok_iff, Window.word_eq_ok_iff,
    Window.number_eq_ok_iff, Window.byte_eq_ok_iff]
  constructor
  case mp =>
    rintro ⟨semantic, hsemantic, index, hindex, _, ⟨raw, rfl, hvalue⟩, _, ⟨type, rfl, htype⟩,
      register, hregister, mask, hmask, readWrite, hreadWrite, h⟩
    cases h
    exact ⟨rfl, hsemantic, hindex, ⟨raw, hvalue, SystemValue.getD_ofRaw? raw⟩,
      ⟨type, htype, ComponentType.ofRaw_toNat type⟩, hregister, ⟨mask, hmask, rfl⟩,
      ⟨readWrite, hreadWrite, rfl⟩, rfl⟩
  case mpr =>
    obtain ⟨semantic, index, register, value, type, ⟨mask⟩, ⟨readWrite⟩, stream, interpolation⟩ := e
    rintro ⟨rfl, hsemantic, hindex, ⟨raw, hvalue, rfl⟩, ⟨rawType, htype, rfl⟩, hregister,
      ⟨rawMask, hmask, rfl⟩, ⟨rawReadWrite, hreadWrite, rfl⟩, rfl⟩
    refine ⟨_, hsemantic, _, hindex, _, ⟨raw, rfl, hvalue⟩, _, ⟨rawType, rfl, htype⟩, _, hregister,
      _, hmask, _, hreadWrite, ?_⟩
    rw [SystemValue.getD_ofRaw?, ComponentType.ofRaw_toNat]
    rfl

variable {c : Chunk} {entries : Signature}

theorem entry_eq_ok_iff {form : EntryForm} :
    (if form ≠ .plain then do signatureEntry w (← w.word start "stream") (start + 4)
      else signatureEntry w 0 start) = .ok e ↔ e.StoredAt form start w.bytes := by
  split
  case isTrue hform =>
    have hfront : form.front = 4 := by cases form <;> trivial
    simp only [bind_eq_ok_iff, Window.word_eq_ok_iff, signatureEntry_eq_ok_iff]
    constructor
    case mp =>
      rintro ⟨_, hstream, rfl, hplain⟩
      exact ⟨by rwa [if_neg hform], hfront.symm ▸ hplain⟩
    case mpr =>
      rintro ⟨hstream, hplain⟩
      rw [if_neg hform] at hstream
      exact ⟨_, hstream, rfl, hfront ▸ hplain⟩
  case isFalse hform =>
    cases not_not.mp hform
    rw [signatureEntry_eq_ok_iff]
    exact ⟨fun ⟨hstream, hplain⟩ => ⟨hstream, hplain⟩, fun ⟨hstream, hplain⟩ => ⟨hstream, hplain⟩⟩

theorem signature_eq_ok_iff :
    c.signature = .ok entries ↔ entries.StoredIn c.fourCC.entryForm c.data := by
  simp only [signature, FourCC.entryLayout_eq, bind_eq_ok_iff, Window.number_eq_ok_iff,
    Window.table_eq_ok_iff, mapM_eq_ok_iff, decide_eq_true_eq, entry_eq_ok_iff]
  constructor
  case mp =>
    rintro ⟨_, ⟨count, rfl, hcount⟩, _, ⟨table, rfl, htable⟩, _, ⟨hfits, rfl⟩, hentries⟩
    exact ⟨count, table, hcount, htable, tableAt_iff.mpr ⟨hfits, hentries⟩⟩
  case mpr =>
    rintro ⟨count, table, hcount, htable, hentries⟩
    obtain ⟨hfits, hentries⟩ := tableAt_iff.mp hentries
    exact ⟨_, ⟨count, rfl, hcount⟩, _, ⟨table, rfl, htable⟩, _, ⟨hfits, rfl⟩, hentries⟩

-- Only names can be missing in a table that lies in the chunk.
theorem exists_signature_iff : (∃ entries, c.signature = .ok entries) ↔
    ∃ count table, StandsAt (Word.bytes count) 0 c.data ∧ StandsAt (Word.bytes table) 4 c.data ∧
      table.toNat + count.toNat * c.fourCC.entryForm.size ≤ c.data.length ∧
      ∀ i < count.toNat, ∃ offset name, NameAt name offset.toNat c.data ∧
        StandsAt (Word.bytes offset)
          (table.toNat + i * c.fourCC.entryForm.size + c.fourCC.entryForm.front) c.data := by
  simp only [signature_eq_ok_iff]
  constructor
  case mp =>
    rintro ⟨entries, count, table, hcount, htable, hlength, hfits, hentries⟩
    refine ⟨count, table, hcount, htable, hlength ▸ hfits, fun i hi => ?_⟩
    have hentry := hentries i _ (List.getElem?_eq_getElem (hlength ▸ hi))
    obtain ⟨offset, hoffset, hname⟩ := hentry.plain.semantic
    exact ⟨offset, _, hname, hoffset⟩
  case mpr =>
    rintro ⟨count, table, hcount, htable, hfits, hnames⟩
    have hentry (i : Fin count.toNat) : ∃ e : SignatureEntry,
        e.StoredAt c.fourCC.entryForm (table.toNat + i * c.fourCC.entryForm.size) c.data := by
      obtain ⟨offset, name, hname, hoffset⟩ := hnames i i.isLt
      refine SignatureEntry.exists_storedAt ?_ hoffset hname
      have hlast : (i.val + 1) * c.fourCC.entryForm.size ≤ count.toNat * c.fourCC.entryForm.size :=
        Nat.mul_le_mul_right _ i.isLt
      rw [Nat.succ_mul] at hlast
      omega
    choose entry hentry using hentry
    refine ⟨List.ofFn entry, count, table, hcount, htable, List.length_ofFn.symm, ?_, ?_⟩
    case refine_1 => rwa [List.length_ofFn]
    case refine_2 =>
      intro i e he
      obtain ⟨_, rfl⟩ := List.getElem?_eq_some_iff.mp he
      rw [List.getElem_ofFn]
      exact hentry _

end Chunk

section Encoding

-- An entry all of which can be written down.
structure SignatureEntry.Encodable (form : EntryForm) (e : SignatureEntry) : Prop where
  semantic      : '\x00' ∉ e.semantic.toList
  mask          : e.mask.bits < 16
  readWriteMask : e.readWriteMask.bits < 16
  stream        : form = .plain → e.stream = 0
  interpolation : e.interpolation = none

-- The bytes of an entry whose name stands at `name`.
def SignatureEntry.record (form : EntryForm) (e : SignatureEntry) (name : Nat) : List UInt8 :=
  (if form = .plain then [] else Word.bytes e.stream) ++
    (Word.bytes (.ofNat name) ++ Word.bytes e.semanticIndex ++
      Word.bytes e.systemValue.raw ++ Word.bytes e.componentType.raw ++
      Word.bytes e.register ++ [e.mask.bits] ++ [e.readWriteMask.bits] ++ [0, 0]) ++
    if form = .precise then Word.bytes 0 else []

theorem SignatureEntry.length_record {form : EntryForm} {e : SignatureEntry} {name : Nat} :
    (e.record form name).length = form.size := by
  cases form <;> simp [record, Word.length_bytes, EntryForm.size]

-- A table of entries with their names behind it.
def SignatureEntry.format (form : EntryForm) : TableFormat SignatureEntry where
  size := form.size
  record := SignatureEntry.record form
  part e _ := terminated e.semantic
  length_record _ _ := length_record
  length_part _ _ := rfl

-- A header, a table of entries right behind it, and the names.
def Signature.encode (form : EntryForm) (entries : Signature) : List UInt8 :=
  Word.bytes (.ofNat entries.length) ++ Word.bytes 8 ++ (SignatureEntry.format form).table entries 8

variable {form : EntryForm} {e : SignatureEntry} {entries : Signature} {start name : Nat}
  {file : List UInt8}

theorem mask_and_eq_self {bits : UInt8} (h : bits < 16) : bits &&& 0xf = bits := by
  refine UInt8.toNat_inj.mp ?_
  rw [UInt8.toNat_and]
  exact (Nat.and_two_pow_sub_one_eq_mod _ 4).trans (Nat.mod_eq_of_lt h)

theorem SignatureEntry.storedAt_of_record (he : e.Encodable form)
    (hrecord : StandsAt (e.record form name) start file)
    (hname : NameAt e.semantic (UInt32.ofNat name).toNat file) : e.StoredAt form start file := by
  have hfront : (if form = .plain then [] else Word.bytes e.stream).length = form.front := by
    cases form <;> simp [EntryForm.front, Word.length_bytes]
  simp only [record, standsAt_append, List.length_append, hfront, Word.length_bytes,
    List.length_singleton] at hrecord
  obtain ⟨⟨hstream, hplain⟩, _⟩ := hrecord
  obtain ⟨⟨⟨⟨⟨⟨⟨hoffset, hindex⟩, hvalue⟩, htype⟩, hregister⟩, hmask⟩, hreadWrite⟩, _⟩ := hplain
  refine ⟨?_, ⟨_, hoffset, hname⟩, hindex, ⟨_, hvalue, ?_⟩, ⟨_, htype, ?_⟩, hregister,
    ⟨_, hmask, ?_⟩, ⟨_, hreadWrite, ?_⟩, he.interpolation⟩
  case refine_1 =>
    split
    case isTrue hform => exact he.stream hform
    case isFalse hform => rwa [if_neg hform] at hstream
  case refine_2 => exact SystemValue.ofCode_raw.symm
  case refine_3 => exact ComponentType.ofCode_raw.symm
  case refine_4 => exact (mask_and_eq_self he.mask).symm
  case refine_5 => exact (mask_and_eq_self he.readWriteMask).symm

theorem Signature.storedIn_encode (he : ∀ e ∈ entries, e.Encodable form)
    (hfits : (entries.encode form).length < 2 ^ 32) :
    entries.StoredIn form (entries.encode form) := by
  have hparts := standsAt_self (entries.encode form)
  nth_rewrite 1 [encode] at hparts
  generalize entries.encode form = file at hfits hparts ⊢
  simp only [standsAt_append, List.length_append, Word.length_bytes, Nat.zero_add,
    Nat.reduceAdd] at hparts
  obtain ⟨⟨hcount, hstart⟩, htable⟩ := hparts
  refine ⟨_, _, hcount, hstart, TableFormat.tableAt htable (by cases form <;> decide) hfits ?_⟩
  intro e hentry _ name hrecord hname
  refine SignatureEntry.storedAt_of_record (he e hentry) hrecord ?_
  rw [hname.toNat_ofNat hfits]
  exact ⟨(he e hentry).semantic, hname⟩

end Encoding

theorem Chunk.signature_reads_layouts (c : Chunk) :
    ((∃ entries, c.signature = .ok entries) ↔
      ∃ count table, StandsAt (Word.bytes count) 0 c.data ∧ StandsAt (Word.bytes table) 4 c.data ∧
        table.toNat + count.toNat * c.fourCC.entryForm.size ≤ c.data.length ∧
        ∀ i < count.toNat, ∃ offset name, NameAt name offset.toNat c.data ∧
          StandsAt (Word.bytes offset)
            (table.toNat + i * c.fourCC.entryForm.size + c.fourCC.entryForm.front) c.data) ∧
    (∀ entries, c.signature = .ok entries ↔ entries.StoredIn c.fourCC.entryForm c.data) ∧
    ∀ entries : Signature, (∀ e ∈ entries, e.Encodable c.fourCC.entryForm) →
      (entries.encode c.fourCC.entryForm).length < 2 ^ 32 →
        { c with data := entries.encode c.fourCC.entryForm }.signature = .ok entries :=
  ⟨exists_signature_iff, fun _ => signature_eq_ok_iff, fun _ he hfits =>
    signature_eq_ok_iff.mpr (Signature.storedIn_encode he hfits)⟩

-- Two outputs of different streams, with one name.
theorem Chunk.signature_reads_layouts_twoStreams :
    let entries : Signature :=
      [{ semantic := "COLOR", semanticIndex := 0, register := 0, mask := ⟨15⟩, stream := 1 },
        { semantic := "COLOR", semanticIndex := 1, register := 2, systemValue := .clipDistance,
          componentType := .uint32, mask := ⟨3⟩, readWriteMask := ⟨12⟩ }]
    let c : Chunk := ⟨.osg5, 100, entries.encode .streamed⟩
    c.fourCC.entryForm = .streamed ∧ c.signature = .ok entries ∧ entries.StoredIn .streamed c.data ∧
      ∃ entries, c.signature = .ok entries := by
  intro entries c
  have hread : c.signature = .ok entries := by
    refine (signature_reads_layouts c).right.right entries ?_ (by decide)
    refine List.forall_mem_cons.mpr ⟨?_, List.forall_mem_singleton.mpr ?_⟩
    all_goals exact ⟨by decide, by decide, by decide, fun h => (by cases h), rfl⟩
  refine ⟨rfl, hread, ((signature_reads_layouts c).right.left entries).mp hread, ?_⟩
  refine (signature_reads_layouts c).left.mpr ⟨2, 8, by decide, by decide, by decide, ?_⟩
  intro i hi
  match i, hi with
  | 0, _ => exact ⟨64, "COLOR", ⟨by decide, by decide⟩, by decide⟩
  | 1, _ => exact ⟨70, "COLOR", ⟨by decide, by decide⟩, by decide⟩

end ShaderLift
