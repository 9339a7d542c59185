import ShaderLift.Container.Reflection
import ShaderLift.Proofs.Container.Reads

/-!
Reading reflection data gives what its linked tables hold, wherever they stand: the bindings of
known kinds, and the ordinary constant buffers with their variables and bind points. It undoes the
encoding of such tables.
-/

namespace ShaderLift

section Records

-- The number of a kind of resource.
def BindingKind.raw : BindingKind → UInt32
  | constantBuffer => 0
  | textureBuffer => 1
  | texture => 2
  | sampler => 3
  | uavTyped => 4
  | structured => 5
  | uavStructured => 6
  | byteAddress => 7
  | uavByteAddress => 8
  | uavAppendStructured => 9
  | uavConsumeStructured => 10
  | uavStructuredWithCounter => 11

structure BindingRecord where
  name       : String
  kind       : UInt32
  returnType : UInt32
  dimension  : UInt32
  samples    : UInt32
  bindPoint  : UInt32
  bindCount  : UInt32
  flags      : UInt32

structure TypeRecord where
  shape       : UInt16
  base        : UInt16
  rows        : UInt16
  columns     : UInt16
  elements    : UInt16
  memberCount : UInt16
  firstMember : UInt32

structure VariableRecord where
  name      : String
  offset    : UInt32
  size      : UInt32
  flags     : UInt32
  type      : TypeRecord
  initial   : UInt32
  -- Where the textures and samplers of the variable start and how many there are.
  resources : Quad UInt32

structure BufferRecord where
  name    : String
  members : List VariableRecord
  size    : UInt32
  flags   : UInt32
  type    : UInt32

-- All that reflection data holds.
structure ReflectionRecords where
  bindings : List BindingRecord
  buffers  : List BufferRecord
  target   : UInt32
  flags    : UInt32
  creator  : UInt32

-- The binding that a record describes, unless it is of an unknown kind.
def BindingRecord.binding? (r : BindingRecord) : Option ResourceBinding :=
  (BindingKind.all.find? (·.raw = r.kind)).map fun kind =>
    { name := r.name, kind, dimension := r.dimension, bindPoint := r.bindPoint,
      bindCount := r.bindCount }

def TypeRecord.shapeClass (t : TypeRecord) : VariableClass :=
  if t.shape = 0 then .scalar
  else if t.shape = 1 then .vector
  else if t.shape = 2 then .matrixRows
  else if t.shape = 3 then .matrixColumns
  else .other

def TypeRecord.baseType (t : TypeRecord) : BaseType :=
  if t.base = 1 then .bool
  else if t.base = 2 then .int
  else if t.base = 19 then .uint
  else if t.base = 39 then .double
  else .float

def TypeRecord.type (t : TypeRecord) : VariableType where
  shape := t.shapeClass
  base := t.baseType
  rows := t.rows.toUInt32
  columns := t.columns.toUInt32
  elements := t.elements.toUInt32

def VariableRecord.member (v : VariableRecord) : Variable :=
  { name := v.name, offset := v.offset, size := v.size, type := v.type.type }

namespace ReflectionRecords

-- The bind point of a constant buffer: that of the first record of its name that binds a constant
-- buffer, or else its place in the table.
def bindPoint (r : ReflectionRecords) (name : String) (i : Nat) : UInt32 :=
  match r.bindings.find? fun b => b.kind = 0 ∧ b.name = name with
  | some b => b.bindPoint
  | none => .ofNat i

-- Only buffers of type 0 are constant buffers.
def buffer? (r : ReflectionRecords) (b : BufferRecord) (i : Nat) : Option ConstantBuffer :=
  if b.type = 0 then
    some { name := b.name, bindPoint := r.bindPoint b.name i, size := b.size,
           members := b.members.map (·.member) }
  else none

-- What the records say.
def reflection (r : ReflectionRecords) : Reflection where
  bindings := r.bindings.filterMap (·.binding?)
  constantBuffers := r.buffers.zipIdx.filterMap fun (b, i) => r.buffer? b i

end ReflectionRecords

end Records

section Layout

def BindingRecord.bytes (r : BindingRecord) (name : UInt32) : List UInt8 :=
  wordRow [name, r.kind, r.returnType, r.dimension, r.samples, r.bindPoint, r.bindCount, r.flags]

def TypeRecord.bytes (t : TypeRecord) : List UInt8 :=
  halfRow [t.shape, t.base, t.rows, t.columns, t.elements, t.memberCount] ++
    Word.bytes t.firstMember

-- The major version of a target is its second byte. From version 5 on variables have resources.
def withResources (target : UInt32) : Bool :=
  5 ≤ target.toNat / 0x100 % 0x100

def VariableRecord.bytes (v : VariableRecord) (target name type : UInt32) : List UInt8 :=
  wordRow [name, v.offset, v.size, v.flags, type, v.initial] ++
    if withResources target then wordRow v.resources.toList else []

def VariableRecord.length (target : UInt32) : Nat :=
  if withResources target then 40 else 24

def BufferRecord.bytes (b : BufferRecord) (name count first : UInt32) : List UInt8 :=
  wordRow [name, count, first, b.size, b.flags, b.type]

def ReflectionRecords.header (r : ReflectionRecords)
    (bufferCount buffers bindingCount bindings : UInt32) : List UInt8 :=
  wordRow [bufferCount, buffers, bindingCount, bindings, r.target, r.flags, r.creator]

def BindingRecord.StoredAt (r : BindingRecord) (start : Nat) (file : List UInt8) : Prop :=
  ∃ name, StandsAt (r.bytes name) start file ∧ NameAt r.name name.toNat file

def VariableRecord.StoredAt (v : VariableRecord) (target : UInt32) (start : Nat)
    (file : List UInt8) : Prop :=
  ∃ name type, StandsAt (v.bytes target name type) start file ∧ NameAt v.name name.toNat file ∧
    StandsAt v.type.bytes type.toNat file

-- The variables of a buffer that is no constant buffer do not matter.
def BufferRecord.StoredAt (b : BufferRecord) (target : UInt32) (start : Nat) (file : List UInt8) :
    Prop :=
  ∃ name count first, StandsAt (b.bytes name count first) start file ∧
    NameAt b.name name.toNat file ∧
    (b.type = 0 →
      TableAt (·.StoredAt target · file) (VariableRecord.length target) b.members count first file)

-- What a chunk holds that is reflection data, with its tables anywhere.
def ReflectionRecords.StoredIn (r : ReflectionRecords) (file : List UInt8) : Prop :=
  ∃ bufferCount buffers bindingCount bindings,
    StandsAt (r.header bufferCount buffers bindingCount bindings) 0 file ∧
    TableAt (·.StoredAt · file) 32 r.bindings bindingCount bindings file ∧
    TableAt (·.StoredAt r.target · file) 24 r.buffers bufferCount buffers file

end Layout

theorem BindingKind.ofRaw?_toNat (raw : UInt32) :
    ofRaw? raw.toNat = all.find? (·.raw = raw) := by
  by_cases h : raw.toNat < 12
  case pos =>
    rw [← UInt32.ofNat_toNat (x := raw)]
    generalize raw.toNat = n at h
    interval_cases n <;> rfl
  case neg =>
    have hnone : all.find? (·.raw = raw) = none := by
      refine List.find?_eq_none.mpr fun kind _ hkind => h ?_
      rw [← of_decide_eq_true hkind]
      cases kind <;> decide
    rw [hnone]
    exact List.getElem?_eq_none (not_lt.mp h)

section Reading

variable {w : Window} {start : Nat}

theorem TypeRecord.ofRaw_shape {t : TypeRecord} :
    VariableClass.ofRaw t.shape.toUInt32.toNat = t.shapeClass := by
  rw [UInt16.toNat_toUInt32, shapeClass]
  simp only [← UInt16.toNat_inj]
  unfold VariableClass.ofRaw
  split <;> simp_all

theorem TypeRecord.ofRaw_base {t : TypeRecord} :
    BaseType.ofRaw t.base.toUInt32.toNat = t.baseType := by
  rw [UInt16.toNat_toUInt32, baseType]
  simp only [← UInt16.toNat_inj]
  unfold BaseType.ofRaw
  split <;> simp_all

theorem Reflection.readType_eq_ok {t : TypeRecord} (h : StandsAt t.bytes start w.bytes) :
    readType w start = .ok t.type := by
  obtain ⟨hhalves, _⟩ := standsAt_append.mp h
  simp only [readType, bind_eq_ok_iff, Window.half_eq_ok_iff]
  refine ⟨_, ⟨_, rfl, hhalves.half 0 rfl⟩, _, ⟨_, rfl, hhalves.half 1 rfl⟩, _,
    ⟨_, rfl, hhalves.half 2 rfl⟩, _, ⟨_, rfl, hhalves.half 3 rfl⟩, _,
    ⟨_, rfl, hhalves.half 4 rfl⟩, ?_⟩
  rw [TypeRecord.ofRaw_shape, TypeRecord.ofRaw_base]
  rfl

theorem Reflection.readVariable_eq_ok {v : VariableRecord} {target : UInt32}
    (h : v.StoredAt target start w.bytes) : readVariable w start = .ok v.member := by
  obtain ⟨name, type, hrecord, hname, htype⟩ := h
  obtain ⟨hwords, _⟩ := standsAt_append.mp hrecord
  simp only [readVariable, bind_eq_ok_iff, Window.textAt_eq_ok_iff, Window.word_eq_ok_iff,
    Window.number_eq_ok_iff]
  exact ⟨_, ⟨name, hwords.word 0 rfl, hname⟩, _, hwords.word 1 rfl, _, hwords.word 2 rfl, _,
    ⟨type, rfl, hwords.word 4 rfl⟩, _, readType_eq_ok htype, rfl⟩

theorem Reflection.readBinding_eq_ok {r : BindingRecord} (h : r.StoredAt start w.bytes) :
    readBinding w start = .ok r.binding? := by
  obtain ⟨name, hwords, hname⟩ := h
  simp only [readBinding, bind_eq_ok_iff, Window.textAt_eq_ok_iff, Window.number_eq_ok_iff]
  refine ⟨_, ⟨name, hwords.word 0 rfl, hname⟩, _, ⟨_, rfl, hwords.word 1 rfl⟩, ?_⟩
  rw [BindingKind.ofRaw?_toNat, BindingRecord.binding?]
  cases BindingKind.all.find? (·.raw = r.kind)
  case none => rfl
  case some kind =>
    simp only [bind_eq_ok_iff, Window.word_eq_ok_iff]
    exact ⟨_, hwords.word 3 rfl, _, hwords.word 5 rfl, _, hwords.word 6 rfl, rfl⟩

theorem Reflection.variableSize_eq {target : UInt32} :
    variableSize target = VariableRecord.length target := by
  have hmajor : Word.bits target 8 8 = target.toNat / 0x100 % 0x100 := by
    simp only [Word.bits, Nat.shiftRight_eq_div_pow, Nat.one_shiftLeft]
  simp only [variableSize, VariableRecord.length, withResources, hmajor, decide_eq_true_eq]

theorem BindingRecord.binding?_eq_some {r : BindingRecord} (h : r.kind = 0) :
    r.binding? = some ⟨r.name, .constantBuffer, r.bindPoint, r.bindCount, r.dimension⟩ := by
  rw [binding?, h]
  rfl

theorem BindingRecord.any_binding? {r : BindingRecord} {name : String} :
    (r.binding?.any fun b => b.kind = .constantBuffer ∧ b.name = name) =
      decide (r.kind = 0 ∧ r.name = name) := by
  by_cases h : r.kind = 0
  case pos => simp [binding?_eq_some h, h]
  case neg =>
    rw [binding?]
    cases hfind : BindingKind.all.find? (·.raw = r.kind)
    case none => simp [h]
    case some kind =>
      have hraw : kind.raw = r.kind := by simpa using List.find?_some hfind
      have hkind : kind ≠ .constantBuffer := by
        rintro rfl
        exact h hraw.symm
      simp [h, hkind]

-- Records of unknown kinds do not get in the way of the search.
theorem ReflectionRecords.bindPoint?_getD {r : ReflectionRecords} {name : String} {i : Nat} :
    (Reflection.bindPoint? r.reflection.bindings name).getD (.ofNat i) = r.bindPoint name i := by
  rw [Reflection.bindPoint?, reflection, List.find?_filterMap, bindPoint]
  simp only [BindingRecord.any_binding?]
  split
  case h_1 b hfind =>
    have hb : b.kind = 0 ∧ b.name = name := by simpa using List.find?_some hfind
    rw [hfind, Option.bind_some, BindingRecord.binding?_eq_some hb.left]
    rfl
  case h_2 hfind =>
    rw [hfind]
    rfl

section TableAt

variable {α : Type} {stored : α → Nat → Prop} {size : Nat} {items : List α} {count start : UInt32}

theorem TableAt.table_eq_ok {what : String} (h : TableAt stored size items count start w.bytes) :
    w.table start.toNat count.toNat size what =
      .ok (recordPlaces start.toNat count.toNat size) :=
  Window.table_eq_ok_iff.mpr ⟨(tableAt_iff.mp h).left, rfl⟩

theorem TableAt.mapM_eq_ok {β : Type} {file : List UInt8} {read : Nat → Except DecodeError β}
    {f : α → β} (h : TableAt stored size items count start file)
    (hread : ∀ a place, stored a place → read place = .ok (f a)) :
    (recordPlaces start.toNat count.toNat size).mapM read = .ok (items.map f) := by
  refine mapM_eq_ok_iff.mpr (List.forall₂_map_right_iff.mpr ?_)
  exact (tableAt_iff.mp h).right.imp fun place a => hread a place

end TableAt

theorem Reflection.readConstantBuffer_eq_ok {r : ReflectionRecords} {b : BufferRecord} {i : Nat}
    (h : b.StoredAt r.target start w.bytes) :
    readConstantBuffer w (variableSize r.target) r.reflection.bindings i start =
      .ok (r.buffer? b i) := by
  obtain ⟨name, count, first, hwords, hname, hmembers⟩ := h
  simp only [readConstantBuffer, bind_eq_ok_iff, Window.textAt_eq_ok_iff, Window.number_eq_ok_iff,
    Window.word_eq_ok_iff]
  refine ⟨_, ⟨name, hwords.word 0 rfl, hname⟩, _, ⟨count, rfl, hwords.word 1 rfl⟩, _,
    ⟨first, rfl, hwords.word 2 rfl⟩, _, hwords.word 3 rfl, _, hwords.word 5 rfl, ?_⟩
  rw [ReflectionRecords.buffer?]
  by_cases htype : b.type = 0
  case neg =>
    rw [if_pos htype, if_neg htype]
    rfl
  case pos =>
    have hmembers := hmembers htype
    rw [if_neg (not_not.mpr htype), if_pos htype, variableSize_eq, hmembers.table_eq_ok]
    simp only [bind_eq_ok_iff]
    refine ⟨_, rfl, _, hmembers.mapM_eq_ok fun _ _ => readVariable_eq_ok, ?_⟩
    rw [ReflectionRecords.bindPoint?_getD]
    rfl

theorem Reflection.readBuffers_eq_ok {r : ReflectionRecords} {count first : UInt32}
    (h : TableAt (·.StoredAt r.target · w.bytes) 24 r.buffers count first w.bytes) :
    ((recordPlaces first.toNat count.toNat 24).zipIdx.mapM fun (start, i) =>
        readConstantBuffer w (variableSize r.target) r.reflection.bindings i start) =
      .ok (r.buffers.zipIdx.map fun (b, i) => r.buffer? b i) := by
  rw [mapM_eq_ok_iff, zipIdx_recordPlaces]
  refine forall₂_map_range_iff.mpr ⟨by rw [List.length_map, List.length_zipIdx, h.count], ?_⟩
  intro i buffer hi
  rw [List.getElem?_map, List.getElem?_zipIdx, Nat.zero_add, Option.map_map] at hi
  obtain ⟨b, hb, rfl⟩ := Option.map_eq_some_iff.mp hi
  exact readConstantBuffer_eq_ok (h.stored i b hb)

theorem Chunk.reflection_eq_ok {c : Chunk} {r : ReflectionRecords} (h : r.StoredIn c.data) :
    c.reflection = .ok r.reflection := by
  obtain ⟨bufferCount, buffers, bindingCount, bindings, hheader, hbindings, hbuffers⟩ := h
  have hreadBindings :
      (recordPlaces bindings.toNat bindingCount.toNat 32).mapM (Reflection.readBinding c.window) =
        .ok (r.bindings.map (·.binding?)) :=
    hbindings.mapM_eq_ok fun _ _ => Reflection.readBinding_eq_ok (w := c.window)
  have hfound : (r.bindings.map (·.binding?)).filterMap id = r.reflection.bindings := by
    rw [List.filterMap_map]
    rfl
  have hreadBuffers := Reflection.readBuffers_eq_ok (w := c.window) hbuffers
  rw [← hfound] at hreadBuffers
  simp only [reflection, bind_eq_ok_iff, Window.number_eq_ok_iff, Window.word_eq_ok_iff]
  refine ⟨_, ⟨bufferCount, rfl, hheader.word 0 rfl⟩, _, ⟨buffers, rfl, hheader.word 1 rfl⟩, _,
    ⟨bindingCount, rfl, hheader.word 2 rfl⟩, _, ⟨bindings, rfl, hheader.word 3 rfl⟩, _,
    hheader.word 4 rfl, _, hbindings.table_eq_ok, _, hreadBindings, _, hbuffers.table_eq_ok, _,
    hreadBuffers, ?_⟩
  rw [hfound, List.filterMap_map]
  rfl

end Reading

section Encoding

variable {target : UInt32}

def BindingRecord.format : TableFormat BindingRecord where
  size := 32
  record r place := r.bytes (.ofNat place)
  part r _ := terminated r.name
  length_record _ _ := length_wordRow
  length_part _ _ := rfl

theorem TypeRecord.length_bytes {t : TypeRecord} : t.bytes.length = 16 := by
  rw [bytes, List.length_append, length_halfRow, Word.length_bytes]
  rfl

theorem VariableRecord.length_bytes {v : VariableRecord} {name type : UInt32} :
    (v.bytes target name type).length = VariableRecord.length target := by
  rw [bytes, List.length_append, length_wordRow, VariableRecord.length]
  split
  case isTrue => exact congrArg (24 + ·) length_wordRow
  case isFalse => rfl

-- Behind a table of variables stand their types and names.
def VariableRecord.format (target : UInt32) : TableFormat VariableRecord where
  size := VariableRecord.length target
  record v place := v.bytes target (.ofNat (place + 16)) (.ofNat place)
  part v _ := v.type.bytes ++ terminated v.name
  length_record _ _ := length_bytes
  length_part _ _ := rfl

-- Behind a table of buffers stand their names and their tables of variables.
def BufferRecord.format (target : UInt32) : TableFormat BufferRecord where
  size := 24
  record b place :=
    b.bytes (.ofNat place) (.ofNat b.members.length) (.ofNat (place + (terminated b.name).length))
  part b place := terminated b.name ++
    (VariableRecord.format target).table b.members (place + (terminated b.name).length)
  length_record _ _ := length_wordRow
  length_part _ _ := by
    rw [List.length_append, List.length_append, TableFormat.length_table, TableFormat.length_table]

-- A header, the table of bindings and the table of buffers, each with all that it leads to.
def ReflectionRecords.encode (r : ReflectionRecords) : List UInt8 :=
  let bindings := BindingRecord.format.table r.bindings 28
  let buffers := 28 + bindings.length
  r.header (.ofNat r.buffers.length) (.ofNat buffers) (.ofNat r.bindings.length) 28 ++ bindings ++
    (BufferRecord.format r.target).table r.buffers buffers

-- No name has a zero in it.
structure ReflectionRecords.Encodable (r : ReflectionRecords) : Prop where
  bindings : ∀ b ∈ r.bindings, '\x00' ∉ b.name.toList
  buffers  : ∀ b ∈ r.buffers, '\x00' ∉ b.name.toList ∧ ∀ v ∈ b.members, '\x00' ∉ v.name.toList

variable {file : List UInt8} {start place : Nat}

theorem BindingRecord.storedAt_of_format {r : BindingRecord} (hname : '\x00' ∉ r.name.toList)
    (hrecord : StandsAt (format.record r place) start file)
    (hpart : StandsAt (format.part r place) place file) (hfile : file.length < 2 ^ 32) :
    r.StoredAt start file :=
  ⟨_, hrecord, hname, by rwa [hpart.toNat_ofNat hfile]⟩

theorem VariableRecord.storedAt_of_format {v : VariableRecord} (hname : '\x00' ∉ v.name.toList)
    (hrecord : StandsAt ((format target).record v place) start file)
    (hpart : StandsAt ((format target).part v place) place file) (hfile : file.length < 2 ^ 32) :
    v.StoredAt target start file := by
  obtain ⟨htype, hstands⟩ := standsAt_append.mp hpart
  rw [TypeRecord.length_bytes] at hstands
  exact ⟨_, _, hrecord, ⟨hname, by rwa [hstands.toNat_ofNat hfile]⟩,
    by rwa [htype.toNat_ofNat hfile]⟩

theorem BufferRecord.storedAt_of_format {b : BufferRecord} (hname : '\x00' ∉ b.name.toList)
    (hnames : ∀ v ∈ b.members, '\x00' ∉ v.name.toList)
    (hrecord : StandsAt ((format target).record b place) start file)
    (hpart : StandsAt ((format target).part b place) place file) (hfile : file.length < 2 ^ 32) :
    b.StoredAt target start file := by
  obtain ⟨hstands, hmembers⟩ := standsAt_append.mp hpart
  refine ⟨_, _, _, hrecord, ⟨hname, by rwa [hstands.toNat_ofNat hfile]⟩, fun _ => ?_⟩
  refine TableFormat.tableAt hmembers ?_ hfile fun v hv _ _ hrecord hpart =>
    VariableRecord.storedAt_of_format (hnames v hv) hrecord hpart hfile
  simp only [VariableRecord.format, VariableRecord.length]
  split <;> decide

theorem ReflectionRecords.storedIn_encode {r : ReflectionRecords} (hnames : r.Encodable)
    (hfits : r.encode.length < 2 ^ 32) : r.StoredIn r.encode := by
  have hparts := standsAt_self r.encode
  nth_rewrite 1 [encode] at hparts
  generalize r.encode = file at hfits hparts ⊢
  simp only [standsAt_append, List.length_append, header, length_wordRow, List.length_cons,
    List.length_nil, Nat.zero_add, Nat.reduceAdd, Nat.reduceMul] at hparts
  obtain ⟨⟨hheader, hbindings⟩, hbuffers⟩ := hparts
  refine ⟨_, _, _, _, hheader, ?_, ?_⟩
  case refine_1 =>
    exact TableFormat.tableAt hbindings (by decide) hfits fun b hb _ _ hrecord hpart =>
      BindingRecord.storedAt_of_format (hnames.bindings b hb) hrecord hpart hfits
  case refine_2 =>
    exact TableFormat.tableAt hbuffers (Nat.zero_lt_succ 23) hfits fun b hb _ _ hrecord hpart =>
      BufferRecord.storedAt_of_format (hnames.buffers b hb).left (hnames.buffers b hb).right hrecord
        hpart hfits

end Encoding

theorem Chunk.reflection_undoes_encoding (c : Chunk) (r : ReflectionRecords) :
    (r.StoredIn c.data → c.reflection = .ok r.reflection) ∧
    (r.Encodable → r.encode.length < 2 ^ 32 →
      r.StoredIn r.encode ∧ { c with data := r.encode }.reflection = .ok r.reflection) := by
  refine ⟨reflection_eq_ok, fun hnames hfits => ?_⟩
  have hstored := ReflectionRecords.storedIn_encode hnames hfits
  exact ⟨hstored, reflection_eq_ok hstored⟩

-- A binding of no known kind, and three buffers: one that is bound, one that is no constant buffer,
-- and one that no binding names.
theorem Chunk.reflection_undoes_encoding_threeBuffers :
    let tint : VariableRecord := ⟨"tint", 16, 8, 2, ⟨1, 3, 1, 2, 0, 0, 0⟩, 0, ⟨0, 0, 0, 0⟩⟩
    let r : ReflectionRecords :=
      { bindings := [⟨"Globals", 12, 0, 0, 0, 9, 1, 0⟩, ⟨"Globals", 0, 0, 0, 0, 3, 1, 0⟩]
        buffers :=
          [⟨"Globals", [tint], 24, 0, 0⟩, ⟨"Layout", [tint], 8, 0, 3⟩, ⟨"Other", [], 0, 0, 0⟩]
        target := 0x500, flags := 0, creator := 0 }
    let type : VariableType := ⟨.vector, .float, 1, 2, 0⟩
    r.StoredIn r.encode ∧ (⟨.rdef, 44, r.encode⟩ : Chunk).reflection = .ok
      { bindings := [⟨"Globals", .constantBuffer, 3, 1, 0⟩]
        constantBuffers :=
          [⟨"Globals", 3, 24, [⟨"tint", 16, 8, type⟩]⟩, ⟨"Other", 2, 0, []⟩] } := by
  intro tint r type
  refine (reflection_undoes_encoding ⟨.rdef, 44, []⟩ r).right ⟨?_, ?_⟩ (by decide +kernel)
  case refine_1 => decide
  case refine_2 => decide

end ShaderLift
