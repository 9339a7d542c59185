import Mathlib.Tactic.IntervalCases
import ShaderLift.Decode.Instruction
import ShaderLift.Proofs.Decode.Operands

/-!
The layout of instructions in words, from the writing side. A word is a row of fields from its
lowest bit on; an operand is written with all operands inside its indices.
-/

namespace ShaderLift

namespace Word

variable {offset : Nat}

-- Fields of a word, each with its width and its value.
abbrev Fields := List (Nat × Nat)

def Fields.width (fields : Fields) : Nat :=
  (fields.map Prod.fst).sum

def packed : Fields → Nat
  | [] => 0
  | (width, value) :: fields => value % 2 ^ width + 2 ^ width * packed fields

def pack (fields : Fields) : UInt32 :=
  .ofNat (packed fields)

-- The value of the field of a given width that starts at a given bit.
def Fields.get? : Fields → (offset width : Nat) → Option Nat
  | [], _, _ => none
  | (w, value) :: fields, offset, width =>
    if offset = 0 then if w = width then some value else none
    else if w ≤ offset then get? fields (offset - w) width else none

theorem Fields.get?_append {fields more : Fields} {width value : Nat}
    (h : fields.get? offset width = some value) :
    Fields.get? (fields ++ more) offset width = some value := by
  induction fields generalizing offset
  case nil => cases h
  case cons field fields hi =>
    simp only [List.cons_append, get?] at h ⊢
    split at h
    case isTrue ho => rwa [if_pos ho]
    case isFalse ho =>
      rw [if_neg ho]
      split at h
      case isTrue hw =>
        rw [if_pos hw]
        exact hi h
      case isFalse => cases h

theorem packed_lt {fields : Fields} : packed fields < 2 ^ fields.width := by
  induction fields
  case nil => exact Nat.one_pos
  case cons field fields hi =>
    have ⟨width, value⟩ := field
    have hv : value % 2 ^ width < 2 ^ width := Nat.mod_lt _ (Nat.two_pow_pos width)
    have hs : 2 ^ width * (packed fields + 1) ≤ 2 ^ width * 2 ^ Fields.width fields :=
      Nat.mul_le_mul_left _ hi
    rw [packed, Fields.width, List.map_cons, List.sum_cons, Nat.pow_add]
    rw [Nat.mul_add] at hs
    exact Nat.lt_of_lt_of_le (by omega) hs

theorem packed_append {fields more : Fields} :
    packed (fields ++ more) = packed fields + 2 ^ fields.width * packed more := by
  induction fields
  case nil => simp [packed, Fields.width]
  case cons field fields hi =>
    have hwidth : Fields.width (field :: fields) = field.1 + Fields.width fields := rfl
    rw [List.cons_append, packed, packed, hi, hwidth, Nat.pow_add, Nat.mul_add, Nat.mul_assoc,
      Nat.add_assoc]

theorem packed_div_mod {fields : Fields} {width value : Nat}
    (h : fields.get? offset width = some value) :
    packed fields / 2 ^ offset % 2 ^ width = value % 2 ^ width := by
  induction fields generalizing offset
  case nil => cases h
  case cons field fields hi =>
    have ⟨w, v⟩ := field
    simp only [Fields.get?] at h
    split at h
    case isTrue ho =>
      split at h <;> cases h
      rename_i hw
      simp [packed, ho, hw]
    case isFalse =>
      split at h
      case isTrue ho =>
        have hv : v % 2 ^ w < 2 ^ w := Nat.mod_lt _ (Nat.two_pow_pos w)
        have hw : packed ((w, v) :: fields) / 2 ^ w = packed fields := by
          rw [packed, Nat.add_mul_div_left _ _ (Nat.two_pow_pos w), Nat.div_eq_of_lt hv,
            Nat.zero_add]
        rw [← hi h, ← hw, Nat.div_div_eq_div_mul, ← Nat.pow_add, Nat.add_sub_cancel' ho]
      case isFalse => cases h

theorem bits_pack {fields : Fields} {width value : Nat} (hw : fields.width ≤ 32)
    (h : fields.get? offset width = some value) (hv : value < 2 ^ width) :
    bits (pack fields) offset width = value := by
  have hlt : packed fields < 2 ^ 32 := packed_lt.trans_le (Nat.pow_le_pow_right Nat.two_pos hw)
  have hnat : (pack fields).toNat = packed fields := UInt32.toNat_ofNat_of_lt hlt
  rw [bits, hnat, Nat.shiftRight_eq_div_pow, Nat.one_shiftLeft, packed_div_mod h,
    Nat.mod_eq_of_lt hv]

theorem bit_eq_bits {word : UInt32} : bit word offset = (bits word offset 1 == 1) := by
  simp [bit, bits, Nat.testBit, Nat.one_and_eq_mod_two]

theorem bit_pack {fields : Fields} {b : Bool} (hw : fields.width ≤ 32)
    (h : fields.get? offset 1 = some b.toNat) : bit (pack fields) offset = b := by
  rw [bit_eq_bits, bits_pack hw h (by cases b <;> decide)]
  cases b <;> rfl

-- A word of 31 bits and a top bit, which says whether the next word belongs to the same run.
def linked (fields : Fields) (more : Bool) : UInt32 :=
  pack (fields ++ [(1, more.toNat)])

def chain : List Fields → List UInt32
  | [] => []
  | fields :: rest => linked fields (!rest.isEmpty) :: chain rest

section Linked

variable {fields : Fields} {more : Bool} (hw : fields.width = 31)

include hw

theorem width_linked : Fields.width (fields ++ [(1, more.toNat)]) ≤ 32 := by
  rw [Fields.width, List.map_append, List.sum_append]
  exact Nat.le_of_eq (congrArg (· + 1) hw)

theorem bit_more : bit (linked fields more) 31 = more := by
  have hlt : packed fields < 2 ^ 31 := hw ▸ packed_lt
  have hpacked : packed (fields ++ [(1, more.toNat)]) = packed fields + 2 ^ 31 * more.toNat := by
    rw [packed_append, hw]
    cases more <;> rfl
  have hnat : (linked fields more).toNat = packed fields + 2 ^ 31 * more.toNat := by
    have hmore := Bool.toNat_le more
    rw [← hpacked]
    exact UInt32.toNat_ofNat_of_lt (hpacked ▸ by simp only [UInt32.size]; omega)
  have hbits : bits (linked fields more) 31 1 = more.toNat := by
    have hmore := Bool.toNat_le more
    rw [bits, hnat, Nat.shiftRight_eq_div_pow, Nat.add_mul_div_left _ _ (Nat.two_pow_pos 31),
      Nat.div_eq_of_lt hlt, Nat.zero_add]
    exact Nat.mod_eq_of_lt (Nat.lt_succ_of_le hmore)
  rw [bit_eq_bits, hbits]
  cases more <;> rfl

theorem bits_linked {offset width value : Nat} (h : fields.get? offset width = some value)
    (hv : value < 2 ^ width) : bits (linked fields more) offset width = value :=
  bits_pack (width_linked hw) (Fields.get?_append h) hv

theorem bit_linked {offset : Nat} {b : Bool} (h : fields.get? offset 1 = some b.toNat) :
    bit (linked fields more) offset = b :=
  bit_pack (width_linked hw) (Fields.get?_append h)

end Linked

theorem join_high_low {value : UInt64} : join (high value) (low value) = value := by
  have hv : value.toNat < 2 ^ 64 := value.toNat_lt
  have hhigh : (high value).toNat = value.toNat / UInt32.size :=
    UInt32.toNat_ofNat_of_lt (by simp only [UInt32.size]; omega)
  have hlow : (low value).toNat = value.toNat % UInt32.size := UInt32.toNat_ofNat'
  rw [join, hhigh, hlow, Nat.div_add_mod']
  exact UInt64.ofNat_toNat

end Word

section Numbers

def RegisterKind.raw (k : RegisterKind) : Nat :=
  all.idxOf k

theorem RegisterKind.ofRaw?_raw {k : RegisterKind} : ofRaw? k.raw = some k := by
  cases k <;> rfl

theorem RegisterKind.raw_lt {k : RegisterKind} : k.raw < 2 ^ 8 := by
  cases k <;> decide

def ResourceDimension.raw (d : ResourceDimension) : Nat :=
  all.idxOf d

def ReturnType.raw (t : ReturnType) : Nat :=
  all.idxOf t + 1

def SizeFormat.raw (f : SizeFormat) : Nat :=
  all.idxOf f

def ComponentCount.raw : ComponentCount → Nat
  | zero => 0
  | one => 1
  | four => 2

def Modifier.raw : Modifier → Nat
  | plain => 0
  | neg => 1
  | abs => 2
  | absNeg => 3

end Numbers

-- The selection mode and the eight bits behind it.
def Selection.fields : Selection → Word.Fields
  | nothing => [(2, 0), (8, 0)]
  | mask m => [(2, 0), (4, m.bits.toNat), (4, 0)]
  | swizzle lanes => [(2, 1), (2, lanes.x), (2, lanes.y), (2, lanes.z), (2, lanes.w)]
  | select component => [(2, 2), (2, component), (6, 0)]

namespace OperandExtension

def fields (e : OperandExtension) : Word.Fields :=
  [(6, 1), (8, e.modifier.raw), (3, e.minPrecision), (1, e.nonUniform.toNat), (13, 0)]

theorem add_fields {e e' : OperandExtension} {more : Bool} (he : e.minPrecision < 8) :
    e'.add (Word.linked e.fields more) = .ok e := by
  obtain ⟨modifier, minPrecision, nonUniform⟩ := e
  generalize hword : Word.linked (fields ⟨modifier, minPrecision, nonUniform⟩) more = word
  have hkind : Word.bits word 0 6 = 1 :=
    hword ▸ Word.bits_linked rfl rfl (by decide)
  have hmodifier : Word.bits word 6 8 = modifier.raw :=
    hword ▸ Word.bits_linked rfl rfl (by cases modifier <;> decide)
  have hprecision : Word.bits word 14 3 = minPrecision :=
    hword ▸ Word.bits_linked rfl rfl he
  have huniform : Word.bit word 17 = nonUniform :=
    hword ▸ Word.bit_linked rfl rfl
  rw [add, hkind, hmodifier, hprecision, huniform]
  cases modifier <;> rfl

end OperandExtension

-- An operand without its indices.
structure OperandHead where
  register   : RegisterKind
  components : ComponentCount := .four
  selection  : Selection
  extension  : OperandExtension := {}
  immediate  : Option Immediate := none
  deriving DecidableEq

namespace OperandHead

@[mk_iff]
structure Valid (h : OperandHead) : Prop where
  selection    : h.selection.Fits h.components
  minPrecision : h.extension.minPrecision < 8
  immediate    : Immediate.Fits h.register h.components h.immediate

-- The operand with these indices.
def operand (h : OperandHead) (indices : List Index) : Operand where
  register := h.register
  components := h.components
  selection := h.selection
  indices := indices
  modifier := h.extension.modifier
  nonUniform := h.extension.nonUniform
  minPrecision := h.extension.minPrecision
  immediate := h.immediate

def isExtended (h : OperandHead) : Bool :=
  h.extension ≠ {}

def extensions (h : OperandHead) : List Word.Fields :=
  if h.isExtended then [h.extension.fields] else []

def fields (h : OperandHead) (forms : List Nat) : Word.Fields :=
  (2, h.components.raw) :: h.selection.fields ++
    [(8, h.register.raw), (2, forms.length), (3, forms[0]?.getD 0), (3, forms[1]?.getD 0),
      (3, forms[2]?.getD 0), (1, h.isExtended.toNat)]

section Token

variable {h : OperandHead} {forms : List Nat}

theorem width_fields : (h.fields forms).width ≤ 32 := by
  unfold fields
  cases h.selection <;> exact Nat.le_refl 32

theorem readComponents_fields :
    OperandToken.readComponents (Word.pack (h.fields forms)) = .ok h.components := by
  have hraw : Word.bits (Word.pack (h.fields forms)) 0 2 = h.components.raw :=
    Word.bits_pack width_fields rfl (by cases h.components <;> decide)
  rw [OperandToken.readComponents, hraw]
  cases h.components <;> rfl

theorem bits_selection (offset : Nat) {width value : Nat} (hv : value < 2 ^ width)
    (hg : h.selection.fields.get? offset width = some value) :
    Word.bits (Word.pack (h.fields forms)) (2 + offset) width = value := by
  refine Word.bits_pack width_fields ?_ hv
  rw [fields, List.cons_append, Word.Fields.get?, if_neg (by omega), if_pos (by omega),
    Nat.add_sub_cancel_left]
  exact Word.Fields.get?_append hg

theorem readSelection_fields (hs : h.selection.Fits h.components) :
    OperandToken.readSelection (Word.pack (h.fields forms)) h.components = .ok h.selection := by
  cases hc : h.components
  case zero | one =>
    rw [hc] at hs
    exact congrArg Except.ok hs.symm
  case four =>
    rw [hc] at hs
    cases hsel : h.selection <;> rw [hsel] at hs
    case nothing => exact hs.elim
    case mask m =>
      have hmode : Word.bits (Word.pack (h.fields forms)) 2 2 = 0 :=
        bits_selection 0 (by decide) (hsel ▸ rfl)
      have hmask : Word.bits (Word.pack (h.fields forms)) 4 4 = m.bits.toNat :=
        bits_selection 2 hs (hsel ▸ rfl)
      rw [OperandToken.readSelection, hmode, hmask, UInt8.ofNat_toNat]
      rfl
    case swizzle lanes =>
      have hmode : Word.bits (Word.pack (h.fields forms)) 2 2 = 1 :=
        bits_selection 0 (by decide) (hsel ▸ rfl)
      have hx : Word.bits (Word.pack (h.fields forms)) 4 2 = lanes.x :=
        bits_selection 2 (hs _ (by simp [Quad.toList])) (hsel ▸ rfl)
      have hy : Word.bits (Word.pack (h.fields forms)) 6 2 = lanes.y :=
        bits_selection 4 (hs _ (by simp [Quad.toList])) (hsel ▸ rfl)
      have hz : Word.bits (Word.pack (h.fields forms)) 8 2 = lanes.z :=
        bits_selection 6 (hs _ (by simp [Quad.toList])) (hsel ▸ rfl)
      have hw : Word.bits (Word.pack (h.fields forms)) 10 2 = lanes.w :=
        bits_selection 8 (hs _ (by simp [Quad.toList])) (hsel ▸ rfl)
      rw [OperandToken.readSelection, hmode, hx, hy, hz, hw]
      rfl
    case select component =>
      have hmode : Word.bits (Word.pack (h.fields forms)) 2 2 = 2 :=
        bits_selection 0 (by decide) (hsel ▸ rfl)
      have hcomponent : Word.bits (Word.pack (h.fields forms)) 4 2 = component :=
        bits_selection 2 hs (hsel ▸ rfl)
      rw [OperandToken.readSelection, hmode, hcomponent]
      rfl

theorem readRegister_fields :
    OperandToken.readRegister (Word.pack (h.fields forms)) = .ok h.register := by
  have hraw : Word.bits (Word.pack (h.fields forms)) 12 8 = h.register.raw := by
    refine Word.bits_pack width_fields ?_ RegisterKind.raw_lt
    unfold fields
    cases h.selection <;> rfl
  simp only [OperandToken.readRegister, hraw, RegisterKind.ofRaw?_raw]
  rfl

theorem bit_isExtended : Word.bit (Word.pack (h.fields forms)) 31 = h.isExtended := by
  refine Word.bit_pack width_fields ?_
  unfold fields
  cases h.selection <;> rfl

theorem bits_forms (hl : forms.length ≤ 3) (hf : ∀ form ∈ forms, form < 8) :
    ([22, 25, 28].take (Word.bits (Word.pack (h.fields forms)) 20 2)).map
      (Word.bits (Word.pack (h.fields forms)) · 3) = forms := by
  have hdimensions : Word.bits (Word.pack (h.fields forms)) 20 2 = forms.length := by
    refine Word.bits_pack width_fields ?_ (by omega)
    unfold fields
    cases h.selection <;> rfl
  have hform (i : Nat) (hi : i < 3) :
      Word.bits (Word.pack (h.fields forms)) (22 + 3 * i) 3 = forms[i]?.getD 0 := by
    refine Word.bits_pack width_fields ?_ ?_
    case refine_1 =>
      unfold fields
      interval_cases i <;> cases h.selection <;> rfl
    case refine_2 =>
      cases h : forms[i]?
      case none => decide
      case some => exact hf _ (List.mem_of_getElem? h)
  have h₀ := hform 0 (by decide)
  have h₁ := hform 1 (by decide)
  have h₂ := hform 2 (by decide)
  rw [hdimensions]
  match forms, hl with
  | [], _ => rfl
  | [_], _ => simpa using h₀
  | [_, _], _ => simpa using ⟨h₀, h₁⟩
  | [_, _, _], _ => simpa using ⟨h₀, h₁, h₂⟩

theorem read_fields (hs : h.selection.Fits h.components)
    (hl : forms.length ≤ 3) (hf : ∀ form ∈ forms, form < 8) :
    OperandToken.read (Word.pack (h.fields forms)) =
      .ok ⟨h.components, h.selection, h.register, forms, h.isExtended⟩ := by
  simp only [OperandToken.read, readComponents_fields, readSelection_fields hs, readRegister_fields,
    bit_isExtended, bits_forms hl hf, bind, Except.bind]
  rfl

end Token

end OperandHead

-- The low four bits of a number.
def nibble (n : Int) : Nat :=
  (n % 16).toNat

theorem nibble_lt {n : Int} : nibble n < 2 ^ 4 := by
  unfold nibble
  omega

theorem signedNibble_nibble {n : Int} (h : -8 ≤ n ∧ n < 8) : signedNibble (nibble n) = n := by
  unfold signedNibble nibble
  split <;> omega

namespace SampleControls

structure Valid (c : SampleControls) : Prop where
  offsets : ∀ offsets, c.offsets = some offsets → ∀ n ∈ offsets.toList, -8 ≤ n ∧ n < 8
  stride  : ∀ stride, c.structureStride = some stride → 0 < stride ∧ stride < 4096

def offsetFields (offsets : Triple Int) : Word.Fields :=
  [(6, 1), (3, 0), (4, nibble offsets.x), (4, nibble offsets.y), (4, nibble offsets.z), (10, 0)]

-- A stride without a dimension stands beside a number that no dimension has.
def dimensionFields (dimension : Option ResourceDimension) (stride : Option Nat) : Word.Fields :=
  [(6, 2), (5, (dimension.map ResourceDimension.raw).getD 31), (12, stride.getD 0), (8, 0)]

def returnFields (types : Quad ReturnType) : Word.Fields :=
  [(6, 3), (4, types.x.raw), (4, types.y.raw), (4, types.z.raw), (4, types.w.raw), (9, 0)]

def extensions (c : SampleControls) : List Word.Fields :=
  c.offsets.toList.map offsetFields ++
    (if c.dimension = none ∧ c.structureStride = none then []
    else [dimensionFields c.dimension c.structureStride]) ++
    c.returnType.toList.map returnFields

variable {c : SampleControls} {more : Bool}

theorem add_offsets {offsets : Triple Int} (h : ∀ n ∈ offsets.toList, -8 ≤ n ∧ n < 8) :
    c.add (Word.linked (offsetFields offsets) more) = { c with offsets := some offsets } := by
  have hkind : Word.bits (Word.linked (offsetFields offsets) more) 0 6 = 1 :=
    Word.bits_linked rfl rfl (by decide)
  have hx : Word.bits (Word.linked (offsetFields offsets) more) 9 4 = nibble offsets.x :=
    Word.bits_linked rfl rfl nibble_lt
  have hy : Word.bits (Word.linked (offsetFields offsets) more) 13 4 = nibble offsets.y :=
    Word.bits_linked rfl rfl nibble_lt
  have hz : Word.bits (Word.linked (offsetFields offsets) more) 17 4 = nibble offsets.z :=
    Word.bits_linked rfl rfl nibble_lt
  have hnibble {n : Int} (hn : n ∈ offsets.toList) : signedNibble (nibble n) = n :=
    signedNibble_nibble (h n hn)
  simp only [add, hkind, hx, hy, hz]
  rw [hnibble (by simp [Triple.toList]), hnibble (by simp [Triple.toList]),
    hnibble (by simp [Triple.toList])]

theorem add_dimension {dimension : Option ResourceDimension} {stride : Option Nat}
    (h : ∀ n, stride = some n → 0 < n ∧ n < 4096) :
    c.add (Word.linked (dimensionFields dimension stride) more) =
      { c with dimension := dimension, structureStride := stride } := by
  have hkind : Word.bits (Word.linked (dimensionFields dimension stride) more) 0 6 = 2 :=
    Word.bits_linked rfl rfl (by decide)
  have hdimension : Word.bits (Word.linked (dimensionFields dimension stride) more) 6 5 =
      (dimension.map ResourceDimension.raw).getD 31 := by
    refine Word.bits_linked rfl rfl ?_
    cases dimension
    case none => decide
    case some d => cases d <;> decide
  have hstride : Word.bits (Word.linked (dimensionFields dimension stride) more) 11 12 =
      stride.getD 0 := by
    refine Word.bits_linked rfl rfl ?_
    cases stride
    case none => decide
    case some n => exact (h n rfl).right
  have hraw : ResourceDimension.ofRaw? ((dimension.map ResourceDimension.raw).getD 31) =
      dimension := by
    cases dimension
    case none => rfl
    case some d => cases d <;> rfl
  have hsome : (if stride.getD 0 = 0 then none else some (stride.getD 0)) = stride := by
    cases stride
    case none => rfl
    case some n => exact if_neg (h n rfl).left.ne'
  simp only [add, hkind, hdimension, hstride, hraw, hsome]

theorem add_return {types : Quad ReturnType} :
    c.add (Word.linked (returnFields types) more) = { c with returnType := some types } := by
  have hlt {t : ReturnType} : t.raw < 2 ^ 4 := by cases t <;> decide
  have hraw {t : ReturnType} : (ReturnType.ofRaw? t.raw).getD .float = t := by cases t <;> rfl
  have hkind : Word.bits (Word.linked (returnFields types) more) 0 6 = 3 :=
    Word.bits_linked rfl rfl (by decide)
  have hx : Word.bits (Word.linked (returnFields types) more) 6 4 = types.x.raw :=
    Word.bits_linked rfl rfl hlt
  have hy : Word.bits (Word.linked (returnFields types) more) 10 4 = types.y.raw :=
    Word.bits_linked rfl rfl hlt
  have hz : Word.bits (Word.linked (returnFields types) more) 14 4 = types.z.raw :=
    Word.bits_linked rfl rfl hlt
  have hw : Word.bits (Word.linked (returnFields types) more) 18 4 = types.w.raw :=
    Word.bits_linked rfl rfl hlt
  simp only [add, hkind, hx, hy, hz, hw, hraw]

theorem mem_extensions {fields : Word.Fields} (h : fields ∈ c.extensions) :
    (∃ offsets, c.offsets = some offsets ∧ fields = offsetFields offsets) ∨
      fields = dimensionFields c.dimension c.structureStride ∨
        ∃ types, fields = returnFields types := by
  unfold extensions at h
  grind

theorem width_of_mem_extensions {fields : Word.Fields} (h : fields ∈ c.extensions) :
    fields.width = 31 := by
  obtain ⟨_, _, rfl⟩ | rfl | ⟨_, rfl⟩ := mem_extensions h <;> rfl

def addFields (c : SampleControls) (fields : Word.Fields) : SampleControls :=
  c.add (Word.linked fields false)

-- The link to the next word is no part of what a word says.
theorem add_linked {c' : SampleControls} {fields : Word.Fields} (hc : c.Valid)
    (h : fields ∈ c.extensions) : c'.add (Word.linked fields more) = c'.addFields fields := by
  unfold addFields
  obtain ⟨_, ho, rfl⟩ | rfl | ⟨_, rfl⟩ := mem_extensions h
  case inl => rw [add_offsets (hc.offsets _ ho), add_offsets (hc.offsets _ ho)]
  case inr.inl => rw [add_dimension hc.stride, add_dimension hc.stride]
  case inr.inr => rw [add_return, add_return]

theorem foldl_extensions (hc : c.Valid) :
    c.extensions.foldl addFields {} = { c with saturate := false } := by
  obtain ⟨_, offsets, dimension, stride, returnType⟩ := c
  rw [extensions, List.foldl_append, List.foldl_append]
  have hoffsets : (offsets.toList.map offsetFields).foldl addFields {} = { offsets } := by
    cases offsets
    case none => rfl
    case some offsets => simp [addFields, add_offsets (hc.offsets offsets rfl)]
  have hdimension : List.foldl addFields { offsets }
      (if dimension = none ∧ stride = none then [] else [dimensionFields dimension stride]) =
      { offsets, dimension, structureStride := stride } := by
    split
    case isTrue h => rw [h.left, h.right, List.foldl_nil]
    case isFalse => rw [List.foldl_cons, List.foldl_nil, addFields, add_dimension hc.stride]
  rw [hoffsets, hdimension]
  cases returnType
  case none => rfl
  case some => simp [addFields, add_return]

end SampleControls

namespace Controls

def Valid : Controls → Prop
  | alu _ preciseMask => preciseMask < 16
  | sample c => c.Valid
  | _ => True

-- The bits of an opcode token between the opcode and the length.
def fields : Controls → Word.Fields
  | alu saturate preciseMask => [(2, 0), (1, saturate.toNat), (5, 0), (4, preciseMask), (1, 0)]
  | conditional test => [(7, 0), (1, (decide (test = .nonZero)).toNat), (5, 0)]
  | sample c => [(2, 0), (1, c.saturate.toNat), (10, 0)]
  | resInfo format saturate => [(2, format.raw), (1, saturate.toNat), (10, 0)]
  | sampleInfo uintResult saturate =>
    [(1, uintResult.toNat), (1, 0), (1, saturate.toNat), (10, 0)]
  | sync flags => [(4, flags.bits), (9, 0)]
  | interfaceCall _ | flow | phaseMarker => [(13, 0)]

-- What the extension words tell.
def sampling : Controls → SampleControls
  | sample c => { c with saturate := false }
  | _ => {}

def extensions : Controls → List Word.Fields
  | sample c => c.extensions
  | _ => []

theorem foldl_extensions {c : Controls} (h : c.Valid) :
    c.extensions.foldl SampleControls.addFields {} = c.sampling := by
  cases c
  case sample => exact SampleControls.foldl_extensions h
  all_goals rfl

-- Words between the extension words and the operands.
def words : Controls → List UInt32
  | interfaceCall functionIndex => [functionIndex]
  | _ => []

end Controls

mutual

-- An operand with the operands inside its indices.
inductive OperandTree where
  | node (head : OperandHead) (indices : List IndexTree)

inductive IndexTree where
  | imm (n : UInt32)
  | wide (n : UInt64)
  | relative (op : OperandTree)
  | immRelative (n : UInt32) (op : OperandTree)
  | wideRelative (n : UInt64) (op : OperandTree)

end

def IndexTree.form : IndexTree → Nat
  | imm _ => 0
  | wide _ => 1
  | relative _ => 2
  | immRelative _ _ => 3
  | wideRelative _ _ => 4

theorem IndexTree.form_lt (i : IndexTree) : i.form < 8 := by
  cases i <;> simp [form]

def Immediate.encode : Immediate → List UInt32
  | words lanes n => lanes.toList.take n
  | longs xy zw n => ([xy, zw].take n).flatMap fun v => [Word.low v, Word.high v]

mutual

def OperandTree.encode : OperandTree → List UInt32
  | .node head indices =>
    Word.pack (head.fields (indices.map IndexTree.form)) :: Word.chain head.extensions ++
      IndexTree.encodeAll indices ++ (head.immediate.elim [] Immediate.encode)

def IndexTree.encode : IndexTree → List UInt32
  | .imm n => [n]
  | .wide n => [Word.high n, Word.low n]
  | .relative op => op.encode
  | .immRelative n op => n :: op.encode
  | .wideRelative n op => Word.high n :: Word.low n :: op.encode

def IndexTree.encodeAll : List IndexTree → List UInt32
  | [] => []
  | i :: is => i.encode ++ IndexTree.encodeAll is

end

mutual

def OperandTree.Valid : OperandTree → Prop
  | .node head indices => head.Valid ∧ indices.length ≤ 3 ∧ IndexTree.AllValid indices

def IndexTree.Valid : IndexTree → Prop
  | .imm _ | .wide _ => True
  | .relative op | .immRelative _ op | .wideRelative _ op => op.Valid

def IndexTree.AllValid : List IndexTree → Prop
  | [] => True
  | i :: is => i.Valid ∧ IndexTree.AllValid is

end

mutual

-- The tree stands in an arena, with its root at the given place.
def OperandTree.At (arena : Arena) : OperandTree → OperandId → Prop
  | .node head indices, id =>
    ∃ is, arena[id]? = some (head.operand is) ∧ IndexTree.AllAt arena indices is

def IndexTree.At (arena : Arena) : IndexTree → Index → Prop
  | .imm n, i => i = .imm n
  | .wide n, i => i = .wide n
  | .relative op, i => ∃ id, i = .relative id ∧ op.At arena id
  | .immRelative n op, i => ∃ id, i = .immRelative n id ∧ op.At arena id
  | .wideRelative n op, i => ∃ id, i = .wideRelative n id ∧ op.At arena id

def IndexTree.AllAt (arena : Arena) : List IndexTree → List Index → Prop
  | [], is => is = []
  | t :: ts, is => ∃ i rest, is = i :: rest ∧ t.At arena i ∧ IndexTree.AllAt arena ts rest

end

structure InstructionTree where
  opcode   : Opcode
  controls : Controls
  operands : List OperandTree := []

namespace InstructionTree

def body (t : InstructionTree) : List UInt32 :=
  Word.chain t.controls.extensions ++ t.controls.words ++ t.operands.flatMap OperandTree.encode

def fields (t : InstructionTree) : Word.Fields :=
  (11, t.opcode.raw) :: t.controls.fields ++
    [(7, t.body.length + 1), (1, (!t.controls.extensions.isEmpty).toNat)]

def encode (t : InstructionTree) : List UInt32 :=
  Word.pack t.fields :: t.body

structure Valid (t : InstructionTree) : Prop where
  isInstruction : ¬t.opcode.isDeclaration
  kind          : t.controls.kind = t.opcode.kind
  controls      : t.controls.Valid
  count         : t.opcode.operandCount = some t.operands.length
  operands      : ∀ op ∈ t.operands, op.Valid
  length        : t.encode.length ≤ 127

-- An instruction at the given position whose operands are the given trees.
structure At (arena : Arena) (position : Nat) (t : InstructionTree) (inst : Instruction) :
    Prop where
  opcode   : inst.opcode = t.opcode
  controls : inst.controls = t.controls
  position : inst.position = position
  operands : List.Forall₂ (OperandTree.At arena) t.operands inst.operands

section Token

variable {t : InstructionTree}

theorem width_fields : t.fields.width ≤ 32 := by
  unfold fields
  cases t.controls <;> exact Nat.le_refl 32

theorem ofRaw?_bits : Opcode.ofRaw? (Word.bits (Word.pack t.fields) 0 11) = some t.opcode := by
  have hall : ∀ op ∈ Opcode.all, op.raw < 2 ^ 11 := by decide +kernel
  rw [Word.bits_pack width_fields rfl (hall t.opcode t.opcode.mem_all)]
  exact t.opcode.ofRaw?_raw

theorem bits_length (h : t.encode.length ≤ 127) :
    Word.bits (Word.pack t.fields) 24 7 = t.encode.length := by
  refine Word.bits_pack width_fields ?_ (by omega)
  unfold fields
  cases t.controls <;> rfl

theorem bit_isExtended :
    Word.bit (Word.pack t.fields) 31 = !t.controls.extensions.isEmpty := by
  refine Word.bit_pack width_fields ?_
  unfold fields
  cases t.controls <;> rfl

theorem get?_controls (offset : Nat) {width value : Nat}
    (h : t.controls.fields.get? offset width = some value) :
    t.fields.get? (11 + offset) width = some value := by
  rw [fields, List.cons_append, Word.Fields.get?, if_neg (by omega), if_pos (by omega),
    Nat.add_sub_cancel_left]
  exact Word.Fields.get?_append h

theorem bits_controls (offset : Nat) {width value : Nat} (hv : value < 2 ^ width)
    (h : t.controls.fields.get? offset width = some value) :
    Word.bits (Word.pack t.fields) (11 + offset) width = value :=
  Word.bits_pack width_fields (get?_controls offset h) hv

theorem bit_controls (offset : Nat) {b : Bool}
    (h : t.controls.fields.get? offset 1 = some b.toNat) :
    Word.bit (Word.pack t.fields) (11 + offset) = b :=
  Word.bit_pack width_fields (get?_controls offset h)

end Token

end InstructionTree

end ShaderLift
