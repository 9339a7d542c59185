import ShaderLift.Proofs.Bounds.Files
import ShaderLift.Proofs.Lift.Globals
import ShaderLift.Proofs.Lift.Lane

/-!
Registers, shared memory and the bytes of constants are counted in words of 32 bits. Each count is
stated here in numbers that do not wrap around: the word is that number exactly if the number is
below 2^32, which is a condition on what the program names. Builds with checks stop where it is not.
-/

namespace ShaderLift

open Glsl

-- What checks do to a step that calculates: it stops where a number does not fit into a word, and
-- otherwise goes on as it does without them.
structure Options.Guards {α : Type} (o : Options) (fits : Prop)
    (step : Options → Except LiftError α) : Prop where
  stops : o.checked → ¬fits → step o = .error .overflow
  goes  : (o.checked → fits) → step o = step { o with checked := false }

namespace Options

variable {α : Type} {o : Options} {fits fits' : Prop} {step k : Options → Except LiftError α}

theorem guards_of_requireWords {ns : List Nat}
    (hstep : ∀ o, step o = o.requireWords ns >>= fun _ => k o)
    (hk : ∀ o, k o = k { o with checked := false }) :
    o.Guards (∀ n ∈ ns, n < 2 ^ 32) step := by
  constructor
  case stops =>
    intro hw hfits
    push Not at hfits
    rw [hstep, requireWords_eq_error_iff.mpr ⟨rfl, hw, hfits⟩]
    rfl
  case goes =>
    intro hfits
    have hunchecked : requireWords { o with checked := false } ns = .ok () :=
      requireWords_eq_ok_iff.mpr nofun
    rw [hstep, hstep, requireWords_eq_ok_iff.mpr hfits, hunchecked]
    exact hk o

theorem Guards.congr (h : o.Guards fits step) (hf : fits ↔ fits') : o.Guards fits' step :=
  propext hf ▸ h

theorem Guards.fits_of_ok (h : o.Guards fits step) {a : α} (ha : step o = .ok a)
    (hw : o.checked) : fits :=
  by_contra fun hf => nomatch (h.stops hw hf).symm.trans ha

end Options

-- A count that reaches as far as the last of some ends.
def IsReach (n : Nat) (ends : Nat → Prop) : Prop :=
  ∀ k, k < n ↔ ∃ m, ends m ∧ k < m

-- A greatest word is the greatest number only if no number had to be cut off.
theorem isReach_toNat_iff {n : UInt32} {ends : Nat → Prop}
    (h : ∀ k, k < n ↔ ∃ m, ends m ∧ k < UInt32.ofNat m) :
    IsReach n.toNat ends ↔ ∀ m, ends m → m < 2 ^ 32 := by
  have hn := n.toNat_lt
  constructor
  case mp =>
    intro hreach m hm
    by_contra hlarge
    exact Nat.lt_irrefl _ ((hreach n.toNat).mpr ⟨m, hm, by omega⟩)
  case mpr =>
    intro hfits k
    by_cases hk : k < 2 ^ 32
    case pos =>
      have hword := h (.ofNat k)
      simp only [UInt32.lt_iff_toNat_lt, UInt32.toNat_ofNat_of_lt' hk] at hword
      refine hword.trans (exists_congr fun m => and_congr_right fun hm => ?_)
      rw [UInt32.toNat_ofNat_of_lt' (hfits m hm)]
    case neg =>
      refine iff_of_false (by omega) fun ⟨m, hm, hlt⟩ => ?_
      have := hfits m hm
      omega

theorem toNat_add_one_lt_iff {register : UInt32} :
    register.toNat + 1 < 2 ^ 32 ↔ register ≠ 0xffffffff := by
  have hlast : register ≠ 0xffffffff ↔ register.toNat ≠ 0xffffffff := UInt32.toNat_inj.symm.not
  have := register.toNat_lt
  rw [hlast]
  omega

-- The lengths of the arrays that are declared for a file.
def FileSizes.HasLength (s : FileSizes) (stage : Stage) (file : RegisterFile) (length : Nat) :
    Prop :=
  ∃ n, Decl.file file n ∈ s.decls stage ∧ n.toNat = length

namespace Program

variable {p : Program} {written : TempTypes} {entries : Signature} {kinds : List RegisterKind}
variable {n : UInt32}

-- Where the temporary registers end that a program declares or writes.
inductive TempEnds (p : Program) (written : TempTypes) : Nat → Prop
  | counted {decl count} (mem : decl ∈ p.declarations) (declares : decl.declared = .temps count) :
      TempEnds p written count.toNat
  | written {register} (mem : register ∈ written.keys) : TempEnds p written (register.toNat + 1)

theorem isReach_tempCount_iff : IsReach (p.tempCount written).toNat (p.TempEnds written) ↔
    0xffffffff ∉ written.keys := by
  have hcount (k : UInt32) : k < p.tempCount written ↔
      ∃ m, p.TempEnds written m ∧ k < UInt32.ofNat m := by
    rw [lt_tempCount]
    constructor
    case mp =>
      rintro (⟨decl, hdecl, count, hcount, hlt⟩ | ⟨top, htop, hlt⟩)
      · exact ⟨_, .counted hdecl hcount, by simpa using hlt⟩
      · exact ⟨_, .written htop, by simpa using hlt⟩
    case mpr =>
      rintro ⟨_, ⟨hdecl, hcount⟩ | htop, hlt⟩
      · exact .inl ⟨_, hdecl, _, hcount, by simpa using hlt⟩
      · exact .inr ⟨_, htop, by simpa using hlt⟩
  rw [isReach_toNat_iff hcount]
  constructor
  case mp => exact fun h hlast => absurd (h _ (.written hlast)) (by decide)
  case mpr =>
    rintro hlast _ (hdecl | htop)
    · exact UInt32.toNat_lt _
    · exact toNat_add_one_lt_iff.mpr fun he => hlast (he ▸ htop)

theorem guards_temps {o : Options} {d : Dialect} {r : Resources}
    (h : p.writtenTemps d r .empty p.instructions = .ok written) :
    o.Guards (0xffffffff ∉ written.keys) (p.temps · d r) := by
  have hkeys : (∀ n ∈ written.keys.map (·.toNat + 1), n < 2 ^ 32) ↔
      0xffffffff ∉ written.keys := by
    simp only [List.forall_mem_map, toNat_add_one_lt_iff]
    exact ⟨fun h hlast => h _ hlast rfl, fun h _ hr he => h (he ▸ hr)⟩
  refine Options.Guards.congr ?_ hkeys
  apply Options.guards_of_requireWords
  case hstep =>
    intro o
    simp only [temps, h]
    rfl
  case hk => exact fun _ => rfl

-- Where the registers of a file end that a program reaches.
def Ends (p : Program) (entries : Signature) (kinds : List RegisterKind) (n : Nat) : Prop :=
  ∃ first count, p.Stretch entries kinds first count ∧ n = first.toNat + count.toNat

-- The operands and ranges of a file end in words. Signatures need no condition: the only register
-- without a successor stands for none.
structure RegistersFit (p : Program) (kinds : List RegisterKind) : Prop where
  declared : ∀ decl ∈ p.declarations, ∀ id r, decl.declared.register? = some id →
    p.Names kinds id r → r ≠ 0xffffffff
  range    : ∀ decl ∈ p.declarations, ∀ id count r, decl.declared = .indexRange id count →
    p.Names kinds id r → r.toNat + count.toNat < 2 ^ 32
  taken    : ∀ id r, p.Takes id → p.Names kinds id r → r ≠ 0xffffffff

theorem forall_ends_lt_iff (entries : Signature) :
    (∀ m, p.Ends entries kinds m → m < 2 ^ 32) ↔ p.RegistersFit kinds := by
  constructor
  case mp =>
    intro h
    have fits {first count : UInt32} (hs : p.Stretch entries kinds first count) :=
      h _ ⟨_, _, hs, rfl⟩
    constructor
    case declared =>
      exact fun decl hdecl id r hd hr => toNat_add_one_lt_iff.mp (fits (.declared hdecl hd hr))
    case range => exact fun decl hdecl id count r hd hr => fits (.range hdecl hd hr)
    case taken => exact fun id r hid hr => toNat_add_one_lt_iff.mp (fits (.taken hid hr))
  case mpr =>
    rintro hfit _ ⟨_, _, ⟨he, hne⟩ | ⟨hdecl, hd, hr⟩ | ⟨hdecl, hd, hr⟩ | ⟨hid, hr⟩, rfl⟩
    · exact toNat_add_one_lt_iff.mpr hne
    · exact toNat_add_one_lt_iff.mpr (hfit.declared _ hdecl _ _ hd hr)
    · exact hfit.range _ hdecl _ _ _ hd hr
    · exact toNat_add_one_lt_iff.mpr (hfit.taken _ _ hid hr)

section Extent

variable {o : Options} (h : p.extent o entries kinds = .ok n)

include h

theorem isReach_extent_iff : IsReach n.toNat (p.Ends entries kinds) ↔ p.RegistersFit kinds := by
  have hextent (k : UInt32) : k < n ↔ ∃ m, p.Ends entries kinds m ∧ k < UInt32.ofNat m := by
    rw [lt_extent_iff h]
    constructor
    case mp =>
      rintro ⟨_, ⟨first, count, hs, rfl⟩, hlt⟩
      exact ⟨_, ⟨first, count, hs, rfl⟩, by simpa using hlt⟩
    case mpr =>
      rintro ⟨_, ⟨first, count, hs, rfl⟩, hlt⟩
      exact ⟨_, ⟨first, count, hs, rfl⟩, by simpa using hlt⟩
  rw [isReach_toNat_iff hextent, forall_ends_lt_iff]

-- Whether the registers fit is the same in all builds, as long as the operands are there.
theorem guards_extent {o' : Options} :
    o'.Guards (p.RegistersFit kinds) (p.extent · entries kinds) := by
  obtain ⟨stretches, hstretches, _⟩ := bind_eq_ok_iff.mp h
  have hends : (∀ n ∈ stretches.map fun x => x.1.toNat + x.2.toNat, n < 2 ^ 32) ↔
      p.RegistersFit kinds := by
    rw [← forall_ends_lt_iff entries]
    simp only [List.forall_mem_map, Prod.forall, mem_stretches_iff hstretches, Ends]
    grind
  refine Options.Guards.congr ?_ hends
  apply Options.guards_of_requireWords
  case hstep =>
    intro o
    simp only [extent, hstretches]
    rfl
  case hk => exact fun _ => rfl

end Extent

-- A length that wraps around to zero declares no array.
theorem isReach_hasLength_iff {sig : SignatureClass → Signature} {sizes : FileSizes}
    {file : RegisterFile} {contents : Contents}
    {o : Options} (h : p.fileSizes o (sig .input) (sig .output) (sig .patch) = .ok sizes)
    (hc : p.contents? file = some contents) :
    IsReach (contents.vertices.toNat * (sizes.registers contents.kind).toNat)
      (sizes.HasLength p.stage file) ↔
    contents.vertices.toNat * (sizes.registers contents.kind).toNat < 2 ^ 32 := by
  have hword (k : Nat) : (∃ m, sizes.HasLength p.stage file m ∧ k < m) ↔
      k < (contents.vertices * sizes.registers contents.kind).toNat := by
    have hlengths : (∃ m, sizes.HasLength p.stage file m ∧ k < m) ↔
        ∃ n, Decl.file file n ∈ sizes.decls p.stage ∧ k < n.toNat := by
      simp [FileSizes.HasLength, and_comm]
    by_cases hk : k < 2 ^ 32
    case pos =>
      have hplaces : (∃ n, Decl.file file n ∈ sizes.decls p.stage ∧ .ofNat k < n) ↔ _ :=
        mem_fileDecls_iff h
      simp only [UInt32.lt_iff_toNat_lt, UInt32.toNat_ofNat_of_lt' hk] at hplaces
      rw [hlengths, hplaces]
      simp [hc]
    case neg =>
      rw [hlengths]
      refine iff_of_false (fun ⟨n, _, hlt⟩ => ?_) ?_
      case refine_1 => exact hk (hlt.trans n.toNat_lt)
      case refine_2 => exact fun hlt => hk (hlt.trans (UInt32.toNat_lt _))
  have hproduct := UInt32.toNat_mul contents.vertices (sizes.registers contents.kind)
  unfold IsReach
  simp only [hword, hproduct]
  constructor
  case mp =>
    intro h
    rw [eq_of_forall_lt_iff h]
    exact Nat.mod_lt _ (by decide)
  case mpr =>
    intro h k
    rw [Nat.mod_eq_of_lt h]

end Program

theorem toNat_quarter {n : UInt32} : (quarter n).toNat = (n.toNat + 3) / 4 := by
  have hn := n.toNat_lt
  have hdiv : (n / 4).toNat = n.toNat / 4 := UInt32.toNat_div n 4
  have hmod : n % 4 = 0 ↔ n.toNat % 4 = 0 := by
    rw [← UInt32.toNat_inj, UInt32.toNat_mod]
    rfl
  unfold quarter
  rw [UInt32.toNat_add, hdiv]
  split
  case isTrue h =>
    have h := hmod.mp h
    change (n.toNat / 4 + 0) % 2 ^ 32 = _
    omega
  case isFalse h =>
    have h := mt hmod.mpr h
    change (n.toNat / 4 + 1) % 2 ^ 32 = _
    omega

namespace Resources

open Std.Do

set_option mvcgen.warning false

variable {d : Dialect} {p : Program} {r r' : Resources} {inst : Instruction} {slot : UInt32}

-- The shared memory that a declaration makes.
inductive Shares : Declared → UInt32 × SharedMemory → Prop
  | raw {slot bytes} : Shares (.tgsmRaw slot bytes) (slot, ⟨.raw, quarter bytes⟩)
  | structured {slot stride count} : Shares (.tgsmStructured slot stride count)
      (slot, ⟨.structured stride, quarter (stride * count)⟩)

-- All shared memory is declared.
def Sharing (p : Program) (r : Resources) : Prop :=
  ∀ e ∈ r.shared.entries, ∃ decl ∈ p.declarations, Shares decl.declared e

theorem Sharing.declare (h : r.Sharing p) {decl : Declaration} (hdecl : decl ∈ p.declarations) :
    (r.declare d p decl.declared).Sharing p := by
  have hinsert {slot : UInt32} {m : SharedMemory} (hshares : Shares decl.declared (slot, m)) :
      ∀ e ∈ (r.shared.insert slot m).entries, ∃ decl ∈ p.declarations, Shares decl.declared e := by
    intro e he
    cases SortedMap.mem_insert he
    case inl he => exact h e he
    case inr he => exact ⟨decl, hdecl, he ▸ hshares⟩
  generalize hd : decl.declared = declared at hinsert
  cases declared
  case tgsmRaw => exact hinsert .raw
  case tgsmStructured => exact hinsert .structured
  all_goals exact h

theorem Sharing.congr (h : r.Sharing p) (hshared : r'.shared = r.shared) : r'.Sharing p :=
  fun e he => h e (hshared ▸ he)

-- Instructions share nothing.
theorem shared_of_sampleUse {i : Nat} {texture : Option UInt32}
    (h : r.sampleUse p i inst = .ok (r', texture)) : r'.shared = r.shared := by
  have huse : ⦃⌜True⌝⦄ r.sampleUse p i inst ⦃⇓? s => ⌜s.1.shared = r.shared⌝⦄ := by
    unfold sampleUse
    mvcgen [slotOf_spec]
  exact returns_iff.mp huse _ h

theorem shared_of_uavUse (h : r.uavUse p inst = .ok r') : r'.shared = r.shared := by
  have huse : ⦃⌜True⌝⦄ r.uavUse p inst ⦃⇓? s => ⌜s.shared = r.shared⌝⦄ := by
    unfold uavUse
    mvcgen [slotOf_spec]
  exact returns_iff.mp huse _ h

theorem shared_of_scan {insts : List (Instruction × Nat)} {fetched fetched' : List UInt32}
    (h : scan p r fetched insts = .ok (r', fetched')) : r'.shared = r.shared := by
  induction insts generalizing r fetched
  case nil => cases h; rfl
  case cons hi =>
    obtain ⟨⟨r₁, texture⟩, h₁, h⟩ := bind_eq_ok_iff.mp h
    obtain ⟨r₂, h₂, h⟩ := bind_eq_ok_iff.mp h
    exact (hi h).trans ((shared_of_uavUse h₂).trans (shared_of_sampleUse h₁))

theorem shared_addFetched {texture : UInt32} : (r.addFetched texture).shared = r.shared := by
  unfold addFetched
  split <;> rfl

theorem sharing_of_collect (h : collect d p = .ok r) : r.Sharing p := by
  have hdeclared :=
    List.foldlRecOn (motive := Sharing p) p.declarations
      (fun r decl => r.declare d p decl.declared) (b := {}) (List.forall_mem_nil _)
      fun _ hr _ hdecl => Sharing.declare hr hdecl
  obtain ⟨⟨scanned, fetched⟩, hscan, h⟩ := bind_eq_ok_iff.mp h
  cases h
  refine List.foldlRecOn (motive := Sharing p) fetched _ ?_ fun _ hr _ _ => ?_
  case refine_1 => exact hdeclared.congr (shared_of_scan hscan)
  case refine_2 => exact hr.congr shared_addFetched

theorem toNat_words_iff {stride words : UInt32} (h : collect d p = .ok r)
    (hm : r.shared.get? slot = some ⟨.structured stride, words⟩) :
    ∃ decl ∈ p.declarations, ∃ count, decl.declared = .tgsmStructured slot stride count ∧
      (words.toNat = (stride.toNat * count.toNat + 3) / 4 ↔
        stride.toNat * count.toNat < 2 ^ 32) := by
  obtain ⟨decl, hdecl, hshares⟩ := sharing_of_collect h _ (SortedMap.mem_entries_of_get? hm)
  generalize hd : decl.declared = declared at hshares
  cases hshares
  case structured count =>
    refine ⟨decl, hdecl, count, hd, ?_⟩
    rw [toNat_quarter, UInt32.toNat_mul]
    omega

end Resources

namespace Context

variable {c : Context} {nested : OperandId → Except LiftError Expr} {file : RegisterFile}
variable {stride outer inner : UInt32} {op : Operand}

theorem vertexElement_eq (ho : op.indices[0]?.bind Index.static? = some outer)
    (hi : op.indices[1]?.bind Index.static? = some inner) :
    c.vertexElement nested file stride op =
      c.options.requireWords [outer.toNat * stride.toNat + inner.toNat] >>= fun _ =>
        .ok (.index (.var (.file file)) (.number (outer * stride + inner))) := by
  obtain ⟨o, ho, houter⟩ := Option.bind_eq_some_iff.mp ho
  obtain ⟨i, hi, hinner⟩ := Option.bind_eq_some_iff.mp hi
  simp only [vertexElement, nthIndex, orUnsupported, flatIndex, ho, hi, houter, hinner, bind,
    Except.bind]
  cases c.options.requireWords [outer.toNat * stride.toNat + inner.toNat] <;> rfl

theorem guards_vertexElement {o : Options} (ho : op.indices[0]?.bind Index.static? = some outer)
    (hi : op.indices[1]?.bind Index.static? = some inner) :
    o.Guards (outer.toNat * stride.toNat + inner.toNat < 2 ^ 32)
      fun o => { c with options := o }.vertexElement nested file stride op :=
  (Options.guards_of_requireWords (fun _ => vertexElement_eq ho hi) fun _ => rfl).congr
    List.forall_mem_singleton

theorem guards_namedConstants {o : Options} {slot register : UInt32} {ms : List Member}
    {component : Nat} {want : ValueType}
    (h : (op.indices[1]?.getD (Index.imm 0)).static? = some register) :
    o.Guards (∀ n ∈ Member.laneNumbers ms register component, n < 2 ^ 32)
      fun o => { c with options := o }.namedConstants slot ms op [component] want := by
  apply Options.guards_of_requireWords
  case hstep =>
    intro o
    simp only [namedConstants, h, orUnresolved, List.mapM_cons, List.mapM_nil, bind_assoc]
    rfl
  case hk => exact fun _ => rfl

theorem toNat_place_iff : (outer * stride + inner).toNat =
      outer.toNat * stride.toNat + inner.toNat ↔
    outer.toNat * stride.toNat + inner.toNat < 2 ^ 32 := by
  rw [UInt32.toNat_add, UInt32.toNat_mul, Nat.mod_add_mod]
  omega

end Context

namespace Member

variable {d : Dialect} {m : Member} {ms : List Member} {register : UInt32} {component : Nat}

-- The last byte that a word can number is never before an end that wraps around.
theorem Regular.forall_covers_iff (h : m.Regular) :
    (∀ byte, covers byte m ↔ m.Holds byte.toNat) ↔ m.offset.toNat + m.bytes < 2 ^ 32 := by
  constructor
  case mp =>
    intro hcovers
    by_contra hlarge
    have hoffset := m.offset.toNat_lt
    have hholds : m.Holds (0xffffffff : UInt32).toNat := by
      constructor
      · change m.offset.toNat ≤ 0xffffffff
        omega
      · change 0xffffffff < m.offset.toNat + m.bytes
        omega
    have hcovers := (hcovers 0xffffffff).mpr hholds
    simp only [covers, Bool.and_eq_true, decide_eq_true_eq, UInt32.lt_iff_toNat_lt] at hcovers
    have hend := (m.offset + m.extent).toNat_lt
    have hlt : 0xffffffff < (m.offset + m.extent).toNat := hcovers.right
    omega
  case mpr => exact fun he byte => h.covers_iff he

-- A value is found by its byte alone.
theorem laneAt_eq_value_iff {e : Expr} {type : ValueType} :
    laneAt d ms register component = .value e type ↔
      ∃ m, ms.find? (covers (register * 16 + .ofNat component * 4)) = some m ∧
        m.lane d (register * 16 + .ofNat component * 4 - m.offset) = .value e type := by
  unfold laneAt
  dsimp only
  split
  case h_1 m hm => simp [hm]
  case h_2 hm =>
    simp only [hm, reduceCtorEq, false_and, exists_false, iff_false]
    split <;> nofun

-- Registers whose bytes are the same words are the same register.
theorem laneAt_wraps (hc : component < 4) {e : Expr} {type : ValueType} :
    laneAt d ms register component = .value e type ↔
      laneAt d ms (register % 0x10000000) component = .value e type := by
  have hbyte : register * 16 + .ofNat component * 4 =
      register % 0x10000000 * 16 + .ofNat component * 4 := by
    rw [← UInt32.toNat_inj, toNat_byte_mod hc, toNat_byte_mod hc, UInt32.toNat_mod]
    change _ = (16 * (register.toNat % 2 ^ 28) + 4 * component) % 2 ^ 32
    omega
  rw [laneAt_eq_value_iff, laneAt_eq_value_iff, hbyte]

theorem exists_value_iff_firstLane (hms : ∀ m ∈ ms, m.Regular)
    (hr : 16 * register.toNat + 16 ≤ 2 ^ 32) (hc : component < 4)
    (hfound : ∀ m, ms.find? (Holds (16 * register.toNat + 4 * component)) = some m →
      m.offset.toNat + m.bytes < 2 ^ 32) :
    (∃ e type, laneAt d ms register component = .value e type) ↔
      ∃ m q l, FirstLane ms (16 * register.toNat + 4 * component) m q l := by
  rcases laneAt_cases_of_found (d := d) hms hr hc hfound with
    ⟨m, q, l, _, hfirst, hvalue, _⟩ | ⟨hnone, hvalue⟩
  · exact iff_of_true ⟨_, _, hvalue⟩ ⟨m, q, l, hfirst⟩
  · exact iff_of_false (fun ⟨e, type, h⟩ => hvalue e type h) hnone

-- The numbers that are checked are all that matter.
theorem exists_value_iff_of_laneNumbers (hms : ∀ m ∈ ms, m.Regular) (hc : component < 4)
    (hn : ∀ n ∈ laneNumbers ms register component, n < 2 ^ 32) :
    (∃ e type, laneAt d ms register component = .value e type) ↔
      ∃ m q l, FirstLane ms (16 * register.toNat + 4 * component) m q l := by
  have hbyte : 16 * register.toNat + 4 * component < 2 ^ 32 := hn _ List.mem_cons_self
  refine exists_value_iff_firstLane hms (by omega) hc fun m hm => hn _ ?_
  simp [laneNumbers, hm]

variable (hms : ∀ m ∈ ms, m.Regular ∧ m.offset.toNat + m.bytes < 2 ^ 32) (hc : component < 4)
include hms hc

theorem exists_value_iff : (∃ e type, laneAt d ms register component = .value e type) ↔
    ∃ m q l, FirstLane ms ((16 * register.toNat + 4 * component) % 2 ^ 32) m q l := by
  have hregister : (register % 0x10000000).toNat = register.toNat % 2 ^ 28 := UInt32.toNat_mod ..
  have hbyte : 16 * (register % 0x10000000).toNat + 4 * component =
      (16 * register.toNat + 4 * component) % 2 ^ 32 := by
    omega
  have hr : 16 * (register % 0x10000000).toNat + 16 ≤ 2 ^ 32 := by omega
  have hwraps : (∃ e type, laneAt d ms register component = .value e type) ↔
      ∃ e type, laneAt d ms (register % 0x10000000) component = .value e type :=
    exists_congr fun _ => exists_congr fun _ => laneAt_wraps hc
  rw [hwraps, ← hbyte]
  exact exists_value_iff_firstLane (fun m hm => (hms m hm).left) hr hc fun m hm =>
    (hms m (List.mem_of_find?_eq_some hm)).right

-- No member holds a byte that a word cannot number, so what is found there is another register.
theorem exists_value_exact_iff :
    ((∃ e type, laneAt d ms register component = .value e type) ↔
      ∃ m q l, FirstLane ms (16 * register.toNat + 4 * component) m q l) ↔
    register.toNat < 2 ^ 28 ∨ ∀ e type, laneAt d ms register component ≠ .value e type := by
  by_cases hr : register.toNat < 2 ^ 28
  case pos =>
    have hvalue : (∃ e type, laneAt d ms register component = .value e type) ↔ _ :=
      exists_value_iff hms hc
    rw [Nat.mod_eq_of_lt (by omega)] at hvalue
    exact iff_of_true hvalue (.inl hr)
  case neg =>
    have hnone : ¬∃ m q l, FirstLane ms (16 * register.toNat + 4 * component) m q l := by
      rintro ⟨m, q, l, hfirst⟩
      have hholds : m.Holds (16 * register.toNat + 4 * component) := by
        simpa using List.find?_some hfirst.first
      have ⟨_, he⟩ := hms m (List.mem_of_find?_eq_some hfirst.first)
      have := hholds.right
      omega
    simp only [hr, hnone, iff_false, false_or, not_exists, ne_eq]

end Member

theorem Member.ends_of_fits {ms : List Member} {cursor : UInt32} (h : fits cursor ms) :
    ends cursor ms = ms.map fun m => m.offset.toNat + m.space := by
  induction ms generalizing cursor
  case nil => rfl
  case cons m ms hi =>
    have ⟨hm, hf⟩ := Bool.and_eq_true_iff.mp h
    rw [ends, if_pos hm, hi hf, List.map_cons]

theorem UniformBuffer.endsInRange_of_numbers {d : Dialect} {slot size : UInt32} {dynamic : Bool}
    {buffer : Option ConstantBuffer} (h : ∀ n ∈ numbers d dynamic buffer, n < 2 ^ 32) :
    (build d slot size dynamic buffer).EndsInRange := by
  intro hblock m hm
  cases hmembers : (build d slot size dynamic buffer).members
  case none => simp [hmembers] at hm
  case some ms =>
    obtain ⟨source, rfl, hsource, hfits⟩ := exists_of_build hmembers
    have hstatic : dynamic = false := by
      cases dynamic
      case false => rfl
      case true => cases hmembers
    have hmakes : makesBlock d (some source) := hblock
    have hnumbers : numbers d dynamic (some source) = ms.map fun m => m.offset.toNat + m.space := by
      rw [← Member.ends_of_fits (hfits hblock)]
      simp [numbers, hstatic, hmakes, hsource]
    rw [hmembers] at hm
    exact h _ (hnumbers ▸ List.mem_map_of_mem hm)

theorem Interface.exists_fileSizes {d : Dialect} {o : Options} {p : Program}
    {phases : Option Phases} {i : Interface} {sizes : FileSizes}
    (h : build d o p phases = .ok (i, sizes)) : ∃ sig : SignatureClass → Signature,
      p.fileSizes o (sig .input) (sig .output) (sig .patch) = .ok sizes := by
  obtain ⟨inputs, _, h⟩ := bind_eq_ok_iff.mp h
  obtain ⟨outputs, _, h⟩ := bind_eq_ok_iff.mp h
  obtain ⟨patch, _, h⟩ := bind_eq_ok_iff.mp h
  obtain ⟨_, hsizes, h⟩ := bind_eq_ok_iff.mp h
  obtain ⟨_, _, h⟩ := bind_eq_ok_iff.mp h
  obtain ⟨_, _, h⟩ := bind_eq_ok_iff.mp h
  obtain ⟨_, _, h⟩ := bind_eq_ok_iff.mp h
  cases h
  exact ⟨SignatureClass.rec inputs outputs patch, hsizes⟩

namespace Program

-- The numbers fit that a program is collected and declared with.
structure WordsFit (p : Program) (c : Context) : Prop where
  temps     : ∀ written, p.writtenTemps c.dialect c.resources .empty p.instructions = .ok written →
    0xffffffff ∉ written.keys
  registers : ∀ file contents, p.contents? file = some contents → p.RegistersFit contents.kinds
  places    : ∀ file contents, p.contents? file = some contents →
    contents.vertices.toNat * (c.sizes.registers contents.kind).toNat < 2 ^ 32
  shared    : ∀ decl ∈ p.declarations, ∀ slot stride count,
    decl.declared = .tgsmStructured slot stride count → stride.toNat * count.toNat < 2 ^ 32
  members   : ∀ b ∈ c.resources.constantBuffers.values, b.EndsInRange

theorem Lifted.wordsFit {p : Program} {o : Options} {s : Shader} {c : Context}
    {phases : Option Phases} (l : p.Lifted o s c phases) (hw : o.checked) : p.WordsFit c := by
  obtain ⟨sig, hsizes⟩ := Interface.exists_fileSizes l.interface
  have hnumbers := Options.requireWords_eq_ok_iff.mp l.numbers hw
  have hdeclared {decl : Declaration} (hdecl : decl ∈ p.declarations) {n : Nat} :=
    fun hn => hnumbers n (List.mem_flatMap.mpr ⟨decl, hdecl, hn⟩)
  constructor
  case temps => exact fun written hwritten => (guards_temps hwritten).fits_of_ok l.temps hw
  case registers =>
    intro file contents hc
    have hextent := extent_of_fileSizes hsizes hc
    exact (guards_extent hextent).fits_of_ok hextent hw
  case places => exact fun file contents hc => l.fits hsizes hc hw
  case shared =>
    intro decl hdecl slot stride count hd
    exact hdeclared hdecl (by simp [hd])
  case members =>
    refine List.forall_mem_map.mpr fun e he => ?_
    obtain ⟨size, dynamic, ⟨decl, hdecl, hd⟩, hb⟩ :=
      (Resources.built_of_collect l.resources).built e he
    rw [hb]
    exact UniformBuffer.endsInRange_of_numbers fun n hn => hdeclared hdecl (by simpa [hd] using hn)

-- Temporary registers, the registers of a file, the places of a file, shared memory, the places of
-- vertices, the bytes of constants, and all that is collected before functions are written.
theorem words_exact_iff (p : Program) (o : Options) :
    (∀ written : TempTypes, IsReach (p.tempCount written).toNat (p.TempEnds written) ↔
      0xffffffff ∉ written.keys) ∧
    (∀ d r written, p.writtenTemps d r .empty p.instructions = .ok written →
      o.Guards (0xffffffff ∉ written.keys) (p.temps · d r)) ∧
    (∀ entries kinds n, p.extent { o with checked := false } entries kinds = .ok n →
      (IsReach n.toNat (p.Ends entries kinds) ↔ p.RegistersFit kinds) ∧
      o.Guards (p.RegistersFit kinds) (p.extent · entries kinds)) ∧
    (∀ (sig : SignatureClass → Signature) sizes file contents,
      p.fileSizes o (sig .input) (sig .output) (sig .patch) = .ok sizes →
      p.contents? file = some contents →
        (IsReach (contents.vertices.toNat * (sizes.registers contents.kind).toNat)
          (sizes.HasLength p.stage file) ↔
        contents.vertices.toNat * (sizes.registers contents.kind).toNat < 2 ^ 32)) ∧
    (∀ d r slot stride words, Resources.collect d p = .ok r →
      r.shared.get? slot = some ⟨.structured stride, words⟩ →
        ∃ decl ∈ p.declarations, ∃ count, decl.declared = .tgsmStructured slot stride count ∧
          (words.toNat = (stride.toNat * count.toNat + 3) / 4 ↔
            stride.toNat * count.toNat < 2 ^ 32)) ∧
    (∀ (c : Context) nested file stride (op : Operand) outer inner,
      op.indices[0]?.bind Index.static? = some outer →
      op.indices[1]?.bind Index.static? = some inner →
        (∃ place, { c with options := { o with checked := false } }.vertexElement nested file
            stride op = .ok (.index (.var (.file file)) (.number place)) ∧
          (place.toNat = outer.toNat * stride.toNat + inner.toNat ↔
            outer.toNat * stride.toNat + inner.toNat < 2 ^ 32)) ∧
        o.Guards (outer.toNat * stride.toNat + inner.toNat < 2 ^ 32)
          fun o => { c with options := o }.vertexElement nested file stride op) ∧
    (∀ d buffer ms, Member.ofBuffer d buffer = some ms →
      (∀ m ∈ ms, (∀ byte, m.covers byte ↔ m.Holds byte.toNat) ↔
        m.offset.toNat + m.bytes < 2 ^ 32) ∧
      ((∀ m ∈ ms, m.offset.toNat + m.bytes < 2 ^ 32) → ∀ register component, component < 4 →
        ((∃ e type, Member.laneAt d ms register component = .value e type) ↔
          ∃ m q l, Member.FirstLane ms ((16 * register.toNat + 4 * component) % 2 ^ 32) m q l) ∧
        (((∃ e type, Member.laneAt d ms register component = .value e type) ↔
            ∃ m q l, Member.FirstLane ms (16 * register.toNat + 4 * component) m q l) ↔
          register.toNat < 2 ^ 28 ∨
            ∀ e type, Member.laneAt d ms register component ≠ .value e type)) ∧
      ∀ register component, component < 4 →
        (∀ n ∈ Member.laneNumbers ms register component, n < 2 ^ 32) →
          ((∃ e type, Member.laneAt d ms register component = .value e type) ↔
            ∃ m q l, Member.FirstLane ms (16 * register.toNat + 4 * component) m q l)) ∧
    (∀ (c : Context) slot ms (op : Operand) register component want,
      (op.indices[1]?.getD (Index.imm 0)).static? = some register →
        o.Guards (∀ n ∈ Member.laneNumbers ms register component, n < 2 ^ 32)
          fun o => { c with options := o }.namedConstants slot ms op [component] want) ∧
    (o.checked → ∀ s, p.lift o = .ok s → ∃ c phases, p.Lifted o s c phases ∧ p.WordsFit c) := by
  refine ⟨fun _ => isReach_tempCount_iff, fun _ _ _ => guards_temps,
    fun _ _ _ hn => ⟨isReach_extent_iff hn, guards_extent hn⟩, fun _ _ _ _ => isReach_hasLength_iff,
    fun _ _ _ _ _ => Resources.toNat_words_iff, fun c nested file stride op outer inner ho hi => ?_,
    fun d buffer ms hms => ?_, fun _ _ _ _ _ _ _ => Context.guards_namedConstants,
    fun hw s hs => ?_⟩
  case refine_1 =>
    exact ⟨⟨_, Context.vertexElement_eq ho hi, Context.toNat_place_iff⟩,
      Context.guards_vertexElement ho hi⟩
  case refine_2 =>
    have hregular := Member.regular_of_ofBuffer hms
    refine ⟨fun m hm => (hregular m hm).forall_covers_iff, fun hends register component hc => ?_,
      fun _ _ => Member.exists_value_iff_of_laneNumbers hregular⟩
    have hms : ∀ m ∈ ms, m.Regular ∧ m.offset.toNat + m.bytes < 2 ^ 32 :=
      fun m hm => ⟨hregular m hm, hends m hm⟩
    exact ⟨Member.exists_value_iff hms hc, Member.exists_value_exact_iff hms hc⟩
  case refine_3 =>
    obtain ⟨c, phases, l⟩ := exists_lifted hs
    exact ⟨c, phases, l, l.wordsFit hw⟩

-- The vertices of a triangle have 2^31 registers each, 2^32 bytes of memory are shared, and the
-- last temporary register is written.
def wideTriangle : Program where
  stage := .geometry
  declarations := [⟨.gsInputPrimitive .triangle, 0, 0⟩, ⟨.tgsmStructured 0 0x10000 0x10000, 0, 0⟩]
  instructions := [{ opcode := .mov, controls := .alu false 0, operands := [0, 0], position := 0 }]
  operands := #[{ register := .temp, indices := [.imm 0xffffffff] }]

def wideInputs : SignatureClass → Signature
  | .input => [⟨"TEXCOORD", 0, 0x7fffffff, .undefined, .float32, ⟨15⟩, ⟨15⟩, 0, none⟩]
  | _ => []

def tint : Member :=
  ⟨"tint", 0, .float, 1, 4, 0, false⟩

-- A vertex that is not there.
def farVertex : Operand :=
  { register := .input, indices := [.imm 0x80000000, .imm 0] }

-- A register of constants that is not there.
def farConstant : Operand :=
  { register := .constantBuffer, indices := [.imm 0, .imm 0x10000000] }

def emptyShader : Program where
  instructions := [{ opcode := .ret, controls := .flow, operands := [], position := 0 }]

theorem words_exact_iff_wideTriangle :
    ¬IsReach (wideTriangle.tempCount ⟨[(0xffffffff, .float)]⟩).toNat
      (wideTriangle.TempEnds ⟨[(0xffffffff, .float)]⟩) ∧
    wideTriangle.temps {} (.ofVersion .gl33) {} = .error .overflow ∧
    IsReach (2 ^ 31) (wideTriangle.Ends (wideInputs .input) [.input, .inputControlPoint]) ∧
    wideTriangle.extent {} (wideInputs .input) [.input, .inputControlPoint] = .ok 0x80000000 ∧
    (∃ sizes, wideTriangle.fileSizes {} (wideInputs .input) (wideInputs .output)
      (wideInputs .patch) = .ok sizes ∧ ¬IsReach (3 * 2 ^ 31) (sizes.HasLength .geometry .inputs)) ∧
    (∃ r words, Resources.collect (.ofVersion .gl33) wideTriangle = .ok r ∧
      r.shared.get? 0 = some ⟨.structured 0x10000, words⟩ ∧ words.toNat ≠ 2 ^ 30) ∧
    (∀ (c : Context) nested, (∃ place, { c with options := { checked := false } }.vertexElement
        nested .inputs 2 farVertex = .ok (.index (.var (.file .inputs)) (.number place)) ∧
        place.toNat ≠ 2 ^ 32) ∧
      { c with options := {} }.vertexElement nested .inputs 2 farVertex = .error .overflow) ∧
    (∃ e type, Member.laneAt (.ofVersion .gl33) [tint] 0x10000000 0 = .value e type ∧
      ¬∃ m q l, Member.FirstLane [tint] (2 ^ 32) m q l) ∧
    (∀ (c : Context) want, { c with options := {} }.namedConstants 0 [tint] farConstant [0] want =
      .error .overflow) ∧
    ∃ s c phases, emptyShader.lift {} = .ok s ∧ emptyShader.Lifted {} s c phases ∧
      emptyShader.WordsFit c := by
  obtain ⟨htemps, htempsStop, hfile, hlength, hshared, hplace, hconstants, hconstantsStop, _⟩ :=
    words_exact_iff wideTriangle {}
  obtain ⟨_, _, _, _, _, _, _, _, hlift⟩ := words_exact_iff emptyShader {}
  obtain ⟨hreach, hextent⟩ :=
    hfile (wideInputs .input) [.input, .inputControlPoint] 0x80000000 rfl
  have hnames (id : OperandId) (r : UInt32) :
      ¬wideTriangle.Names [.input, .inputControlPoint] id r := by
    rintro ⟨op, hop, hkind, _⟩
    obtain rfl : op = { register := .temp, indices := [.imm 0xffffffff] } := by
      simpa [wideTriangle] using Array.mem_of_getElem? hop
    simp at hkind
  have hfit : wideTriangle.RegistersFit [.input, .inputControlPoint] :=
    ⟨fun _ _ id r _ h => absurd h (hnames id r), fun _ _ id _ r _ h => absurd h (hnames id r),
      fun id r _ h => absurd h (hnames id r)⟩
  have hms : Member.ofBuffer (.ofVersion .gl33)
      ⟨"Params", 0, 16, [⟨"tint", 0, 16, .vector .float 4⟩]⟩ = some [tint] :=
    Member.ofBuffer_eq_some (by decide +kernel) (by decide)
  refine ⟨?temps, ?tempsStop, hreach.mpr hfit, hextent.goes fun _ => hfit, ⟨_, rfl, ?length⟩,
    ⟨_, _, rfl, rfl, ?shared⟩, fun c nested => ?place, ⟨_, _, rfl, ?constants⟩,
    fun c want => ?constantsStop, ?lift⟩
  case temps =>
    rw [htemps]
    decide
  case tempsStop => exact (htempsStop _ _ ⟨[(0xffffffff, .float)]⟩ rfl).stops rfl (by decide)
  case length => exact mt (hlength wideInputs _ .inputs _ rfl rfl).mp (by decide)
  case shared =>
    obtain ⟨decl, hdecl, count, hcount, hwords⟩ := hshared (.ofVersion .gl33) _ 0 0x10000 _ rfl rfl
    have hcount : count = 0x10000 := by
      simp only [wideTriangle, List.mem_cons, List.not_mem_nil, or_false] at hdecl
      rcases hdecl with rfl | rfl <;> cases hcount
      rfl
    subst hcount
    exact mt hwords.mp (by decide)
  case place =>
    obtain ⟨⟨place, helement, hexact⟩, hstop⟩ :=
      hplace c nested .inputs 2 farVertex 0x80000000 0 rfl rfl
    exact ⟨⟨place, helement, mt hexact.mp (by decide)⟩, hstop.stops rfl (by decide)⟩
  case constants =>
    obtain ⟨_, hexact⟩ := (hconstants _ _ _ hms).right.left (by decide) 0x10000000 0 (by decide)
    intro hfirst
    cases hexact.mp (iff_of_true ⟨_, _, rfl⟩ hfirst)
    case inl hfits => exact absurd hfits (by decide)
    case inr hnone => exact hnone _ _ rfl
  case constantsStop =>
    exact (hconstantsStop c 0 [tint] farConstant 0x10000000 0 want rfl).stops rfl (by decide)
  case lift =>
    obtain ⟨s, hs⟩ : ∃ s, emptyShader.lift {} = .ok s := ⟨_, rfl⟩
    obtain ⟨c, phases, l, hwords⟩ := hlift rfl s hs
    exact ⟨s, c, phases, hs, l, hwords⟩

-- A constant buffer of 16 bytes, read at byte 2^32: a build with checks stops, and without checks
-- the text is that of a program that reads its first register.
theorem constants_wrap_farRegister : ∃ p, decode (copiesConstant.set 14 0x10000000) = .ok p ∧
    (∃ op ∈ p.operands.toList,
      op.register = .constantBuffer ∧ op.indices = [.imm 0, .imm 0x10000000]) ∧
    ∃ linked, (p.withConstant "tint").link = .ok linked ∧ linked.lift {} = .error .overflow ∧
      ∃ s, linked.lift { checked := false } = .ok s ∧
        ∃ near, decode copiesConstant = .ok near ∧
          ∃ linked, (near.withConstant "tint").link = .ok linked ∧
            ∃ t, linked.lift {} = .ok t ∧ s.text = t.text := by
  decide +kernel

end Program

end ShaderLift
