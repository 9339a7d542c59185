import ShaderLift.Proofs.Lift.Declared

/-!
The temporary registers that a program gets: those below a declared count or below one that is
written, and those that instructions name. Of the registers that only stand in indices, those of the
operands themselves are found, and those further down are not.
-/

namespace ShaderLift

def Operand.IsTemp (op : Operand) (register : UInt32) : Prop :=
  op.register = .temp ∧ op.slot? = some register

namespace Program

-- The operand or one of its own indices is the register.
inductive NamesIn (p : Program) (register : UInt32) (id : OperandId) : Prop
  | operand {op} (operand : p.operands[id]? = some op) (temp : op.IsTemp register)
  | index {op index inner op'} (operand : p.operands[id]? = some op) (mem : index ∈ op.indices)
      (relative : index.relative? = some inner) (nested : p.operands[inner]? = some op')
      (temp : op'.IsTemp register)

def NamesTemp (p : Program) (register : UInt32) : Prop :=
  ∃ inst ∈ p.instructions, ∃ id ∈ inst.operands, p.NamesIn register id

-- The count above the last register there can be wraps, and counts none.
inductive HasTemp (p : Program) (written : TempTypes) (register : UInt32) : Prop
  | counted {decl count} (mem : decl ∈ p.declarations) (declared : decl.declared = .temps count)
      (lt : register < count)
  | below {top} (mem : top ∈ written.keys) (lt : register < top + 1)
  | named (names : p.NamesTemp register)

variable {p : Program} {d : Dialect} {r : Resources} {temps temps' : TempTypes}
variable {inst : Instruction} {id : OperandId} {register : UInt32} {count : UInt32}

theorem operand_eq_ok_iff {op : Operand} : p.operand id = .ok op ↔ p.operands[id]? = some op := by
  unfold operand
  split <;> simp_all

theorem tempOf?_eq_ok {t : Option UInt32} (h : p.tempOf? id = .ok t) :
    ∃ op, p.operands[id]? = some op ∧ ∀ register, t = some register ↔ op.IsTemp register := by
  have ⟨op, hop, h⟩ := bind_eq_ok_iff.mp h
  refine ⟨op, operand_eq_ok_iff.mp hop, fun register => ?_⟩
  have ht := Except.ok.inj h
  rw [← ht, Option.ite_none_right_eq_some]
  rfl

-- All registers that are found are operands of instructions.
structure Found (p : Program) (temps : TempTypes) : Prop where
  sorted : temps.Sorted
  named  : ∀ register ∈ temps.keys, p.NamesTemp register

theorem Found.insertNew {type : ValueType} (h : p.Found temps) (hn : p.NamesTemp register) :
    p.Found (temps.insertNew register type) where
  sorted := h.sorted.insertNew
  named register' hr := by
    cases SortedMap.mem_keys_insertNew.mp hr
    case inl hr => exact hr ▸ hn
    case inr hr => exact h.named register' hr

theorem Found.addWrites {type : ValueType} {positions : List Nat} (h : p.Found temps)
    (hi : inst ∈ p.instructions) (ha : p.addWrites d inst type temps positions = .ok temps') :
    p.Found temps' := by
  induction positions generalizing temps
  case nil => cases ha; exact h
  case cons i is hind =>
    unfold Program.addWrites at ha
    split at ha
    case h_2 => exact hind h ha
    case h_1 id hid =>
      have ⟨t, ht, hrest⟩ := bind_eq_ok_iff.mp ha
      cases t
      case none => exact hind h hrest
      case some register =>
        have ⟨op, hop, htemp⟩ := tempOf?_eq_ok ht
        have hn : p.NamesTemp register :=
          ⟨inst, hi, id, List.mem_of_getElem? hid, .operand hop ((htemp register).mp rfl)⟩
        dsimp only at hrest
        split at hrest
        all_goals
          have ⟨type', _, hrest⟩ := bind_eq_ok_iff.mp hrest
          exact hind (h.insertNew hn) hrest

theorem Found.writtenTemps {insts : List Instruction} (h : p.Found temps)
    (hi : ∀ inst ∈ insts, inst ∈ p.instructions)
    (hw : p.writtenTemps d r temps insts = .ok temps') : p.Found temps' := by
  induction insts generalizing temps
  case nil => cases hw; exact h
  case cons inst insts hind =>
    have ⟨hinst, hinsts⟩ := List.forall_mem_cons.mp hi
    have ⟨type, _, hw⟩ := bind_eq_ok_iff.mp hw
    cases type
    case none => exact hind h hinsts hw
    case some type =>
      have ⟨temps, ha, hw⟩ := bind_eq_ok_iff.mp hw
      exact hind (h.addWrites hinst ha) hinsts hw

theorem found_empty : p.Found .empty :=
  ⟨SortedMap.sorted_empty, List.forall_mem_nil _⟩

theorem mem_tempsRead {registers : List UInt32} (h : p.tempsRead id = .ok registers) :
    register ∈ registers ↔ p.NamesIn register id := by
  have ⟨op, hop, h⟩ := bind_eq_ok_iff.mp h
  have ⟨own, hown, h⟩ := bind_eq_ok_iff.mp h
  have ⟨nested, hnested, h⟩ := bind_eq_ok_iff.mp h
  have hregisters := Except.ok.inj h
  have hop := operand_eq_ok_iff.mp hop
  have same {op' : Operand} (h : p.operands[id]? = some op') : op' = op :=
    Option.some.inj (h.symm.trans hop)
  have ⟨op', hop', hown⟩ := tempOf?_eq_ok hown
  have hnested := mapM_eq_ok_iff.mp hnested
  have hmem : register ∈ registers ↔ own = some register ∨ some register ∈ nested := by
    simp [← hregisters]
  rw [hmem, hown, same hop']
  constructor
  case mp =>
    intro h
    cases h
    case inl h => exact .operand hop h
    case inr h =>
      have ⟨inner, hinner, ht⟩ := exists_mem_of_forall₂ hnested h
      have ⟨index, hi, hr⟩ := List.mem_filterMap.mp hinner
      have ⟨_, hinner, htemp⟩ := tempOf?_eq_ok ht
      exact .index hop hi hr hinner ((htemp register).mp rfl)
  case mpr =>
    intro h
    cases h
    case operand hop' htemp => exact .inl (same hop' ▸ htemp)
    case index index inner _ hop' hi hr hinner htemp =>
      have hi : inner ∈ op.indices.filterMap Index.relative? :=
        List.mem_filterMap.mpr ⟨index, same hop' ▸ hi, hr⟩
      have ⟨t, hmem, ht⟩ := exists_mem_of_forall₂ hnested.flip hi
      have ⟨_, hinner', hregister⟩ := tempOf?_eq_ok ht
      have htemp := Option.some.inj (hinner.symm.trans hinner') ▸ htemp
      exact .inr ((hregister register).mpr htemp ▸ hmem)

theorem lt_foldl_max {l : List UInt32} {a : UInt32} :
    register < l.foldl max a ↔ register < a ∨ ∃ b ∈ l, register < b := by
  induction l generalizing a
  case nil => simp
  case cons b l hi =>
    have hmax : register < max a b ↔ register < a ∨ register < b := by
      rw [show max a b = if a ≤ b then b else a from rfl]
      simp only [UInt32.le_iff_toNat_le, UInt32.lt_iff_toNat_lt]
      split <;> omega
    rw [List.foldl_cons, hi, hmax, or_assoc, List.exists_mem_cons_iff]

theorem lt_tempCount {written : TempTypes} : register < p.tempCount written ↔
    (∃ decl ∈ p.declarations, ∃ count, decl.declared = .temps count ∧ register < count) ∨
      ∃ top ∈ written.keys, register < top + 1 := by
  constructor
  case mp =>
    intro h
    cases lt_foldl_max.mp h
    case inl h => exact absurd h (UInt32.not_lt_zero)
    case inr h =>
      have ⟨count, hc, hlt⟩ := h
      cases List.mem_append.mp hc
      case inl hc =>
        have ⟨decl, hd, hc⟩ := List.mem_filterMap.mp hc
        split at hc
        case h_2 => cases hc
        case h_1 hdeclared => exact .inl ⟨decl, hd, count, Option.some.inj hc ▸ hdeclared, hlt⟩
      case inr hc =>
        have ⟨top, ht, hc⟩ := List.mem_map.mp hc
        exact .inr ⟨top, ht, hc ▸ hlt⟩
  case mpr =>
    intro h
    refine lt_foldl_max.mpr (.inr ?_)
    cases h
    case inl h =>
      have ⟨decl, hd, count, hc, hlt⟩ := h
      exact ⟨count, List.mem_append_left _ (List.mem_filterMap.mpr ⟨decl, hd, by rw [hc]⟩), hlt⟩
    case inr h =>
      have ⟨top, ht, hlt⟩ := h
      exact ⟨top + 1, List.mem_append_right _ (List.mem_map_of_mem ht), hlt⟩

theorem toNat_ofNat_of_lt {i : Nat} (h : i < count.toNat) : (UInt32.ofNat i).toNat = i :=
  UInt32.toNat_ofNat_of_lt' (h.trans count.toNat_lt)

theorem mem_keys_fillTemps :
    register ∈ (fillTemps temps count).keys ↔ register < count ∨ register ∈ temps.keys := by
  have hrange : (∃ i < count.toNat, UInt32.ofNat i = register) ↔ register < count := by
    constructor
    case mp =>
      rintro ⟨i, hi, rfl⟩
      rwa [UInt32.lt_iff_toNat_lt, toNat_ofNat_of_lt hi]
    case mpr => exact fun h => ⟨register.toNat, h, UInt32.ofNat_toNat⟩
  have hkeys : register ∈ (fillTemps temps count).keys ↔
      (∃ i < count.toNat, UInt32.ofNat i = register) ∨
        register ∈ temps.keys ∧ register ≥ count := by
    simp [fillTemps, SortedMap.keys]
  rw [hkeys, hrange, ge_iff_le, ← UInt32.not_lt]
  tauto

theorem sorted_fillTemps (h : temps.Sorted) : (fillTemps temps count).Sorted := by
  refine List.pairwise_append.mpr ⟨List.pairwise_map.mpr ?_, h.filter _, ?_⟩
  case refine_1 =>
    refine List.pairwise_lt_range.imp_of_mem fun {i j} hi hj hlt => ?_
    change (UInt32.ofNat i).toNat < (UInt32.ofNat j).toNat
    rwa [toNat_ofNat_of_lt (List.mem_range.mp hi), toNat_ofNat_of_lt (List.mem_range.mp hj)]
  case refine_2 =>
    intro e he e' he'
    have ⟨i, hi, he⟩ := List.mem_map.mp he
    have hi := List.mem_range.mp hi
    have hcount : count ≤ e'.1 := of_decide_eq_true (List.mem_filter.mp he').right
    subst he
    change (UInt32.ofNat i).toNat < e'.1.toNat
    rw [toNat_ofNat_of_lt hi]
    exact Nat.lt_of_lt_of_le hi hcount

theorem exists_written {o : Options} (h : p.temps o d r = .ok temps) :
    ∃ written, p.writtenTemps d r .empty p.instructions = .ok written ∧ temps.Sorted ∧
      ∀ register, register ∈ temps.keys ↔ p.HasTemp written register := by
  have ⟨written, hwritten, h⟩ := bind_eq_ok_iff.mp h
  have ⟨_, _, h⟩ := bind_eq_ok_iff.mp h
  have ⟨read, hread, h⟩ := bind_eq_ok_iff.mp h
  have htemps := Except.ok.inj h
  have hfound := found_empty.writtenTemps (fun _ => id) hwritten
  subst htemps
  refine ⟨written, hwritten, (sorted_fillTemps hfound.sorted).foldl_insertNew, fun register => ?_⟩
  have hnamed : register ∈ read.flatten ↔ p.NamesTemp register := by
    have hread := mapM_eq_ok_iff.mp hread
    constructor
    case mp =>
      intro hr
      have ⟨registers, hregisters, hr⟩ := List.mem_flatten.mp hr
      have ⟨id, hid, hregisters⟩ := exists_mem_of_forall₂ hread hregisters
      have ⟨inst, hinst, hid⟩ := List.mem_flatMap.mp hid
      exact ⟨inst, hinst, id, hid, (mem_tempsRead hregisters).mp hr⟩
    case mpr =>
      intro ⟨inst, hinst, id, hid, hn⟩
      have ⟨registers, hregisters, hr⟩ :=
        exists_mem_of_forall₂ hread.flip (List.mem_flatMap_of_mem hinst hid)
      exact List.mem_flatten_of_mem hregisters ((mem_tempsRead hr).mpr hn)
  rw [SortedMap.mem_keys_foldl_insertNew, mem_keys_fillTemps, hnamed, lt_tempCount]
  constructor
  case mp =>
    rintro (hn | (⟨decl, hd, count, hc, hlt⟩ | ⟨top, ht, hlt⟩) | hw)
    · exact .named hn
    · exact .counted hd hc hlt
    · exact .below ht hlt
    · exact .named (hfound.named register hw)
  case mpr =>
    intro h
    cases h
    case counted hd hc hlt => exact .inr (.inl (.inl ⟨_, hd, _, hc, hlt⟩))
    case below ht hlt => exact .inr (.inl (.inr ⟨_, ht, hlt⟩))
    case named hn => exact .inl hn

def DeclaresArray (register : UInt32) (decl : Declaration) : Prop :=
  ∃ length components, decl.declared = .indexableTemp register length components

-- The arrays after one more declaration.
def addArray (arrays : SlotMap UInt32) (decl : Declaration) : SlotMap UInt32 :=
  match decl.declared with
  | .indexableTemp index count _ => arrays.alter index fun old => max (old.getD 0) count
  | _ => arrays

variable {arrays : SlotMap UInt32} {decl : Declaration}

theorem sorted_addArray (h : arrays.Sorted) : (addArray arrays decl).Sorted := by
  unfold addArray
  split
  case h_1 => exact h.alter
  case h_2 => exact h

theorem mem_keys_addArray : register ∈ (addArray arrays decl).keys ↔
    DeclaresArray register decl ∨ register ∈ arrays.keys := by
  unfold addArray
  split
  case h_1 index length components h =>
    have hdecl : DeclaresArray register decl ↔ register = index := by
      simp [DeclaresArray, h, eq_comm]
    rw [SortedMap.mem_keys_alter, hdecl]
  case h_2 h =>
    have hdecl : ¬DeclaresArray register decl := fun ⟨_, _, hd⟩ => h _ _ _ hd
    exact (or_iff_right hdecl).symm

theorem sorted_indexableTemps : p.indexableTemps.Sorted :=
  List.foldlRecOn p.declarations _ SortedMap.sorted_empty fun _ h _ _ => sorted_addArray h

theorem mem_keys_foldl_addArray {decls : List Declaration} :
    register ∈ (decls.foldl addArray arrays).keys ↔
      register ∈ arrays.keys ∨ ∃ decl ∈ decls, DeclaresArray register decl := by
  induction decls generalizing arrays
  case nil => simp
  case cons decl decls hi =>
    rw [List.foldl_cons, hi, mem_keys_addArray, List.exists_mem_cons_iff, or_assoc, or_left_comm]

theorem mem_keys_indexableTemps :
    register ∈ p.indexableTemps.keys ↔ ∃ decl ∈ p.declarations, DeclaresArray register decl :=
  mem_keys_foldl_addArray.trans (or_iff_right List.not_mem_nil)

end Program

end ShaderLift
