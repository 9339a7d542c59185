import ShaderLift.Proofs.Decode.Append
import ShaderLift.Proofs.Decode.Encoding

/-!
Decoding gives back what was written: the same instructions at the same places, and behind each of
their operands the same tree.
-/

namespace ShaderLift

theorem Quad.ofList_take {lanes : Quad UInt32} {n : Nat}
    (h : ∀ i < 4, n ≤ i → lanes.get i = 0) : ofList 0 (lanes.toList.take n) = lanes := by
  have ⟨x, y, z, w⟩ := lanes
  have hx := h 0
  have hy := h 1
  have hz := h 2
  have hw := h 3
  match n with
  | 0 | 1 | 2 | 3 | n + 4 => simp_all [ofList, toList, get]

namespace Decoder

variable {α β σ : Type} {ws ws' tail : List UInt32}

-- A decoder takes the words `ws` and leaves `tail`. What `Q` says about the answer and the arena
-- still holds when more operands are pushed later.
def Reads (tail : List UInt32) (m : Decoder α) (ws : List UInt32) (Q : Arena → α → Prop) : Prop :=
  ∀ r, r.rest = ws ++ tail → ∃ a more,
    m r = .ok a ⟨r.base, r.consumed + ws.length, tail, r.operands ++ more⟩ ∧
      ∀ later, Q (r.operands ++ (more ++ later)) a

namespace Reads

variable {m : Decoder α} {k : α → Decoder β} {Q : Arena → α → Prop} {R : Arena → β → Prop}

theorem quiet {a : α} (h : ∀ r, r.rest = ws ++ tail →
    m r = .ok a ⟨r.base, r.consumed + ws.length, tail, r.operands⟩) :
    Reads tail m ws fun _ b => b = a := by
  intro r hr
  refine ⟨a, #[], ?_, fun _ => rfl⟩
  rw [h r hr, Array.append_empty]

theorem pure {a : α} (h : ∀ arena, Q arena a) : Reads tail (Pure.pure a) [] Q := by
  intro r hr
  refine ⟨a, #[], ?_, fun _ => h _⟩
  have ⟨base, consumed, rest, operands⟩ := r
  cases hr
  rw [Array.append_empty]
  rfl

theorem mono {Q' : Arena → α → Prop} (hm : Reads tail m ws Q)
    (h : ∀ arena a, Q arena a → Q' arena a) : Reads tail m ws Q' := by
  intro r hr
  have ⟨a, more, hm, hq⟩ := hm r hr
  exact ⟨a, more, hm, fun later => h _ _ (hq later)⟩

theorem bind {R : α → Arena → β → Prop} (hm : Reads (ws' ++ tail) m ws Q)
    (hk : ∀ arena a, Q arena a → Reads tail (k a) ws' (R a)) :
    Reads tail (m >>= k) (ws ++ ws') fun arena b => ∃ a, Q arena a ∧ R a arena b := by
  intro r hr
  have ⟨a, more, hm, hq⟩ := hm r (hr.trans (List.append_assoc ..))
  have ⟨b, more', hk, hr⟩ := hk _ a (hq #[])
    ⟨r.base, r.consumed + ws.length, ws' ++ tail, r.operands ++ more⟩ rfl
  simp only [Array.append_assoc, Nat.add_assoc] at hk hr
  refine ⟨b, more ++ more', ?_, fun later => ⟨a, ?_, ?_⟩⟩
  case refine_1 => simp only [Bind.bind, EStateM.bind, hm, hk, List.length_append]
  case refine_2 =>
    rw [Array.append_assoc]
    exact hq _
  case refine_3 =>
    rw [Array.append_assoc]
    exact hr later

-- A step whose answer is known.
theorem bind_eq {a : α} (hm : Reads (ws' ++ tail) m ws fun _ b => b = a)
    (hk : Reads tail (k a) ws' R) : Reads tail (m >>= k) (ws ++ ws') R :=
  (hm.bind fun _ _ ha => ha ▸ hk).mono fun _ _ ⟨_, _, hr⟩ => hr

theorem bind_any (hm : Reads (ws ++ tail) m [] fun _ _ => True) (hk : ∀ a, Reads tail (k a) ws R) :
    Reads tail (m >>= k) ws R :=
  (hm.bind fun _ a _ => hk a).mono fun _ _ ⟨_, _, hr⟩ => hr

-- The last step that takes words.
theorem bind_last {R : α → Arena → β → Prop} (hm : Reads tail m ws Q)
    (hk : ∀ arena a, Q arena a → Reads tail (k a) [] (R a)) :
    Reads tail (m >>= k) ws fun arena b => ∃ a, Q arena a ∧ R a arena b := by
  have hb : Reads tail (m >>= k) (ws ++ []) _ := bind hm hk
  rwa [List.append_nil] at hb

theorem bind_pure {g : α → β} (hm : Reads tail m ws Q) (h : ∀ arena a, Q arena a → R arena (g a)) :
    Reads tail (m >>= fun a => Pure.pure (g a)) ws R :=
  (hm.bind_last fun _ a _ => pure (a := g a) (Q := fun _ b => b = g a) fun _ => rfl).mono
    fun arena _ ⟨a, ha, hb⟩ => hb ▸ h arena a ha

-- A step that looks at the reader only.
theorem bind_get {k : Reader → Decoder β} (hk : ∀ r, r.rest = ws ++ tail → Reads tail (k r) ws R) :
    Reads tail (get >>= k) ws R :=
  fun r hr => hk r hr r hr

end Reads

theorem reads_word {w : UInt32} : Reads tail word [w] fun _ b => b = w :=
  .quiet fun r hr => by simp [word, hr]

theorem reads_long {v : UInt64} : Reads tail long [Word.high v, Word.low v] fun _ b => b = v :=
  reads_word.bind_eq (reads_word.bind_pure fun _ _ hw => hw ▸ Word.join_high_low)

theorem reads_words : Reads tail (words ws.length) ws fun _ b => b = ws := by
  induction ws
  case nil => exact .pure fun _ => rfl
  case cons hi => exact reads_word.bind_eq (hi.bind_pure fun _ _ hws => hws ▸ rfl)

theorem reads_longs (vs : List UInt64) :
    Reads tail (longs vs.length) (vs.flatMap fun v => [Word.low v, Word.high v])
      fun _ b => b = vs := by
  induction vs
  case nil => exact .pure fun _ => rfl
  case cons v vs hi =>
    refine reads_word.bind_eq (reads_word.bind_eq (hi.bind_pure fun _ _ hvs => ?_))
    rw [hvs, Word.join_high_low]

theorem reads_push {op : Operand} :
    Reads tail (push op) [] fun arena id => arena[id]? = some op := by
  intro r hr
  refine ⟨r.operands.size, #[op], ?_, fun later => ?_⟩
  case refine_1 =>
    have ⟨base, consumed, rest, operands⟩ := r
    cases hr
    rfl
  case refine_2 => simp [Array.getElem?_append]

theorem reads_position : Reads tail position [] fun _ _ => True := by
  intro r hr
  refine ⟨r.position, #[], ?_, fun _ => trivial⟩
  have ⟨base, consumed, rest, operands⟩ := r
  cases hr
  rw [Array.append_empty]
  rfl

theorem reads_liftExcept {a : α} {x : Except DecodeError α} (h : x = .ok a) :
    Reads tail (operandWith.liftExcept x) [] fun _ b => b = a :=
  h ▸ .pure fun _ => rfl

theorem reads_immediate {start : Nat} {token : OperandToken} {immediate : Option Immediate}
    (h : Immediate.Fits token.register token.components immediate) :
    Reads tail (Decoder.immediate start token) (immediate.elim [] Immediate.encode)
      fun _ b => b = immediate := by
  have hwords {lanes : Quad UInt32} {n : Nat} (hn : n ≤ 4)
      (h : ∀ i < 4, n ≤ i → lanes.get i = 0) :
      Reads tail (return some (Immediate.words (.ofList 0 (← words n)) n)) (lanes.toList.take n)
        fun _ b => b = some (Immediate.words lanes n) := by
    have hl : (lanes.toList.take n).length = n := List.length_take_of_le hn
    refine (hl ▸ reads_words).bind_pure fun _ _ hws => ?_
    rw [hws, Quad.ofList_take h]
  unfold Decoder.immediate
  match immediate, h with
  | some (.words lanes _), ⟨hk, hz, .inl ⟨hc, rfl⟩⟩ =>
    simp only [hk, hc]
    exact hwords (by decide) hz
  | some (.words lanes _), ⟨hk, hz, .inr ⟨hc, rfl⟩⟩ =>
    simp only [hk, hc]
    exact hwords (by decide) hz
  | some (.longs xy _ _), ⟨hk, .inl ⟨hc, rfl, rfl⟩⟩ =>
    simp only [hk, hc]
    exact (reads_longs [xy]).bind_pure fun _ _ hvs => hvs ▸ rfl
  | some (.longs xy zw _), ⟨hk, .inr ⟨hc, rfl⟩⟩ =>
    simp only [hk, hc]
    exact (reads_longs [xy, zw]).bind_pure fun _ _ hvs => hvs ▸ rfl
  | none, ⟨h₃₂, h₆₄⟩ =>
    split
    case h_1 hk _ | h_3 hk _ => exact absurd hk h₃₂
    case h_2 hk _ | h_4 hk _ | h_5 hk _ => exact absurd hk h₆₄
    case h_6 => exact .pure fun _ => rfl

theorem reads_extensions {step : σ → UInt32 → Except DecodeError σ} {init : σ}
    {f : σ → Word.Fields → σ} {run : List Word.Fields} (hr : run ≠ [])
    (hw : ∀ fields ∈ run, fields.width = 31)
    (hstep : ∀ fields ∈ run, ∀ s more, step s (Word.linked fields more) = .ok (f s fields)) :
    Reads tail (extensions step init) (Word.chain run) fun _ s => s = run.foldl f init := by
  have go (run : List Word.Fields) : run ≠ [] → (∀ fields ∈ run, fields.width = 31) →
      (∀ fields ∈ run, ∀ s more, step s (Word.linked fields more) = .ok (f s fields)) → ∀ init r,
      extensions.go step (Word.chain run ++ tail) r init =
        .ok (run.foldl f init)
          ⟨r.base, r.consumed + (Word.chain run).length, tail, r.operands⟩ := by
    induction run
    case nil => exact fun h => absurd rfl h
    case cons fields run hi =>
      intro _ hw hstep init r
      obtain ⟨hw, hws⟩ := List.forall_mem_cons.mp hw
      obtain ⟨hstep, hsteps⟩ := List.forall_mem_cons.mp hstep
      rw [Word.chain, List.cons_append, extensions.go, hstep]
      dsimp only
      rw [Word.bit_more hw]
      cases run
      case nil => rfl
      case cons =>
        refine (hi (List.cons_ne_nil _ _) hws hsteps _ _).trans ?_
        simp [Word.chain]
        omega
  refine .quiet fun r hrest => ?_
  rw [extensions, hrest]
  exact go run hr hw hstep init r

section Operand

variable {start : Nat} {nested : Decoder OperandId}

theorem reads_operandWith {head : OperandHead} {indices : List IndexTree} (hv : head.Valid)
    (hl : indices.length ≤ 3)
    (hn : ∀ {start tail}, Reads tail (Decoder.indices nested start (indices.map IndexTree.form))
      (IndexTree.encodeAll indices) fun arena is => IndexTree.AllAt arena indices is) :
    Reads tail (operandWith nested) (OperandTree.node head indices).encode
      fun arena id => (OperandTree.node head indices).At arena id := by
  have hforms : ∀ form ∈ indices.map IndexTree.form, form < 8 := by
    rintro _ hform
    have ⟨i, _, hi⟩ := List.mem_map.mp hform
    exact hi ▸ i.form_lt
  have htoken := OperandHead.read_fields hv.selection ((List.length_map _).trans_le hl) hforms
  have hencode : (OperandTree.node head indices).encode =
      [Word.pack (head.fields (indices.map IndexTree.form))] ++
        ([] ++ (Word.chain head.extensions ++ (IndexTree.encodeAll indices ++
          (head.immediate.elim [] Immediate.encode ++ [])))) := by
    simp [OperandTree.encode]
  rw [hencode]
  refine reads_position.bind_any fun start => reads_word.bind_eq ?_
  refine (reads_liftExcept (congrArg (operandFault start) htoken)).bind_eq ?_
  extract_lets rest
  have hrest : Reads tail (rest head.extension)
      (IndexTree.encodeAll indices ++ (head.immediate.elim [] Immediate.encode ++ []))
      fun arena id => (OperandTree.node head indices).At arena id :=
    (hn.bind fun _ is _ => (reads_immediate hv.immediate).bind_eq reads_push).mono
      fun _ id ⟨is, his, hid⟩ => ⟨is, hid, his⟩
  unfold OperandHead.extensions
  split
  case isTrue he =>
    have hstep : ∀ fields ∈ [head.extension.fields], ∀ (e : OperandExtension) more,
        operandFault start (e.add (Word.linked fields more)) = .ok head.extension := by
      intro fields hf e more
      cases List.mem_singleton.mp hf
      rw [OperandExtension.add_fields hv.minPrecision]
      rfl
    have hwidth : ∀ fields ∈ [head.extension.fields], fields.width = 31 :=
      List.forall_mem_singleton.mpr rfl
    have hextension {tail : List UInt32} : Reads tail
        (extensions (fun e word => operandFault start (e.add word)) {})
        (Word.chain [head.extension.fields]) fun _ e => e = head.extension :=
      reads_extensions (f := fun _ _ => head.extension) (List.cons_ne_nil _ _) hwidth hstep
    exact hextension.bind_eq hrest
  case isFalse he =>
    have hdefault : head.extension = {} := by simpa [OperandHead.isExtended] using he
    exact hdefault ▸ hrest

mutual

theorem reads_operandTree : (t : OperandTree) → t.Valid → ∀ {bound tail}, t.encode.length ≤ bound →
    Reads tail (operandWithin bound) t.encode fun arena id => t.At arena id
  | .node head indices, ⟨hv, hl, his⟩, bound + 1, tail, hb => by
    have hb : (IndexTree.encodeAll indices).length ≤ bound := by
      simp only [OperandTree.encode, List.cons_append, List.length_cons, List.length_append] at hb
      omega
    exact reads_operandWith hv hl (reads_indexTrees indices his hb)

theorem reads_indexTree : (t : IndexTree) → t.Valid → ∀ {bound start tail},
    t.encode.length ≤ bound →
    Reads tail (index (operandWithin bound) start t.form) t.encode fun arena i => t.At arena i
  | .imm _, _, _, _, _, _ => reads_word.bind_pure fun _ _ hw => hw ▸ rfl
  | .wide _, _, _, _, _, _ => reads_long.bind_pure fun _ _ hw => hw ▸ rfl
  | .relative op, hv, _, _, _, hb =>
    (reads_operandTree op hv hb).bind_pure fun _ id hid => ⟨id, rfl, hid⟩
  | .immRelative _ op, hv, _, _, _, hb =>
    have hop := reads_operandTree op hv (Nat.le_of_add_right_le hb)
    reads_word.bind_eq (hop.bind_pure fun _ id hid => ⟨id, rfl, hid⟩)
  | .wideRelative _ op, hv, _, _, _, hb =>
    have hop := reads_operandTree op hv (Nat.le_of_add_right_le (Nat.le_of_add_right_le hb))
    reads_long.bind_eq (hop.bind_pure fun _ id hid => ⟨id, rfl, hid⟩)

theorem reads_indexTrees : (ts : List IndexTree) → IndexTree.AllValid ts → ∀ {bound start tail},
    (IndexTree.encodeAll ts).length ≤ bound →
    Reads tail (indices (operandWithin bound) start (ts.map IndexTree.form))
      (IndexTree.encodeAll ts) fun arena is => IndexTree.AllAt arena ts is
  | [], _, _, _, _, _ => .pure fun _ => rfl
  | t :: ts, ⟨ht, hts⟩, bound, start, tail, hb => by
    rw [IndexTree.encodeAll, List.length_append] at hb
    have hrest (i : Index) : Reads tail
        (return i :: (← indices (operandWithin bound) start (ts.map IndexTree.form)))
        (IndexTree.encodeAll ts)
        fun arena is => ∃ rest, is = i :: rest ∧ IndexTree.AllAt arena ts rest :=
      (reads_indexTrees ts hts (by omega)).bind_pure fun _ rest hrest => ⟨rest, rfl, hrest⟩
    exact ((reads_indexTree t ht (by omega)).bind fun _ i _ => hrest i).mono
      fun _ _ ⟨i, hi, rest, his, hrest⟩ => ⟨i, rest, his, hi, hrest⟩

end

theorem reads_operand {t : OperandTree} (ht : t.Valid) :
    Reads tail operand t.encode fun arena id => t.At arena id := by
  intro r hr
  have hb : t.encode.length ≤ r.rest.length := by simp [hr]
  exact reads_operandTree t ht hb r hr

theorem reads_operands {ts : List OperandTree} {bound count : Nat} (hts : ∀ t ∈ ts, t.Valid)
    (hb : ts.length ≤ bound) (hc : ts.length + count ≤ Instruction.maxOperands) :
    Reads [] (operandsWithin start bound count) (ts.flatMap OperandTree.encode)
      fun arena ids => List.Forall₂ (OperandTree.At arena) ts ids := by
  induction ts generalizing bound count
  case nil =>
    cases bound
    case zero => exact .pure fun _ => .nil
    case succ =>
      refine .bind_get fun r hr => ?_
      have hend : r.isAtEnd := by simp [Reader.isAtEnd, hr]
      rw [if_pos hend]
      exact .pure fun _ => .nil
  case cons t ts hi =>
    have ⟨ht, hts⟩ := List.forall_mem_cons.mp hts
    cases bound
    case zero => cases hb
    case succ bound =>
      refine .bind_get fun r hr => ?_
      have hmore : ¬r.isAtEnd := by
        cases t
        simp [Reader.isAtEnd, hr, OperandTree.encode]
      rw [List.length_cons] at hb hc
      have hcount : ¬count ≥ Instruction.maxOperands := by omega
      have hrest (id : OperandId) : Reads []
          (return id :: (← operandsWithin start bound (count + 1)))
          (ts.flatMap OperandTree.encode)
          fun arena ids => ∃ rest, ids = id :: rest ∧ List.Forall₂ (OperandTree.At arena) ts rest :=
        (hi hts (by omega) (by omega)).bind_pure fun _ rest hrest => ⟨rest, rfl, hrest⟩
      simp only [if_neg hmore, if_neg hcount]
      exact ((reads_operand ht).bind fun _ id _ => hrest id).mono
        fun _ _ ⟨id, hid, rest, hids, hrest⟩ => hids ▸ .cons hid hrest

end Operand

section Instruction

variable {t : InstructionTree} {start : Nat}

theorem reads_sampleControls (ht : t.controls.Valid) :
    Reads tail (sampleControls (Word.pack t.fields)) (Word.chain t.controls.extensions)
      fun _ c => c = t.controls.sampling := by
  rw [← Controls.foldl_extensions ht]
  unfold sampleControls
  rw [InstructionTree.bit_isExtended]
  cases hc : t.controls.extensions
  case nil => exact .pure fun _ => rfl
  case cons fields rest =>
    have hmem {f : Word.Fields} (hf : f ∈ fields :: rest) :
        ∃ c, t.controls = .sample c ∧ f ∈ c.extensions := by
      rw [← hc] at hf
      cases h : t.controls <;> rw [h] at hf
      case sample c => exact ⟨c, rfl, hf⟩
      all_goals cases hf
    have hwidth : ∀ f ∈ fields :: rest, f.width = 31 := fun f hf =>
      have ⟨_, _, hf⟩ := hmem hf
      SampleControls.width_of_mem_extensions hf
    have hstep : ∀ f ∈ fields :: rest, ∀ (c : SampleControls) more,
        Except.ok (c.add (Word.linked f more)) = (.ok (c.addFields f) : Except DecodeError _) := by
      intro f hf c more
      have ⟨c, hc, hf⟩ := hmem hf
      rw [hc] at ht
      rw [SampleControls.add_linked ht hf]
    exact reads_extensions (List.cons_ne_nil _ _) hwidth hstep

theorem reads_controls (ht : t.Valid) :
    Reads tail (controls start t.opcode (Word.pack t.fields) t.controls.sampling) t.controls.words
      fun _ c => c = t.controls := by
  have hkind := ht.kind
  have hvalid := ht.controls
  unfold controls
  rw [← hkind]
  cases hc : t.controls
  case alu saturate precise =>
    have hprecise : precise < 2 ^ 4 := by
      rw [hc] at hvalid
      exact hvalid
    have hsaturate : Word.bit (Word.pack t.fields) 13 = saturate :=
      InstructionTree.bit_controls 2 (hc ▸ rfl)
    have hprecise : Word.bits (Word.pack t.fields) 19 4 = precise :=
      InstructionTree.bits_controls 8 hprecise (hc ▸ rfl)
    dsimp only [Controls.kind]
    rw [hsaturate, hprecise]
    exact .pure fun _ => rfl
  case conditional test =>
    have htest : Word.bit (Word.pack t.fields) 18 = decide (test = .nonZero) :=
      InstructionTree.bit_controls 7 (hc ▸ rfl)
    dsimp only [Controls.kind]
    rw [htest]
    cases test <;> exact .pure fun _ => rfl
  case sample c =>
    have hsaturate : Word.bit (Word.pack t.fields) 13 = c.saturate :=
      InstructionTree.bit_controls 2 (hc ▸ rfl)
    dsimp only [Controls.kind]
    rw [hsaturate]
    exact .pure fun _ => rfl
  case resInfo format saturate =>
    have hformat : Word.bits (Word.pack t.fields) 11 2 = format.raw :=
      InstructionTree.bits_controls 0 (by cases format <;> decide) (hc ▸ rfl)
    have hsaturate : Word.bit (Word.pack t.fields) 13 = saturate :=
      InstructionTree.bit_controls 2 (hc ▸ rfl)
    dsimp only [Controls.kind]
    rw [hformat, hsaturate]
    cases format <;> exact .pure fun _ => rfl
  case sampleInfo uintResult saturate =>
    have huint : Word.bit (Word.pack t.fields) 11 = uintResult :=
      InstructionTree.bit_controls 0 (hc ▸ rfl)
    have hsaturate : Word.bit (Word.pack t.fields) 13 = saturate :=
      InstructionTree.bit_controls 2 (hc ▸ rfl)
    dsimp only [Controls.kind]
    rw [huint, hsaturate]
    exact .pure fun _ => rfl
  case sync flags =>
    have hlt : flags.bits < 2 ^ 4 := by
      have ⟨a, b, c, d⟩ := flags
      cases a <;> cases b <;> cases c <;> cases d <;> decide
    have hflags : Word.bits (Word.pack t.fields) 11 4 = flags.bits :=
      InstructionTree.bits_controls 0 hlt (hc ▸ rfl)
    dsimp only [Controls.kind]
    rw [hflags, SyncFlags.ofBits_bits]
    exact .pure fun _ => rfl
  case interfaceCall => exact reads_word.bind_pure fun _ _ hw => hw ▸ rfl
  case flow | phaseMarker => exact .pure fun _ => rfl

theorem length_le_encode {ts : List OperandTree} :
    ts.length ≤ (ts.flatMap OperandTree.encode).length := by
  induction ts
  case nil => exact Nat.le_refl _
  case cons t ts hi =>
    cases t
    simp only [List.flatMap_cons, OperandTree.encode, List.cons_append, List.length_cons,
      List.length_append]
    omega

theorem reads_instruction (start : Nat) (ht : t.Valid) :
    Reads [] (instruction start t.opcode (Word.pack t.fields)) t.body
      fun arena inst => t.At arena start inst := by
  have hcount : t.operands.length ≤ Instruction.maxOperands := by
    have hall : ∀ op ∈ Opcode.all, op.operandCount.getD 0 ≤ Instruction.maxOperands := by
      decide +kernel
    have hcount := hall t.opcode t.opcode.mem_all
    rwa [ht.count] at hcount
  rw [InstructionTree.body, List.append_assoc]
  refine (reads_sampleControls ht.controls).bind_eq ((reads_controls ht).bind_eq ?_)
  refine .bind_get fun r hr => ?_
  have hbound : t.operands.length ≤ r.rest.length := by
    rw [hr, List.append_nil]
    exact length_le_encode
  have hoperands : Reads [] (operandsWithin start r.rest.length 0) _ _ :=
    reads_operands ht.operands hbound hcount
  simp only [ht.count]
  refine .mono (hoperands.bind_last
    (R := fun ids _ inst => inst = ⟨t.opcode, t.controls, ids, start⟩) ?_) ?_
  case refine_1 =>
    intro _ ids hids
    rw [if_neg (not_not.mpr hids.length_eq.symm)]
    exact .pure fun _ => rfl
  case refine_2 =>
    rintro _ _ ⟨ids, hids, rfl⟩
    exact ⟨rfl, rfl, rfl, hids⟩

end Instruction

end Decoder

namespace InstructionTree

theorem cut_encode {t : InstructionTree} {position : Nat} {rest : List UInt32} (ht : t.Valid) :
    Frame.cut position (Word.pack t.fields) (t.body ++ rest) =
      .ok ⟨position, t.opcode, Word.pack t.fields, t.body⟩ := by
  have hop : t.opcode ≠ .customData := fun h => ht.isInstruction (h ▸ rfl)
  have hlength : t.encode.length = t.body.length + 1 := List.length_cons
  refine Frame.cut_eq_ok_iff.mpr ⟨t.opcode, t.encode.length, ofRaw?_bits, ?_, ?_, ?_⟩
  case refine_1 => exact .token (hlength ▸ Nat.succ_pos _) (bits_length ht.length) hop
  case refine_2 => simp [hlength]
  case refine_3 => simp [hlength]

theorem read_encode {t : InstructionTree} (stage : Stage) (position : Nat) (arena : Arena)
    (ht : t.Valid) :
    ∃ inst more, Frame.read stage ⟨position, t.opcode, Word.pack t.fields, t.body⟩ arena =
        .ok (.instruction inst, arena ++ more) ∧
      ∀ later, t.At (arena ++ (more ++ later)) position inst := by
  have hop : t.opcode ≠ .customData := fun h => ht.isInstruction (h ▸ rfl)
  have ⟨inst, more, hread, hinst⟩ := Decoder.reads_instruction position ht
    ⟨position, 1, t.body, arena⟩ (List.append_nil _).symm
  refine ⟨inst, more, ?_, hinst⟩
  simp only [Frame.read, Frame.readBody]
  rw [if_neg hop, if_neg ht.isInstruction]
  simp only [bind, EStateM.bind, hread]
  rfl

-- Instructions stand one behind the other, the first one at the given position.
def Placed (arena : Arena) : Nat → List InstructionTree → List Instruction → Prop
  | _, [], insts => insts = []
  | position, t :: ts, insts => ∃ inst rest, insts = inst :: rest ∧ t.At arena position inst ∧
      Placed arena (position + t.encode.length) ts rest

theorem readAll_encode {ts : List InstructionTree} (stage : Stage) (position : Nat) (arena : Arena)
    (hts : ∀ t ∈ ts, t.Valid) :
    ∃ insts more, readAll stage position (ts.flatMap encode) arena =
        .ok (insts.map .instruction, arena ++ more) ∧
      ∀ later, Placed (arena ++ (more ++ later)) position ts insts := by
  induction ts generalizing position arena
  case nil => exact ⟨[], #[], by rw [Array.append_empty]; rfl, fun _ => rfl⟩
  case cons t ts hi =>
    have ⟨ht, hts⟩ := List.forall_mem_cons.mp hts
    have ⟨inst, more, hread, hinst⟩ := read_encode stage position arena ht
    have ⟨insts, more', hrest, hinsts⟩ := hi (position + t.encode.length) (arena ++ more) hts
    have hdrop : (t.body ++ ts.flatMap encode).drop t.body.length = ts.flatMap encode :=
      List.drop_left
    refine ⟨inst :: insts, more ++ more', ?_, fun later => ⟨inst, insts, rfl, ?_, ?_⟩⟩
    case refine_1 =>
      rw [List.flatMap_cons, encode, List.cons_append, readAll_cons, cut_encode ht]
      simp only [bind, Except.bind, hread, hdrop]
      rw [show Frame.length _ = t.encode.length from rfl, hrest, Array.append_assoc]
      rfl
    case refine_2 =>
      rw [Array.append_assoc]
      exact hinst _
    case refine_3 =>
      rw [Array.append_assoc, ← Array.append_assoc]
      exact hinsts later

end InstructionTree

namespace Program

theorem declarations_map_instruction {insts : List Instruction} {before : Nat} :
    Element.declarations before (insts.map .instruction) = [] := by
  induction insts generalizing before
  case nil => rfl
  case cons hi => exact hi

theorem decode_encode {version : UInt32} {stage : Stage} {model : ShaderModel}
    {ts : List InstructionTree} (hversion : readVersion version = some (stage, model))
    (hts : ∀ t ∈ ts, t.Valid)
    (hlength : (ts.flatMap InstructionTree.encode).length + 2 < UInt32.size) :
    ∃ p, decode (stream version (ts.flatMap InstructionTree.encode)) = .ok p ∧
      p.stage = stage ∧ p.model = model ∧ p.declarations = [] ∧
      InstructionTree.Placed p.operands 2 ts p.instructions := by
  have ⟨insts, more, hread, hplaced⟩ := InstructionTree.readAll_encode stage 2 #[] hts
  have hdeclarations : Element.declarations 0 (insts.map .instruction) = [] :=
    declarations_map_instruction
  have hinstructions : (insts.map Element.instruction).filterMap Element.instruction? = insts := by
    simp [List.filterMap_map, Function.comp_def, Element.instruction?]
  rw [decode_stream hlength, hversion]
  dsimp only
  rw [hread]
  refine ⟨_, rfl, rfl, rfl, hdeclarations, ?_⟩
  have hplaced := hplaced #[]
  rw [Array.append_empty] at hplaced
  simpa only [ofElements, hinstructions] using hplaced

-- `mov_sat r0, -cb0[r1.x + 4]` and a comparison with texel offsets.
def movedAndCompared : List InstructionTree :=
  let temp (register : UInt32) (selection : Selection) : OperandTree :=
    .node { register := .temp, selection := selection } [.imm register]
  let slot (register : RegisterKind) : OperandTree :=
    .node { register := register, selection := .swizzle ⟨0, 1, 2, 3⟩ } [.imm 0]
  let constant : OperandHead :=
    { register := .constantBuffer, selection := .swizzle ⟨0, 1, 2, 3⟩,
      extension := { modifier := .neg } }
  let half : OperandHead :=
    { register := .immediate32, components := .one, selection := .nothing,
      immediate := some (.words ⟨0x3f000000, 0, 0, 0⟩ 1) }
  [⟨.mov, .alu true 3, [temp 0 (.mask .xyzw),
      .node constant [.imm 0, .immRelative 4 (temp 1 (.select 0))]]⟩,
    ⟨.sampleC, .sample { offsets := some ⟨-8, 7, 0⟩, dimension := some .texture2D },
      [temp 0 (.mask .x), temp 1 (.swizzle ⟨0, 1, 0, 1⟩), slot .resource, slot .sampler,
        .node half []]⟩]

theorem decode_encode_movedAndCompared :
    ∃ p, decode (stream 0x50 (movedAndCompared.flatMap InstructionTree.encode)) = .ok p ∧
      p.declarations = [] ∧
      InstructionTree.Placed p.operands 2 movedAndCompared p.instructions := by
  have hhalf : ∀ i < 4, 1 ≤ i → (Quad.mk 0x3f000000 0 0 (0 : UInt32)).get i = 0 := by decide
  have hts : ∀ t ∈ movedAndCompared, t.Valid := by
    simp only [movedAndCompared, List.forall_mem_cons]
    refine ⟨⟨by decide, rfl, ?_, rfl, ?_, by decide +kernel⟩,
      ⟨by decide, rfl, ⟨?_, ?_⟩, rfl, ?_, by decide +kernel⟩, List.forall_mem_nil _⟩
    case refine_1 => exact Nat.le_of_ble_eq_true rfl
    case refine_2 =>
      simp [OperandTree.Valid, OperandHead.valid_iff, IndexTree.AllValid, IndexTree.Valid,
        Selection.Fits, Immediate.Fits, WriteMask.xyzw, Quad.toList]
    case refine_3 =>
      rintro _ ⟨⟩
      decide
    case refine_4 => simp
    case refine_5 =>
      simpa [OperandTree.Valid, OperandHead.valid_iff, IndexTree.AllValid, IndexTree.Valid,
        Selection.Fits, Immediate.Fits, WriteMask.x, Quad.toList] using hhalf
  have hversion : readVersion 0x50 = some (.pixel, ⟨5, 0⟩) := rfl
  obtain ⟨p, hp, _, _, hd, hi⟩ := decode_encode hversion hts (by decide +kernel)
  exact ⟨p, hp, hd, hi⟩

end Program

end ShaderLift
