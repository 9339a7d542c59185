import ShaderLift.Proofs.Decode.Positions

/-!
Frames tile the stream: each starts where the one before it ends, and together they hold all words
up to the declared length. What is decoded from them stands where they start.
-/

namespace ShaderLift

variable {stage : Stage} {arena arena' : Arena} {position : Nat} {ws : List UInt32}

namespace Frame

variable {f : Frame} {fs : List Frame} {e : Element} {es : List Element}

-- Frames from `position` on that have no words between them, and hold the given words.
inductive Tiles : Nat → List UInt32 → List Frame → Prop
  | nil {position : Nat} : Tiles position [] []
  | cons {f : Frame} {rest : List UInt32} {fs : List Frame}
      (opcode : Opcode.ofRaw? (Word.bits f.token 0 11) = some f.opcode)
      (announces : Announces f.token f.words f.length f.opcode)
      (tail : Tiles (f.position + f.length) rest fs) :
      Tiles f.position (f.token :: f.words ++ rest) (f :: fs)

def Covers (f : Frame) (k : Nat) : Prop :=
  f.position ≤ k ∧ k < f.position + f.length

theorem cut_of_announces (hop : Opcode.ofRaw? (Word.bits f.token 0 11) = some f.opcode)
    (ha : Announces f.token f.words f.length f.opcode) : cut f.position f.token f.words = .ok f :=
  cut_eq_ok_iff.mpr ⟨_, _, hop, ha, le_refl _, by simp [length]⟩

-- A frame says how long it is in the words that it keeps.
theorem announces_of_cut {token : UInt32} (h : cut position token ws = .ok f) :
    f.position = position ∧ f.token = token ∧ f.words = ws.take f.words.length ∧
      Opcode.ofRaw? (Word.bits f.token 0 11) = some f.opcode ∧
      Announces f.token f.words f.length f.opcode := by
  obtain ⟨op, length, hop, ha, hlength, rfl⟩ := cut_eq_ok_iff.mp h
  have htake : (ws.take (length - 1)).length = length - 1 := by
    rw [List.length_take]
    omega
  refine ⟨rfl, rfl, by rw [htake], hop, ?_⟩
  cases ha
  case block h hl =>
    refine .block (by simp [Frame.length, htake]; omega) ?_
    rw [List.head?_take, if_neg (by omega), hl, Frame.length, htake]
    simp
    omega
  case token h hl hne =>
    refine .token (Nat.succ_pos _) ?_ hne
    rw [hl, Frame.length, htake]
    omega

namespace Tiles

theorem bounds (h : Tiles position ws fs) :
    ∀ f ∈ fs, position ≤ f.position ∧ f.position + f.length ≤ position + ws.length := by
  induction h
  case nil => exact List.forall_mem_nil _
  case cons f rest fs _ _ _ hi =>
    have hlength : (f.token :: f.words ++ rest).length = f.length + rest.length := by
      simp [Frame.length]
      omega
    rw [hlength]
    refine List.forall_mem_cons.mpr ⟨by omega, fun g hg => ?_⟩
    have := hi g hg
    omega

theorem sorted (h : Tiles position ws fs) :
    fs.Pairwise fun f g => f.position + f.length ≤ g.position := by
  induction h
  case nil => exact .nil
  case cons tail hi => exact .cons (fun g hg => (tail.bounds g hg).left) hi

theorem sorted_positions (h : Tiles position ws fs) (kind : Frame → Bool) :
    ((fs.filter kind).map (·.position)).Pairwise (· < ·) := by
  refine List.pairwise_map.mpr ((h.sorted.filter kind).imp fun {f g} hfg => ?_)
  have : 0 < f.length := Nat.succ_pos _
  omega

-- The words say where each frame ends.
theorem unique {fs' : List Frame} (h : Tiles position ws fs) (h' : Tiles position ws fs') :
    fs = fs' := by
  induction h generalizing fs'
  case nil =>
    cases h'
    rfl
  case cons f rest fs hop ha _ hi =>
    generalize hws : f.token :: f.words ++ rest = ws at h'
    generalize hposition : f.position = position at h'
    cases h'
    case nil => cases hws
    case cons g rest' fs' hop' ha' tail =>
      obtain ⟨htoken, hwords⟩ : f.token = g.token ∧ f.words ++ rest = g.words ++ rest' :=
        List.cons.inj hws
      have hcut := cut_append (b := rest) (cut_of_announces hop ha)
      have hcut' := cut_append (b := rest') (cut_of_announces hop' ha')
      rw [htoken, hwords, hposition] at hcut
      obtain rfl : f = g := Except.ok.inj (hcut.symm.trans hcut')
      obtain rfl : rest = rest' := List.append_cancel_left hwords
      rw [hi tail]

theorem existsUnique_covers (h : Tiles position ws fs) {k : Nat} (hk : position ≤ k)
    (hlt : k < position + ws.length) : ∃! f, f ∈ fs ∧ f.Covers k := by
  induction h
  case nil =>
    rw [List.length_nil] at hlt
    omega
  case cons f rest fs _ _ tail hi =>
    have hlength : (f.token :: f.words ++ rest).length = f.length + rest.length := by
      simp [Frame.length]
      omega
    rw [hlength] at hlt
    have hafter {g : Frame} (hg : g ∈ fs) : f.position + f.length ≤ g.position :=
      (tail.bounds g hg).left
    by_cases hf : k < f.position + f.length
    case pos =>
      refine ⟨f, ⟨List.mem_cons_self, hk, hf⟩, ?_⟩
      rintro g ⟨hg, hle, _⟩
      cases List.mem_cons.mp hg
      case inl hg => exact hg
      case inr hg =>
        have := hafter hg
        omega
    case neg =>
      obtain ⟨g, ⟨hg, hcovers⟩, hunique⟩ := hi (by omega) (by omega)
      refine ⟨g, ⟨List.mem_cons_of_mem _ hg, hcovers⟩, ?_⟩
      rintro g' ⟨hg', hcovers'⟩
      cases List.mem_cons.mp hg'
      case inl hg' => exact absurd (hg' ▸ hcovers'.right) hf
      case inr hg' => exact hunique g' ⟨hg', hcovers'⟩

end Tiles

-- What the frame holds, whatever operands have been read before it.
def ReadAs (stage : Stage) (f : Frame) (e : Element) : Prop :=
  ∃ arena arena', f.read stage arena = .ok (e, arena')

theorem ReadAs.yields (h : f.ReadAs stage e) : f.Yields e := by
  obtain ⟨_, _, h⟩ := h
  exact yields_of_read h

end Frame

theorem exists_tiles_of_readAll {es : List Element}
    (h : readAll stage position ws arena = .ok (es, arena')) :
    ∃ fs, Frame.Tiles position ws fs ∧ List.Forall₂ (Frame.ReadAs stage) fs es := by
  induction hn : ws.length using Nat.strongRecOn generalizing ws position arena es
  case ind n hi =>
    subst hn
    cases ws
    case nil =>
      cases h
      exact ⟨[], .nil, .nil⟩
    case cons token rest =>
      rw [readAll_cons] at h
      have ⟨f, hcut, h⟩ := bind_eq_ok_iff.mp h
      have ⟨(e, arena₁), hread, h⟩ := bind_eq_ok_iff.mp h
      have ⟨(es', _), hrest, h⟩ := bind_eq_ok_iff.mp h
      cases h
      obtain ⟨rfl, rfl, hwords, hop, hannounces⟩ := Frame.announces_of_cut hcut
      have hshorter : (rest.drop f.words.length).length < (f.token :: rest).length := by
        rw [List.length_drop, List.length_cons]
        omega
      have ⟨fs, htiles, hread'⟩ := hi _ hshorter hrest rfl
      have hsplit : f.token :: rest = f.token :: f.words ++ rest.drop f.words.length := by
        rw [List.cons_append, hwords, List.length_take_of_le (Frame.length_words_of_cut hcut),
          List.take_append_drop]
      exact ⟨f :: fs, hsplit ▸ .cons hop hannounces htiles, hread'.cons ⟨_, _, hread⟩⟩

theorem Frame.isDeclaration_eq_false {f : Frame} (h : f.isInstruction) :
    f.isDeclaration = false := by
  simp_all [isInstruction, isDeclaration]

namespace Element

variable {fs : List Frame} {es : List Element}

theorem heads_instructions (h : List.Forall₂ Frame.Yields fs es) :
    (es.filterMap instruction?).map (fun inst => (inst.position, inst.opcode)) =
      (fs.filter Frame.isInstruction).map fun f => (f.position, f.opcode) := by
  induction h
  case nil => rfl
  case cons f _ _ _ hy _ hi =>
    cases hy
    case instruction hkind hopcode hposition =>
      simp [instruction?, hkind, hopcode, hposition, hi]
    case declaration hkind =>
      have hkind : f.isInstruction = false :=
        Bool.eq_false_iff.mpr fun h => by simp [Frame.isDeclaration_eq_false h] at hkind
      rw [List.filterMap_cons_none rfl, List.filter_cons_of_neg (by simp [hkind]), hi]
    case skipped hdata _ =>
      have hkind : f.isInstruction = false := by simp [Frame.isInstruction, hdata]
      rw [List.filterMap_cons_none rfl, List.filter_cons_of_neg (by simp [hkind]), hi]

theorem positions_declarations {before : Nat} (h : List.Forall₂ Frame.Yields fs es) :
    (declarations before es).map (·.position) =
      (fs.filter Frame.isDeclaration).map (·.position) := by
  induction h generalizing before
  case nil => rfl
  case cons hy _ hi =>
    cases hy
    case instruction hkind _ _ => simp [declarations, Frame.isDeclaration_eq_false hkind, hi]
    case declaration hkind => simp [declarations, hkind, hi]
    case skipped hkind => simp [declarations, hkind, hi]

end Element

theorem Declaration.Counts.eq_countP {d : Declaration} {insts : List Instruction}
    (h : d.Counts 0 insts) :
    d.instructionsBefore = insts.countP (·.position < d.position) := by
  have hmost := h.most
  rw [Nat.zero_add] at hmost
  have hfront : ∀ inst ∈ insts.take d.instructionsBefore, inst.position < d.position := by
    intro inst hinst
    obtain ⟨i, hi, rfl⟩ := List.mem_take_iff_getElem.mp hinst
    exact (h.lt_iff (by omega)).mp (by omega) _ (List.getElem?_eq_getElem _)
  have hback : ∀ inst ∈ insts.drop d.instructionsBefore, ¬inst.position < d.position := by
    intro inst hinst
    obtain ⟨i, hi, rfl⟩ := List.mem_drop_iff_getElem.mp hinst
    have := h.le_iff.mp (Nat.le_add_right _ i) _ (List.getElem?_eq_getElem (by omega))
    omega
  have htake : (insts.take d.instructionsBefore).countP (·.position < d.position) =
      d.instructionsBefore := by
    rw [List.countP_eq_length.mpr (by simpa using hfront), List.length_take_of_le hmost]
  have hdrop : (insts.drop d.instructionsBefore).countP (·.position < d.position) = 0 :=
    List.countP_eq_zero.mpr (by simpa using hback)
  conv_rhs => rw [← List.take_append_drop d.instructionsBefore insts]
  rw [List.countP_append, htake, hdrop, Nat.add_zero]

namespace Program

variable {tokens : List UInt32} {p : Program} {version length : UInt32} {rest : List UInt32}

theorem exists_header (h : 2 ≤ tokens.length) :
    ∃ version length rest, tokens = version :: length :: rest := by
  rcases tokens with _ | ⟨version, _ | ⟨length, rest⟩⟩
  case cons.cons => exact ⟨version, length, rest, rfl⟩
  all_goals simp at h

-- Reads the words behind a header that says how many they are.
def ofBody (version : UInt32) (body : List UInt32) : Except DecodeError Program :=
  match readVersion version with
  | some (stage, model) => (readAll stage 2 body #[]).map (ofElements stage model)
  | none => .error ⟨0, .header .programType⟩

theorem ofBody_eq_ok_iff {body : List UInt32} :
    ofBody version body = .ok p ↔ ∃ stage model r, readVersion version = some (stage, model) ∧
      readAll stage 2 body #[] = .ok r ∧ ofElements stage model r = p := by
  unfold ofBody
  cases readVersion version
  case none => simp
  case some v =>
    simp only [map_eq_ok_iff, Option.some.injEq]
    exact ⟨fun h => ⟨v.1, v.2, h.choose, rfl, h.choose_spec⟩,
      fun ⟨_, _, r, hv, h⟩ => hv ▸ ⟨r, h⟩⟩

-- Either the header is wrong, or the words up to the declared length are read, and no others.
theorem decode_cases (tokens : List UInt32) :
    (∃ e, decode tokens = .error e ∧ e.cause ≠ .endOfStream) ∨
      ∃ version length rest, tokens = version :: length :: rest ∧ 2 ≤ length.toNat ∧
        length.toNat ≤ rest.length + 2 := by
  rcases tokens with _ | ⟨version, _ | ⟨length, rest⟩⟩
  case nil | cons.nil => exact .inl ⟨⟨0, .header .missingTokens⟩, rfl, nofun⟩
  case cons.cons =>
    by_cases hfits : 2 ≤ length.toNat ∧ length.toNat ≤ rest.length + 2
    case pos => exact .inr ⟨version, length, rest, rfl, hfits⟩
    case neg =>
      left
      unfold decode
      dsimp only
      cases readVersion version
      case none => exact ⟨_, rfl, nofun⟩
      case some =>
        dsimp only
        split
        case isTrue => exact ⟨_, rfl, nofun⟩
        case isFalse hlow =>
          rw [if_pos (by simp; omega)]
          exact ⟨_, rfl, nofun⟩

theorem decode_of_fits (hlow : 2 ≤ length.toNat) (hhigh : length.toNat ≤ rest.length + 2) :
    decode (version :: length :: rest) = ofBody version (rest.take (length.toNat - 2)) := by
  unfold decode ofBody
  dsimp only
  cases readVersion version
  case none => rfl
  case some v =>
    dsimp only
    rw [if_neg (by omega), if_neg (by simpa using hhigh)]
    cases h : readAll v.1 2 (rest.take (length.toNat - 2)) #[] <;>
      rw [readAll] at h <;> rw [h] <;> rfl

theorem drop_header {n : Nat} (h : 2 ≤ n) :
    ((version :: length :: rest).take n).drop 2 = rest.take (n - 2) := by
  obtain ⟨m, rfl⟩ := Nat.exists_eq_add_of_le' h
  rfl

-- What a program keeps of the frames that a stream of a declared length is made of.
structure Keeps (p : Program) (tokens : List UInt32) (length : Nat) (fs : List Frame) : Prop where
  declared     : tokens[1]?.map UInt32.toNat = some length
  within       : 2 ≤ length ∧ length ≤ tokens.length
  tiles        : Frame.Tiles 2 ((tokens.take length).drop 2) fs
  covers       : ∀ k, 2 ≤ k → k < length → ∃! f, f ∈ fs ∧ f.Covers k
  inside       : ∀ f ∈ fs, 2 ≤ f.position ∧ f.position + f.length ≤ length
  instructions : p.instructions.map (fun inst => (inst.position, inst.opcode)) =
    (fs.filter Frame.isInstruction).map fun f => (f.position, f.opcode)
  declarations : p.declarations.map (·.position) =
    (fs.filter Frame.isDeclaration).map (·.position)

theorem exists_elements_of_decode (h : decode tokens = .ok p) :
    ∃ length fs stage es, p.Keeps tokens length fs ∧ List.Forall₂ (Frame.ReadAs stage) fs es ∧
      p.declarations = Element.declarations 0 es := by
  obtain ⟨e, herror, _⟩ | ⟨version, length, rest, rfl, hlow, hhigh⟩ := decode_cases tokens
  case inl => cases herror.symm.trans h
  case inr =>
    rw [decode_of_fits hlow hhigh] at h
    obtain ⟨stage, model, ⟨es, arena⟩, _, hread, rfl⟩ := ofBody_eq_ok_iff.mp h
    obtain ⟨fs, htiles, hread⟩ := exists_tiles_of_readAll hread
    have hyields := hread.imp fun _ _ h => h.yields
    have hlength : (rest.take (length.toNat - 2)).length = length.toNat - 2 :=
      List.length_take_of_le (by omega)
    refine ⟨length.toNat, fs, stage, es, ⟨rfl, ⟨hlow, hhigh⟩, drop_header hlow ▸ htiles,
      fun k hk hlt => ?_, ?_, Element.heads_instructions hyields,
      Element.positions_declarations hyields⟩, hread, rfl⟩
    case refine_1 => exact htiles.existsUnique_covers hk (by omega)
    case refine_2 =>
      intro f hf
      have := htiles.bounds f hf
      omega

theorem keeps_of_decode (h : decode tokens = .ok p) : ∃ length fs, p.Keeps tokens length fs := by
  obtain ⟨length, fs, _, _, hkeeps, _⟩ := exists_elements_of_decode h
  exact ⟨length, fs, hkeeps⟩

-- A stream with the same words up to the declared length is the same program.
theorem decode_eq_of_take {n : Nat} {tokens' : List UInt32}
    (hn : tokens[1]?.map UInt32.toNat = some n) (hlow : 2 ≤ n) (hhigh : n ≤ tokens.length)
    (htake : tokens'.take n = tokens.take n) : decode tokens' = decode tokens := by
  have hlength : n ≤ tokens'.length := by
    have := congrArg List.length htake
    rw [List.length_take, List.length_take] at this
    omega
  obtain ⟨m, rfl⟩ := Nat.exists_eq_add_of_le' hlow
  obtain ⟨version, length, rest, rfl⟩ := exists_header (hlow.trans hhigh)
  obtain ⟨version', length', rest', rfl⟩ := exists_header (hlow.trans hlength)
  simp only [List.getElem?_cons_succ, List.getElem?_cons_zero, Option.map_some,
    Option.some.injEq] at hn
  simp only [List.take_succ_cons, List.cons.injEq] at htake
  obtain ⟨rfl, rfl, hrest⟩ := htake
  have hm : length'.toNat - 2 = m := by omega
  rw [decode_of_fits (by omega) (by simpa [hn] using hlength),
    decode_of_fits (by omega) (by simpa [hn] using hhigh), hm, hrest]

theorem decode_tiles_stream (h : decode tokens = .ok p) :
    ∃ length fs, p.Keeps tokens length fs ∧
      (p.instructions.map (·.position)).Pairwise (· < ·) ∧
      (p.declarations.map (·.position)).Pairwise (· < ·) ∧
      (∀ d ∈ p.declarations, (∀ inst ∈ p.instructions, inst.position ≠ d.position) ∧
        d.instructionsBefore = p.instructions.countP (·.position < d.position)) ∧
      ∀ tokens', tokens'.take length = tokens.take length → decode tokens' = .ok p := by
  obtain ⟨length, fs, hkeeps⟩ := keeps_of_decode h
  refine ⟨length, fs, hkeeps, ?instructions, ?declarations, fun d hd => ?counts,
    fun _ htake => ?unchanged⟩
  case instructions =>
    have hpositions := congrArg (List.map Prod.fst) hkeeps.instructions
    rw [List.map_map, List.map_map] at hpositions
    exact hpositions ▸ hkeeps.tiles.sorted_positions _
  case declarations => exact hkeeps.declarations ▸ hkeeps.tiles.sorted_positions _
  case counts =>
    have hcounts := counts_of_decode h d hd
    exact ⟨hcounts.apart, hcounts.eq_countP⟩
  case unchanged =>
    exact (decode_eq_of_take hkeeps.declared hkeeps.within.left hkeeps.within.right
      htake).trans h

-- An input, a comment, `ret`, an immediate constant buffer, and a word behind the program.
def paddedStream : List UInt32 :=
  [0x50, 15, 0x0300005f, 0x001010f2, 0, 0x35, 3, 7, 0x0100003e, 0x1835, 6, 1, 2, 3, 4, 99]

def paddedFrames : List Frame :=
  [⟨2, .dclInput, 0x0300005f, [0x001010f2, 0]⟩, ⟨5, .customData, 0x35, [3, 7]⟩,
    ⟨8, .ret, 0x0100003e, []⟩, ⟨9, .customData, 0x1835, [6, 1, 2, 3, 4]⟩]

theorem Keeps.eq_paddedFrames {length : Nat} {fs : List Frame}
    (h : p.Keeps paddedStream length fs) : length = 15 ∧ fs = paddedFrames := by
  have hlength : length = 15 := Option.some.inj h.declared.symm
  subst hlength
  refine ⟨rfl, h.tiles.unique ?_⟩
  have hbuffer : Frame.Tiles 9 [0x1835, 6, 1, 2, 3, 4] (paddedFrames.drop 3) :=
    .cons (f := ⟨9, .customData, 0x1835, [6, 1, 2, 3, 4]⟩) rfl (.block (by decide) rfl) .nil
  have hret := Frame.Tiles.cons (f := ⟨8, .ret, 0x0100003e, []⟩) rfl
    (.token (by decide) rfl (by decide)) hbuffer
  have hcomment := Frame.Tiles.cons (f := ⟨5, .customData, 0x35, [3, 7]⟩) rfl
    (.block (by decide) rfl) hret
  exact .cons (f := ⟨2, .dclInput, 0x0300005f, [0x001010f2, 0]⟩) rfl
    (.token (by decide) rfl (by decide)) hcomment

theorem decode_tiles_stream_padded :
    ∃ p, decode paddedStream = .ok p ∧ p.Keeps paddedStream 15 paddedFrames ∧
      p.instructions.map (·.position) = [8] ∧
      p.declarations.map (fun d => (d.position, d.instructionsBefore)) = [(2, 0), (9, 1)] ∧
      (∀ d ∈ p.declarations,
        d.instructionsBefore = p.instructions.countP (·.position < d.position)) ∧
      decode (paddedStream.take 15 ++ [1, 2]) = .ok p := by
  obtain ⟨p, h, hinsts, hdecls⟩ : ∃ p, decode paddedStream = .ok p ∧
      p.instructions.map (·.position) = [8] ∧
      p.declarations.map (fun d => (d.position, d.instructionsBefore)) = [(2, 0), (9, 1)] := by
    decide +kernel
  obtain ⟨length, fs, hkeeps, _, _, hcounts, hunchanged⟩ := decode_tiles_stream h
  obtain ⟨rfl, rfl⟩ := hkeeps.eq_paddedFrames
  exact ⟨p, h, hkeeps, hinsts, hdecls, fun d hd => (hcounts d hd).right, hunchanged _ rfl⟩

end Program

end ShaderLift
