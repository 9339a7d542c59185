import ShaderLift.Proofs.Decode.Tiling

/-!
Streams that are cut short. A cut inside of a frame is an error that tells where this frame starts,
or, if only the first word of a data block is left, that the stream ends there.
-/

namespace ShaderLift

variable {stage : Stage} {arena arena' : Arena} {position n k : Nat} {ws : List UInt32}

theorem bind_eq_error_iff {ε α β : Type} {x : Except ε α} {f : α → Except ε β} {e : ε} :
    x >>= f = .error e ↔ x = .error e ∨ ∃ a, x = .ok a ∧ f a = .error e := by
  cases x <;> simp [bind, Except.bind]

namespace Frame

variable {f : Frame} {fs : List Frame} {token : UInt32}

-- What is wrong with a frame of which only the words before `k` are there.
def cutError (f : Frame) (k : Nat) : DecodeError :=
  if f.opcode = .customData ∧ k = f.position + 1 then ⟨k, .endOfStream⟩
  else ⟨f.position, .lengthMismatch f.length (k - f.position)⟩

theorem cut_take (hop : Opcode.ofRaw? (Word.bits f.token 0 11) = some f.opcode)
    (ha : Announces f.token f.words f.length f.opcode) (hn : n < f.words.length) :
    cut f.position f.token (f.words.take n) = .error (f.cutError (f.position + (n + 1))) := by
  obtain ⟨position, op, token, words⟩ := f
  have havailable : (words.take n).length + 1 = n + 1 := by
    rw [List.length_take_of_le (Nat.le_of_lt hn)]
  have hdistance : position + (n + 1) - position = n + 1 := Nat.add_sub_cancel_left ..
  unfold cut cutError
  rw [hop]
  dsimp only at hn ha ⊢
  cases ha
  case block h hl =>
    cases words
    case nil => cases hl
    case cons w words =>
      have hw : w.toNat = words.length + 2 := Option.some.inj hl
      cases n
      case zero => simp [throw, throwThe, MonadExceptOf.throw]
      case succ n =>
        rw [List.length_cons] at hn
        rw [havailable, hdistance, List.take_succ_cons]
        dsimp only
        rw [if_pos (by omega), if_neg (by simp), hw]
        rfl
  case token h hl hne =>
    have hlength : n + 1 < Word.bits token 24 7 := by
      rw [hl, Frame.length]
      exact Nat.succ_lt_succ hn
    have hconsumed : min (n + 1) (max (Word.bits token 24 7) 1) = n + 1 := by omega
    split
    case h_1 he => cases he
    case h_2 he => exact absurd (Option.some.inj he) hne
    case h_3 =>
      rw [havailable, hdistance, if_pos (.inr hlength), hconsumed, if_neg (by simp [hne]), hl]
      rfl

-- Only a data block without its second word ends too early.
theorem cut_eq_endOfStream_iff :
    cut position token ws = .error ⟨n, .endOfStream⟩ ↔
      Opcode.ofRaw? (Word.bits token 0 11) = some .customData ∧ ws = [] ∧ n = position + 1 := by
  unfold cut
  cases hop : Opcode.ofRaw? (Word.bits token 0 11)
  case none => simp [throw, throwThe, MonadExceptOf.throw]
  case some op =>
    by_cases hdata : op = .customData
    case pos =>
      subst hdata
      cases ws
      case nil => simp [throw, throwThe, MonadExceptOf.throw, eq_comm]
      case cons =>
        dsimp only
        split <;> simp [throw, throwThe, MonadExceptOf.throw, pure, Except.pure]
    case neg =>
      dsimp only
      split
      case h_1 he => cases he
      case h_2 he => exact absurd (Option.some.inj he) hdata
      case h_3 => split <;> simp [throw, throwThe, MonadExceptOf.throw, pure, Except.pure, hdata]

theorem read_ne_endOfStream : f.read stage arena ≠ .error ⟨n, .endOfStream⟩ := by
  unfold read
  split
  case isTrue => exact nofun
  case isFalse =>
    split
    case h_1 => simp
    case h_2 e _ hne _ =>
      intro h
      exact hne n (Except.error.inj h)
    case h_3 r _ =>
      unfold Decoder.expectEnd
      cases r.isAtEnd <;> simp

end Frame

-- A whole frame at the front of a stream is read, and then the rest.
theorem readAll_frame {f : Frame} {rest : List UInt32}
    (hop : Opcode.ofRaw? (Word.bits f.token 0 11) = some f.opcode)
    (ha : Frame.Announces f.token f.words f.length f.opcode) :
    readAll stage f.position (f.token :: f.words ++ rest) arena = do
      let (element, arena) ← f.read stage arena
      let (elements, arena) ← readAll stage (f.position + f.length) rest arena
      return (element :: elements, arena) := by
  rw [List.cons_append, readAll_cons, Frame.cut_append (Frame.cut_of_announces hop ha)]
  simp only [bind, Except.bind, List.drop_left]

theorem readAll_take {es : List Element} {fs : List Frame} (htiles : Frame.Tiles position ws fs)
    (h : readAll stage position ws arena = .ok (es, arena')) (hk : k < ws.length)
    (hstart : ∀ f ∈ fs, f.position ≠ position + k) :
    ∃ f ∈ fs, f.position < position + k ∧ position + k < f.position + f.length ∧
      readAll stage position (ws.take k) arena = .error (f.cutError (position + k)) := by
  induction htiles generalizing arena es k
  case nil => cases hk
  case cons f rest fs hop ha tail hi =>
    by_cases hinside : k < f.length
    case pos =>
      obtain ⟨n, rfl⟩ : ∃ n, k = n + 1 :=
        Nat.exists_eq_add_one_of_ne_zero fun hzero => hstart f List.mem_cons_self (by simp [hzero])
      have hn : n < f.words.length := Nat.lt_of_succ_lt_succ hinside
      refine ⟨f, List.mem_cons_self, by omega, by omega, ?_⟩
      rw [List.cons_append, List.take_succ_cons, List.take_append_of_le_length (Nat.le_of_lt hn),
        readAll_cons, Frame.cut_take hop ha hn]
      rfl
    case neg =>
      obtain ⟨m, rfl⟩ := Nat.exists_eq_add_of_le (Nat.le_of_not_lt hinside)
      have hlength : (f.token :: f.words).length = f.length := rfl
      have hm : m < rest.length := by
        rw [List.length_append, hlength] at hk
        omega
      rw [readAll_frame hop ha] at h
      have ⟨(e, arena₁), hread, h⟩ := bind_eq_ok_iff.mp h
      have ⟨(es', _), hrest, h⟩ := bind_eq_ok_iff.mp h
      cases h
      have hstart' g (hg : g ∈ fs) : g.position ≠ f.position + f.length + m := by
        rw [Nat.add_assoc]
        exact hstart g (List.mem_cons_of_mem _ hg)
      obtain ⟨g, hg, hbefore, hbehind, herror⟩ := hi hrest hm hstart'
      rw [Nat.add_assoc] at hbefore hbehind herror
      refine ⟨g, List.mem_cons_of_mem _ hg, hbefore, hbehind, ?_⟩
      rw [← hlength, List.take_length_add_append, readAll_frame hop ha, hread, hlength]
      simp only [bind, Except.bind]
      rw [herror]

theorem readAll_eq_endOfStream_iff :
    readAll stage position ws arena = .error ⟨n, .endOfStream⟩ ↔
      n = position + ws.length ∧ ∃ front token r, ws = front ++ [token] ∧
        Opcode.ofRaw? (Word.bits token 0 11) = some .customData ∧
        readAll stage position front arena = .ok r := by
  constructor
  case mpr =>
    rintro ⟨rfl, front, token, ⟨es, arena'⟩, rfl, hop, hfront⟩
    have hcut : Frame.cut (position + front.length) token [] =
        .error ⟨position + front.length + 1, .endOfStream⟩ :=
      Frame.cut_eq_endOfStream_iff.mpr ⟨hop, rfl, rfl⟩
    rw [readAll_append hfront, readAll_cons, hcut, List.length_append]
    rfl
  case mp =>
    intro h
    induction hlength : ws.length using Nat.strongRecOn generalizing ws position arena
    case ind length hi =>
      subst hlength
      cases ws
      case nil => cases h
      case cons token rest =>
        rw [readAll_cons] at h
        obtain hcut | ⟨f, hcut, h⟩ := bind_eq_error_iff.mp h
        case inl =>
          obtain ⟨hop, rfl, rfl⟩ := Frame.cut_eq_endOfStream_iff.mp hcut
          exact ⟨rfl, [], token, _, rfl, hop, rfl⟩
        case inr =>
          obtain hread | ⟨⟨e, arena₁⟩, hread, h⟩ := bind_eq_error_iff.mp h
          case inl => exact absurd hread Frame.read_ne_endOfStream
          case inr =>
            obtain hrest | ⟨_, _, h⟩ := bind_eq_error_iff.mp h
            case inr => cases h
            case inl =>
              obtain ⟨rfl, rfl, hwords, hop, ha⟩ := Frame.announces_of_cut hcut
              have hle := Frame.length_words_of_cut hcut
              have hshorter : (rest.drop f.words.length).length < (f.token :: rest).length := by
                rw [List.length_drop, List.length_cons]
                omega
              obtain ⟨hn, front, token, ⟨es, arena₂⟩, hdrop, htoken, hfront⟩ :=
                hi _ hshorter hrest rfl
              refine ⟨?_, f.token :: f.words ++ front, token, (e :: es, arena₂), ?_, htoken, ?_⟩
              case refine_1 =>
                rw [hn, List.length_drop, List.length_cons, Frame.length]
                omega
              case refine_2 =>
                rw [List.append_assoc, ← hdrop, List.cons_append, hwords,
                  List.length_take_of_le hle, List.take_append_drop]
              case refine_3 =>
                rw [readAll_frame hop ha, hread]
                simp only [bind, Except.bind, hfront]
                rfl

namespace Program

variable {tokens rest : List UInt32} {version length : UInt32} {p : Program}

-- The first `k` words of a program, which say that they are `k`.
def truncate (tokens : List UInt32) (k : Nat) : List UInt32 :=
  (tokens.take k).set 1 (.ofNat k)

theorem decode_truncate (hlow : 2 ≤ k) (hhigh : k ≤ rest.length + 2) (hk : k < UInt32.size) :
    decode (truncate (version :: length :: rest) k) = ofBody version (rest.take (k - 2)) := by
  obtain ⟨m, rfl⟩ := Nat.exists_eq_add_of_le' hlow
  have hlength : (UInt32.ofNat (m + 2)).toNat = m + 2 := UInt32.toNat_ofNat_of_lt hk
  have htruncate : truncate (version :: length :: rest) (m + 2) =
      version :: .ofNat (m + 2) :: rest.take m := rfl
  have hfits : m + 2 ≤ (rest.take m).length + 2 := by
    rw [List.length_take]
    omega
  rw [htruncate, decode_of_fits (by omega) (by rwa [hlength]), hlength, Nat.add_sub_cancel,
    List.take_take, Nat.min_self]

-- A cut between the first and the last word of a frame.
theorem decode_truncate_inside {n : Nat} {fs : List Frame} (h : decode tokens = .ok p)
    (hkeeps : p.Keeps tokens n fs) (hlow : 2 ≤ k) (hlt : k < n)
    (hstart : ∀ f ∈ fs, f.position ≠ k) :
    ∃ f ∈ fs, f.position < k ∧ k < f.position + f.length ∧
      decode (truncate tokens k) = .error (f.cutError k) := by
  obtain ⟨hn, hhigh⟩ := hkeeps.within
  obtain ⟨version, length, rest, rfl⟩ := exists_header (hn.trans hhigh)
  obtain rfl : length.toNat = n := Option.some.inj hkeeps.declared
  obtain ⟨m, rfl⟩ := Nat.exists_eq_add_of_le' hlow
  have hhigh : length.toNat ≤ rest.length + 2 := hhigh
  have htiles : Frame.Tiles 2 (rest.take (length.toNat - 2)) fs := drop_header hn ▸ hkeeps.tiles
  have hm : m < (rest.take (length.toNat - 2)).length := by
    rw [List.length_take]
    omega
  rw [decode_truncate hlow (by omega) (hlt.trans length.toNat_lt)]
  rw [decode_of_fits hn hhigh] at h
  obtain ⟨stage, model, ⟨es, arena⟩, hversion, hread, rfl⟩ := ofBody_eq_ok_iff.mp h
  rw [Nat.add_comm] at hstart ⊢
  obtain ⟨f, hf, hbefore, hbehind, herror⟩ := readAll_take htiles hread hm hstart
  rw [List.take_take, Nat.min_eq_left (by omega)] at herror
  refine ⟨f, hf, hbefore, hbehind, ?_⟩
  rw [Nat.add_sub_cancel_left, ofBody, hversion]
  dsimp only
  rw [herror]
  rfl

theorem ofBody_eq_endOfStream_iff {body : List UInt32} :
    ofBody version body = .error ⟨n, .endOfStream⟩ ↔
      n = 2 + body.length ∧ ∃ front token, body = front ++ [token] ∧
        Opcode.ofRaw? (Word.bits token 0 11) = some .customData ∧
        ∃ q, ofBody version front = .ok q := by
  simp only [ofBody_eq_ok_iff]
  unfold ofBody
  cases readVersion version
  case none => simp
  case some v =>
    have hmap : (readAll v.1 2 body #[]).map (ofElements v.1 v.2) = .error ⟨n, .endOfStream⟩ ↔
        readAll v.1 2 body #[] = .error ⟨n, .endOfStream⟩ := by
      cases readAll v.1 2 body #[] <;> simp [Except.map]
    rw [hmap, readAll_eq_endOfStream_iff]
    refine and_congr .rfl (exists_congr fun front => exists_congr fun token => ?_)
    constructor
    case mp =>
      rintro ⟨r, hbody, hop, hfront⟩
      exact ⟨hbody, hop, _, v.1, v.2, r, rfl, hfront, rfl⟩
    case mpr =>
      rintro ⟨hbody, hop, _, _, _, r, hv, hfront, _⟩
      cases hv
      exact ⟨r, hbody, hop, hfront⟩

-- The stream ends too early exactly where a program is followed by the first word of a data block.
theorem decode_eq_endOfStream_iff :
    decode tokens = .error ⟨n, .endOfStream⟩ ↔
      tokens[1]?.map UInt32.toNat = some n ∧ 2 < n ∧ n ≤ tokens.length ∧
        (∃ token, tokens[n - 1]? = some token ∧
          Opcode.ofRaw? (Word.bits token 0 11) = some .customData) ∧
        ∃ q, decode (truncate tokens (n - 1)) = .ok q := by
  constructor
  case mp =>
    intro h
    obtain ⟨e, herror, hne⟩ | ⟨version, length, rest, rfl, hlow, hhigh⟩ := decode_cases tokens
    case inl =>
      cases herror.symm.trans h
      exact absurd rfl hne
    case inr =>
      rw [decode_of_fits hlow hhigh, ofBody_eq_endOfStream_iff] at h
      obtain ⟨hn, front, token, hbody, hop, q, hq⟩ := h
      have hlength : (rest.take (length.toNat - 2)).length = length.toNat - 2 :=
        List.length_take_of_le (by omega)
      obtain rfl : n = length.toNat := by omega
      have hfront : length.toNat = front.length + 3 := by
        rw [hbody, List.length_append, List.length_singleton] at hlength
        omega
      have htoken : rest[front.length]? = some token := by
        rw [← List.getElem?_take_of_lt (j := length.toNat - 2) (by omega), hbody]
        simp
      have htake : rest.take (length.toNat - 1 - 2) = front := by
        rw [← Nat.min_eq_left (show length.toNat - 1 - 2 ≤ length.toNat - 2 by omega),
          ← List.take_take, hbody]
        simp [hfront]
      refine ⟨rfl, by omega, hhigh, ⟨token, ?_, hop⟩, q, ?_⟩
      case refine_1 => simpa [hfront] using htoken
      case refine_2 =>
        have hlt : length.toNat - 1 < 2 ^ 32 := lt_of_le_of_lt (Nat.sub_le _ _) length.toNat_lt
        rwa [decode_truncate (by omega) (by omega) hlt, htake]
  case mpr =>
    rintro ⟨hn, hlow, hhigh, ⟨token, htoken, hop⟩, q, hq⟩
    obtain ⟨version, length, rest, rfl⟩ := exists_header (hlow.le.trans hhigh)
    obtain rfl : length.toNat = n := Option.some.inj hn
    obtain ⟨m, hm⟩ : ∃ m, length.toNat = m + 3 := Nat.exists_eq_add_of_le' hlow
    have hhigh : length.toNat ≤ rest.length + 2 := hhigh
    rw [decode_of_fits (by omega) hhigh, ofBody_eq_endOfStream_iff]
    have hlt : length.toNat - 1 < 2 ^ 32 := lt_of_le_of_lt (Nat.sub_le _ _) length.toNat_lt
    rw [decode_truncate (by omega) (by omega) hlt] at hq
    rw [hm] at hq htoken hhigh ⊢
    have htoken : rest[m]? = some token := htoken
    refine ⟨?_, rest.take m, token, ?_, hop, q, hq⟩
    case refine_1 =>
      rw [List.length_take]
      omega
    case refine_2 => rw [show m + 3 - 2 = m + 1 from rfl, List.take_add_one, htoken]; rfl

theorem truncated_never_silent :
    (∀ tokens p, decode tokens = .ok p → ∃ length fs, p.Keeps tokens length fs ∧
      ∀ k, 2 ≤ k → k < length → (∀ f ∈ fs, f.position ≠ k) →
        ∃ f ∈ fs, f.position < k ∧ k < f.position + f.length ∧
          decode (truncate tokens k) = .error (f.cutError k)) ∧
    ∀ tokens n, decode tokens = .error ⟨n, .endOfStream⟩ ↔
      tokens[1]?.map UInt32.toNat = some n ∧ 2 < n ∧ n ≤ tokens.length ∧
        (∃ token, tokens[n - 1]? = some token ∧
          Opcode.ofRaw? (Word.bits token 0 11) = some .customData) ∧
        ∃ q, decode (truncate tokens (n - 1)) = .ok q := by
  refine ⟨fun tokens p h => ?_, fun tokens n => decode_eq_endOfStream_iff⟩
  obtain ⟨length, fs, hkeeps⟩ := keeps_of_decode h
  exact ⟨length, fs, hkeeps, fun k hk hlt hstart => decode_truncate_inside h hkeeps hk hlt hstart⟩

-- Cuts behind the first and behind the second word of the comment.
theorem truncated_never_silent_padded :
    (∃ p, decode paddedStream = .ok p ∧ p.Keeps paddedStream 15 paddedFrames) ∧
      decode (truncate paddedStream 7) = .error ⟨5, .lengthMismatch 3 2⟩ ∧
      decode (truncate paddedStream 6) = .error ⟨6, .endOfStream⟩ ∧
      ∃ q, decode (truncate (truncate paddedStream 6) 5) = .ok q := by
  obtain ⟨p, h⟩ : ∃ p, decode paddedStream = .ok p := by decide +kernel
  obtain ⟨hcut, hend⟩ := truncated_never_silent
  obtain ⟨length, fs, hkeeps, hcut⟩ := hcut _ p h
  obtain ⟨rfl, rfl⟩ := hkeeps.eq_paddedFrames
  let comment : Frame := ⟨5, .customData, 0x35, [3, 7]⟩
  have hat {k : Nat} (hk : 5 < k) (hlt : k < 8) :
      decode (truncate paddedStream k) = .error (comment.cutError k) := by
    have hstart : ∀ f ∈ paddedFrames, f.position ≠ k := by
      simp [paddedFrames]
      omega
    obtain ⟨f, hf, hbefore, hbehind, herror⟩ := hcut k (by omega) (by omega) hstart
    have hcovers : comment.Covers k := ⟨by dsimp only [comment]; omega, hlt⟩
    obtain ⟨_, _, hunique⟩ := hkeeps.covers k (by omega) (by omega)
    rw [hunique comment ⟨by decide, hcovers⟩, ← hunique f ⟨hf, hbefore.le, hbehind⟩]
    exact herror
  have hsix := hat (k := 6) (by decide) (by decide)
  exact ⟨⟨p, h, hkeeps⟩, hat (by decide) (by decide), hsix, ((hend _ _).mp hsix).2.2.2.2⟩

end Program

end ShaderLift
