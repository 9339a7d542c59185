import Mathlib.Data.List.Induction
import ShaderLift.Proofs.Decode.Relocation
import ShaderLift.Proofs.Lift.Lifted

/-!
Decoding a stream piece by piece. What a stream holds is what its first part holds, followed by what
the rest holds, moved behind it.
-/

namespace ShaderLift

variable {stage : Stage} {arena arena' : Arena} {position : Nat} {a b : List UInt32}

namespace Frame

variable {op : Opcode} {token : UInt32} {rest : List UInt32} {length : Nat} {f : Frame}

-- What a frame with the given token and the given words behind it says about its length.
inductive Announces (token : UInt32) (rest : List UInt32) (length : Nat) : Opcode → Prop
  | block (h : 2 ≤ length) (hl : rest.head?.map UInt32.toNat = some length) :
      Announces token rest length .customData
  | token {op : Opcode} (h : 0 < length) (hl : Word.bits token 24 7 = length)
      (hop : op ≠ .customData) : Announces token rest length op

theorem Announces.append (h : Announces token rest length op) :
    Announces token (rest ++ b) length op := by
  cases h
  case block h hl =>
    cases rest
    case nil => cases hl
    case cons => exact .block h hl
  case token h hl hop => exact .token h hl hop

theorem cut_eq_ok_iff :
    cut position token rest = .ok f ↔ ∃ op length, Opcode.ofRaw? (Word.bits token 0 11) = some op ∧
      Announces token rest length op ∧ length ≤ rest.length + 1 ∧
      f = ⟨position, op, token, rest.take (length - 1)⟩ := by
  constructor
  case mp =>
    intro h
    unfold cut at h
    dsimp only at h
    split at h
    case h_1 => cases h
    case h_2 hop =>
      split at h
      case h_1 => cases h
      case h_2 =>
        split at h
        case isTrue => cases h
        case isFalse hl =>
          cases h
          exact ⟨_, _, hop, .block (by omega) rfl, by omega, rfl⟩
    case h_3 hne hop =>
      split at h
      case isTrue => cases h
      case isFalse hl =>
        cases h
        exact ⟨_, _, hop, .token (by omega) rfl hne, by omega, rfl⟩
  case mpr =>
    rintro ⟨op, length, hop, hannounces, hlength, rfl⟩
    unfold cut
    rw [hop]
    cases hannounces
    case block h hl =>
      cases rest
      case nil => cases hl
      case cons w _ =>
        cases hl
        exact if_neg (by omega)
    case token h hl hne =>
      subst hl
      dsimp only
      split
      case h_1 he => cases he
      case h_2 he => exact absurd (Option.some.inj he) hne
      case h_3 he =>
        cases he
        exact if_neg (by omega)

theorem length_words_of_cut (h : cut position token rest = .ok f) :
    f.words.length ≤ rest.length := by
  have ⟨_, _, _, _, _, hf⟩ := cut_eq_ok_iff.mp h
  rw [hf]
  exact List.length_take_le' ..

-- A frame that was cut from a stream is cut from any longer one.
theorem cut_append (h : cut position token rest = .ok f) :
    cut position token (rest ++ b) = .ok f := by
  have ⟨op, length, hop, hannounces, hlength, hf⟩ := cut_eq_ok_iff.mp h
  refine cut_eq_ok_iff.mpr ⟨op, length, hop, hannounces.append, ?_, ?_⟩
  case refine_1 =>
    rw [List.length_append]
    omega
  case refine_2 => rw [hf, List.take_append_of_le_length (by omega)]

end Frame

theorem readFrames_bound {n m : Nat} (hn : a.length ≤ n) (hm : a.length ≤ m) :
    readFrames stage n position a arena = readFrames stage m position a arena := by
  induction n generalizing m position a arena
  case zero =>
    have ha : a = [] := List.eq_nil_of_length_eq_zero (Nat.le_zero.mp hn)
    cases ha
    cases m <;> rfl
  case succ n hi =>
    cases a
    case nil => cases m <;> rfl
    case cons token rest =>
      cases m
      case zero => cases hm
      case succ m =>
        have hdrop {k l : Nat} (h : rest.length + 1 ≤ k + 1) : (rest.drop l).length ≤ k := by
          rw [List.length_drop]
          omega
        refine bind_congr fun f => bind_congr fun (e, arena) => ?_
        dsimp only
        rw [hi (hdrop hn) (hdrop hm)]

-- Reads the frames of a whole stream.
def readAll (stage : Stage) (position : Nat) (ws : List UInt32) (arena : Arena) :
    Except DecodeError (List Element × Arena) :=
  readFrames stage ws.length position ws arena

theorem readAll_cons {token : UInt32} {rest : List UInt32} :
    readAll stage position (token :: rest) arena = do
      let frame ← Frame.cut position token rest
      let (element, arena) ← frame.read stage arena
      let (elements, arena) ←
        readAll stage (position + frame.length) (rest.drop frame.words.length) arena
      return (element :: elements, arena) := by
  refine bind_congr fun f => bind_congr fun (e, arena) => ?_
  have hdrop : (rest.drop f.words.length).length ≤ rest.length := by simp
  exact congrArg (· >>= _) (readFrames_bound hdrop (Nat.le_refl _))

theorem readAll_append {es : List Element} (h : readAll stage position a arena = .ok (es, arena')) :
    readAll stage position (a ++ b) arena =
      (readAll stage (position + a.length) b arena').map (Prod.map (es ++ ·) id) := by
  induction hn : a.length using Nat.strongRecOn generalizing a position arena es
  case ind n hi =>
    subst hn
    cases a
    case nil =>
      cases h
      exact (congrFun Except.map_id _).symm
    case cons token rest =>
      rw [readAll_cons] at h
      have ⟨f, hcut, h⟩ := bind_eq_ok_iff.mp h
      have ⟨(e, arena₁), hread, h⟩ := bind_eq_ok_iff.mp h
      have ⟨(es', _), hrest, h⟩ := bind_eq_ok_iff.mp h
      cases h
      have hwords := Frame.length_words_of_cut hcut
      have hdrop : (rest ++ b).drop f.words.length = rest.drop f.words.length ++ b :=
        List.drop_append_of_le_length hwords
      have hshorter : (rest.drop f.words.length).length < (token :: rest).length := by
        rw [List.length_drop, List.length_cons]
        omega
      have hposition : position + f.length + (rest.drop f.words.length).length =
          position + (token :: rest).length := by
        rw [List.length_drop, List.length_cons, Frame.length]
        omega
      have hi := hi _ hshorter hrest rfl
      rw [hposition, ← hdrop] at hi
      rw [List.cons_append, readAll_cons, Frame.cut_append hcut]
      simp only [bind, Except.bind, hread, hi]
      cases readAll stage (position + (token :: rest).length) b arena' <;> rfl

theorem readAll_behind {words : Nat} :
    readAll stage (position + words) b arena = relocated words
      (fun (es, arena') => (es.map (Element.move words arena.size), arena.after arena'))
      (readAll stage position b #[]) := by
  have hempty : arena.after #[] = arena := by simp [Arena.after]
  rw [readAll, readAll, ← readFrames_move, hempty]

theorem map_eq_ok_iff {ε α β : Type} {x : Except ε α} {f : α → β} {b : β} :
    x.map f = .ok b ↔ ∃ a, x = .ok a ∧ f a = b := by
  cases x <;> simp [Except.map]

def Declaration.move (words n instructions : Nat) (d : Declaration) : Declaration where
  declared := d.declared.move n
  position := d.position + words
  instructionsBefore := d.instructionsBefore + instructions

namespace Element

variable {words n before : Nat} {es es' : List Element}

theorem declarations_append :
    declarations before (es ++ es') = declarations before es ++
      declarations (before + (es.filterMap instruction?).length) es' := by
  induction es generalizing before
  case nil => rfl
  case cons e es hi =>
    cases e
    case declaration => exact congrArg _ hi
    case skipped => exact hi
    case instruction =>
      refine hi.trans ?_
      rw [Nat.add_right_comm]
      rfl

theorem declarations_move {k : Nat} :
    declarations (before + k) (es.map (move words n)) =
      (declarations before es).map (Declaration.move words n k) := by
  induction es generalizing before
  case nil => rfl
  case cons e es hi =>
    cases e
    case declaration => exact congrArg _ hi
    case skipped => exact hi
    case instruction =>
      rw [List.map_cons, move, declarations, declarations, Nat.add_right_comm]
      exact hi

theorem instruction?_move {e : Element} :
    (e.move words n).instruction? = e.instruction?.map (Instruction.move words n) := by
  cases e <;> rfl

end Element

namespace StageInfo

-- What declarations say that stand behind others. A word of flags that are all clear looks like
-- none, so `flagged` tells whether there is one.
def after (earlier : StageInfo) (flagged : Bool) (info : StageInfo) : StageInfo where
  gsInputPrimitive    := info.gsInputPrimitive.or earlier.gsInputPrimitive
  gsOutputTopology    := info.gsOutputTopology.or earlier.gsOutputTopology
  gsMaxOutputVertices := info.gsMaxOutputVertices.or earlier.gsMaxOutputVertices
  gsInstanceCount     := info.gsInstanceCount.or earlier.gsInstanceCount
  tessDomain          := info.tessDomain.or earlier.tessDomain
  tessPartitioning    := info.tessPartitioning.or earlier.tessPartitioning
  tessOutputPrimitive := info.tessOutputPrimitive.or earlier.tessOutputPrimitive
  inputControlPoints  := info.inputControlPoints.or earlier.inputControlPoints
  outputControlPoints := info.outputControlPoints.or earlier.outputControlPoints
  maxTessFactor       := info.maxTessFactor.or earlier.maxTessFactor
  threadGroup         := info.threadGroup.or earlier.threadGroup
  globalFlags         := if flagged then info.globalFlags else earlier.globalFlags

def isFlags : Declared → Bool
  | .globalFlags _ => true
  | _ => false

theorem after_add {earlier info : StageInfo} {flagged : Bool} {d : Declared} :
    (earlier.after flagged info).add d = earlier.after (flagged || isFlags d) (info.add d) := by
  cases d
  case globalFlags => simp [add, after, isFlags]
  all_goals simp [add, after, isFlags]

theorem foldl_add {earlier : StageInfo} {ds : List Declaration} :
    ds.foldl (fun info d => info.add d.declared) earlier =
      earlier.after (ds.any fun d => isFlags d.declared) (ofDeclarations ds) := by
  induction ds using List.reverseRecOn
  case nil => rfl
  case append_singleton ds d hi =>
    have hlast : ofDeclarations (ds ++ [d]) = (ofDeclarations ds).add d.declared := by
      simp [ofDeclarations]
    rw [List.foldl_append, hi, List.any_append, hlast]
    simpa using after_add

theorem add_move {info : StageInfo} {n : Nat} {d : Declared} :
    info.add (d.move n) = info.add d := by
  cases d <;> rfl

theorem ofDeclarations_append {words n k : Nat} {ds ds' : List Declaration} :
    ofDeclarations (ds ++ ds'.map (Declaration.move words n k)) =
      (ofDeclarations ds).after (ds'.any fun d => isFlags d.declared) (ofDeclarations ds') := by
  calc ofDeclarations (ds ++ ds'.map (Declaration.move words n k))
    _ = (ds'.map (Declaration.move words n k)).foldl (fun info d => info.add d.declared)
          (ofDeclarations ds) := List.foldl_append
    _ = ds'.foldl (fun info d => info.add d.declared) (ofDeclarations ds) := by
      simp only [List.foldl_map, Declaration.move, add_move]
    _ = _ := foldl_add

end StageInfo

namespace Program

def declaresFlags (p : Program) : Bool :=
  p.declarations.any fun d => StageInfo.isFlags d.declared

-- A program of `words` words, and behind it another one.
def append (p : Program) (words : Nat) (q : Program) : Program :=
  { p with
    declarations := p.declarations ++
      q.declarations.map (Declaration.move words p.operands.size p.instructions.length)
    stageInfo := p.stageInfo.after q.declaresFlags q.stageInfo
    instructions := p.instructions ++ q.instructions.map (Instruction.move words p.operands.size)
    operands := p.operands.after q.operands }

theorem stageInfo_append {p q : Program} {words : Nat} :
    (p.append words q).stageInfo = p.stageInfo.after q.declaresFlags q.stageInfo :=
  rfl

-- The words of a program whose length is the one that it declares.
def stream (version : UInt32) (body : List UInt32) : List UInt32 :=
  version :: .ofNat (body.length + 2) :: body

def ofElements (stage : Stage) (model : ShaderModel) (es : List Element × Arena) : Program where
  stage := stage
  model := model
  declarations := Element.declarations 0 es.1
  instructions := es.1.filterMap Element.instruction?
  operands := es.2

variable {version : UInt32} {body : List UInt32}

theorem decode_stream (h : body.length + 2 < UInt32.size) :
    decode (stream version body) =
      match readVersion version with
      | some (stage, model) => (readAll stage 2 body #[]).map (ofElements stage model)
      | none => .error ⟨0, .header .programType⟩ := by
  have hlength : (UInt32.ofNat (body.length + 2)).toNat = body.length + 2 :=
    UInt32.toNat_ofNat_of_lt h
  have htake : body.take (body.length + 2 - 2) = body := List.take_length
  unfold decode stream
  dsimp only
  cases readVersion version
  case none => rfl
  case some v =>
    dsimp only
    rw [hlength, if_neg (by omega), if_neg (by simp), htake]
    cases h : readAll v.1 2 body #[] <;> rw [readAll] at h <;> rw [h] <;> rfl

theorem ofElements_append {model : ShaderModel} {words : Nat} {es es' : List Element} :
    ofElements stage model
        (es ++ es'.map (Element.move words arena.size), arena.after arena') =
      (ofElements stage model (es, arena)).append words (ofElements stage model (es', arena')) := by
  have hmove : Element.instruction? ∘ Element.move words arena.size = fun e =>
      e.instruction?.map (Instruction.move words arena.size) :=
    funext fun _ => Element.instruction?_move
  simp only [ofElements, append, declaresFlags, StageInfo.ofDeclarations_append,
    Element.declarations_append, Element.declarations_move, List.filterMap_append,
    List.filterMap_map, List.map_filterMap, hmove]

theorem decode_append {p : Program} (hlength : a.length + b.length + 2 < UInt32.size)
    (ha : decode (stream version a) = .ok p) :
    decode (stream version (a ++ b)) =
        relocated a.length (p.append a.length) (decode (stream version b)) ∧
      ∀ q, (p.append a.length q).stageInfo = p.stageInfo.after q.declaresFlags q.stageInfo := by
  refine ⟨?_, fun q => stageInfo_append⟩
  rw [decode_stream (by rw [List.length_append]; omega), decode_stream (by omega)]
  rw [decode_stream (by omega)] at ha
  revert ha
  cases readVersion version
  case none => exact nofun
  case some v =>
    intro ha
    have ⟨stage, model⟩ := v
    have ⟨(es, arena), hes, hp⟩ := map_eq_ok_iff.mp ha
    dsimp only
    rw [readAll_append hes, readAll_behind, ← hp]
    cases readAll stage 2 b #[]
    case error => rfl
    case ok => exact congrArg Except.ok ofElements_append

-- `mov r0, cb0[r1.x + 4]`, and an input before and flags behind it.
def inputAndMove : List UInt32 :=
  [0x0300005f, 0x001010f2, 0, 0x08000036, 0x001000f2, 0, 0x06208e46, 0, 4, 0x0010000a, 1]

def moveAndFlags : List UInt32 :=
  [0x08000036, 0x001000f2, 0, 0x06208e46, 0, 4, 0x0010000a, 1, 0x0100086a]

theorem decode_append_inputMoveFlags :
    ∃ p q, decode (stream 0x50 inputAndMove) = .ok p ∧ decode (stream 0x50 moveAndFlags) = .ok q ∧
      decode (stream 0x50 (inputAndMove ++ moveAndFlags)) = .ok (p.append 11 q) ∧
      (p.append 11 q).stageInfo = p.stageInfo.after true q.stageInfo := by
  obtain ⟨p, ha⟩ : ∃ p, decode (stream 0x50 inputAndMove) = .ok p := by decide +kernel
  obtain ⟨q, hb, hq⟩ : ∃ q, decode (stream 0x50 moveAndFlags) = .ok q ∧ declaresFlags q = true := by
    decide +kernel
  have ⟨hab, hinfo⟩ := decode_append (b := moveAndFlags) (by decide) ha
  exact ⟨p, q, ha, hb, hab.trans (by rw [hb]; rfl), hq ▸ hinfo q⟩

end Program

end ShaderLift
