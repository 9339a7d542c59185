import ShaderLift.Decode.Program

/-!
Decoding does not depend on where it happens. A reader that stands further back in the stream, with
other operands before its own, meets the same things; only positions and operands are counted from
elsewhere.
-/

namespace ShaderLift

-- Positions move by the number of words, and operands by the number of operands, that were put in
-- front.

def Index.move (n : Nat) : Index → Index
  | imm i => imm i
  | wide i => wide i
  | relative id => relative (id + n)
  | immRelative i id => immRelative i (id + n)
  | wideRelative i id => wideRelative i (id + n)

@[simp] theorem Index.static?_move {n : Nat} {i : Index} : (i.move n).static? = i.static? := by
  cases i <;> rfl

namespace Operand

def move (n : Nat) (op : Operand) : Operand :=
  { op with indices := op.indices.map (Index.move n) }

@[simp] theorem slot?_move {n : Nat} {op : Operand} : (op.move n).slot? = op.slot? := by
  simp only [slot?, move, List.head?_map, Option.bind_map]
  exact congrArg _ (funext fun _ => Index.static?_move)

@[simp] theorem static?_move {n i : Nat} {op : Operand} :
    (op.move n).indices[i]?.bind Index.static? = op.indices[i]?.bind Index.static? := by
  simp only [move, List.getElem?_map, Option.bind_map]
  exact congrArg _ (funext fun _ => Index.static?_move)

end Operand

-- The operands `front`, then those of an arena.
def Arena.after (front arena : Arena) : Arena :=
  front ++ arena.map (Operand.move front.size)

namespace Arena

variable {front arena : Arena}

@[simp] theorem size_after : (front.after arena).size = arena.size + front.size := by
  simp [after, Nat.add_comm]

@[simp] theorem getElem?_after {id : OperandId} :
    (front.after arena)[id + front.size]? = arena[id]?.map (Operand.move front.size) := by
  simp [after, Array.getElem?_append_right]

@[simp] theorem push_after {op : Operand} :
    (front.after arena).push (op.move front.size) = front.after (arena.push op) := by
  simp [after, Array.push_append]

end Arena

def Declared.move (n : Nat) : Declared → Declared
  | indexRange id count => indexRange (id + n) count
  | input id value index mode => input (id + n) value index mode
  | output id value index => output (id + n) value index
  | d => d

def Instruction.move (words n : Nat) (inst : Instruction) : Instruction :=
  { inst with operands := inst.operands.map (· + n), position := inst.position + words }

def DecodeError.move (words : Nat) (e : DecodeError) : DecodeError :=
  { e with position := e.position + words }

-- The outcome of a step further back: its answer, which `f` moves, or its error.
def relocated {α β : Type} (words : Nat) (f : α → β) : Except DecodeError α → Except DecodeError β
  | .ok a => .ok (f a)
  | .error e => .error (e.move words)

theorem relocated_bind {α β γ δ : Type} {words : Nat} {f : α → β} {g : γ → δ}
    {x : Except DecodeError α} {k : α → Except DecodeError γ} {k' : β → Except DecodeError δ}
    (h : ∀ a, k' (f a) = relocated words g (k a)) :
    relocated words f x >>= k' = relocated words g (x >>= k) := by
  cases x
  case ok a => exact h a
  case error => rfl

def Reader.move (words : Nat) (front : Arena) (r : Reader) : Reader :=
  { r with base := r.base + words, operands := front.after r.operands }

namespace Reader

variable {words : Nat} {front : Arena} {r : Reader}

@[simp] theorem rest_move : (r.move words front).rest = r.rest := rfl

@[simp] theorem isAtEnd_move : (r.move words front).isAtEnd = r.isAtEnd := rfl

@[simp] theorem position_move : (r.move words front).position = r.position + words :=
  Nat.add_right_comm ..

end Reader

namespace Decoder

variable {words : Nat} {front : Arena} {α β γ δ : Type}

-- What a decoder answers further back: its answer, moved.
def moved (words : Nat) (front : Arena) (f : α → β) :
    EStateM.Result DecodeError Reader α → EStateM.Result DecodeError Reader β
  | .ok a r => .ok (f a) (r.move words front)
  | .error e r => .error (e.move words) (r.move words front)

theorem moved_error {f : α → β} {r : Reader} {cause : DecodeCause} :
    moved words front f (.error ⟨r.position, cause⟩ r) =
      .error ⟨(r.move words front).position, cause⟩ (r.move words front) := by
  rw [Reader.position_move]
  rfl

-- `m'` does further back what `m` does here.
def Moves (words : Nat) (front : Arena) (f : α → β) (m : Decoder α) (m' : Decoder β) : Prop :=
  ∀ r, m' (r.move words front) = moved words front f (m r)

namespace Moves

variable {f : α → β} {g : γ → δ} {m : Decoder α} {m' : Decoder β}

theorem pure {a : α} {b : β} (h : b = f a) : Moves words front f (Pure.pure a) (Pure.pure b) :=
  fun _ => h ▸ rfl

theorem throw {e e' : DecodeError} (h : e' = e.move words) :
    Moves words front f (throw e) (throw e') :=
  fun _ => h ▸ rfl

theorem bind {k : α → Decoder γ} {k' : β → Decoder δ} (hm : Moves words front f m m')
    (hk : ∀ a, Moves words front g (k a) (k' (f a))) :
    Moves words front g (m >>= k) (m' >>= k') := by
  intro r
  simp only [Bind.bind, EStateM.bind, hm r]
  cases m r
  case ok a r => exact hk a r
  case error => rfl

end Moves

variable {n start : Nat} {token : OperandToken}

theorem moves_get : Moves words front (Reader.move words front) get get :=
  fun _ => rfl

theorem moves_position : Moves words front (· + words) position position :=
  moves_get.bind fun _ => .pure Reader.position_move

theorem moves_word : Moves words front id word word := by
  intro r
  unfold word
  rw [Reader.rest_move]
  split
  case h_1 => exact moved_error.symm
  case h_2 => rfl

theorem moves_slice : Moves words front id (slice n) (slice n) := by
  intro r
  unfold slice
  rw [Reader.rest_move]
  split
  case isTrue => rfl
  case isFalse => exact moved_error.symm

theorem moves_long : Moves words front id long long :=
  moves_word.bind fun _ => moves_word.bind fun _ => .pure rfl

theorem moves_words : Moves words front id (Decoder.words n) (Decoder.words n) := by
  induction n
  case zero => exact .pure rfl
  case succ hi => exact moves_word.bind fun _ => hi.bind fun _ => .pure rfl

theorem moves_longs : Moves words front id (longs n) (longs n) := by
  induction n
  case zero => exact .pure rfl
  case succ hi => exact moves_word.bind fun _ => moves_word.bind fun _ => hi.bind fun _ => .pure rfl

theorem moves_extensions {σ : Type} {step step' : σ → UInt32 → Except DecodeError σ} {init : σ}
    (h : ∀ s w, step' s w = relocated words id (step s w)) :
    Moves words front id (extensions step init) (extensions step' init) := by
  have go (ws : List UInt32) : ∀ r init, extensions.go step' ws (r.move words front) init =
      moved words front id (extensions.go step ws r init) := by
    induction ws
    case nil => exact fun _ _ => moved_error.symm
    case cons w ws hi =>
      intro r init
      simp only [extensions.go, h]
      cases step init w
      case error => rfl
      case ok s =>
        simp only [relocated, id]
        split
        case isTrue => exact hi { r with consumed := r.consumed + 1, rest := ws } s
        case isFalse => rfl
  exact fun r => go r.rest r init

theorem operandFault_move {x : Except OperandFault α} :
    operandFault (start + words) x = relocated words id (operandFault start x) := by
  cases x <;> rfl

theorem moves_liftExcept {x x' : Except DecodeError α} (h : x' = relocated words id x) :
    Moves words front id (operandWith.liftExcept x) (operandWith.liftExcept x') := by
  subst h
  cases x
  case ok => exact .pure rfl
  case error => exact .throw rfl

theorem moves_push {op : Operand} :
    Moves words front (· + front.size) (push op) (push (op.move front.size)) := by
  intro r
  simp [push, moved, Reader.move]

theorem moves_immediate :
    Moves words front id (immediate start token) (immediate (start + words) token) := by
  unfold immediate
  split
  case h_1 | h_2 => exact .throw rfl
  case h_3 => exact moves_words.bind fun _ => .pure rfl
  case h_4 | h_5 => exact moves_longs.bind fun _ => .pure rfl
  case h_6 => exact .pure rfl

section Nested

variable {nested nested' : Decoder OperandId}
variable (hn : Moves words front (· + front.size) nested nested')

include hn

theorem moves_index {form : Nat} :
    Moves words front (Index.move front.size) (index nested start form)
      (index nested' (start + words) form) := by
  unfold index
  split
  case h_1 => exact moves_word.bind fun _ => .pure rfl
  case h_2 => exact moves_long.bind fun _ => .pure rfl
  case h_3 => exact hn.bind fun _ => .pure rfl
  case h_4 => exact moves_word.bind fun _ => hn.bind fun _ => .pure rfl
  case h_5 => exact moves_long.bind fun _ => hn.bind fun _ => .pure rfl
  case h_6 => exact .throw rfl

theorem moves_indices {forms : List Nat} :
    Moves words front (List.map (Index.move front.size)) (indices nested start forms)
      (indices nested' (start + words) forms) := by
  induction forms
  case nil => exact .pure rfl
  case cons hi => exact (moves_index hn).bind fun _ => hi.bind fun _ => .pure rfl

theorem moves_operandWith :
    Moves words front (· + front.size) (operandWith nested) (operandWith nested') := by
  refine moves_position.bind fun start => moves_word.bind fun word => ?_
  refine (moves_liftExcept operandFault_move).bind fun token => ?_
  extract_lets rest rest'
  have hrest (e : OperandExtension) :
      Moves words front (· + front.size) (rest e) (rest' e) :=
    (moves_indices hn).bind fun _ => moves_immediate.bind fun _ => moves_push
  dsimp only [id]
  split
  case isTrue => exact (moves_extensions fun _ _ => operandFault_move).bind hrest
  case isFalse => exact hrest {}

end Nested

theorem moves_operandWithin {bound : Nat} :
    Moves words front (· + front.size) (operandWithin bound) (operandWithin bound) := by
  induction bound
  case zero => exact fun _ => moved_error.symm
  case succ hi => exact moves_operandWith hi

theorem moves_operand : Moves words front (· + front.size) operand operand :=
  fun r => moves_operandWithin r

section Instruction

variable {op : Opcode} {token : UInt32}

theorem moves_sampleControls :
    Moves words front id (sampleControls token) (sampleControls token) := by
  unfold sampleControls
  split
  case isTrue => exact moves_extensions fun _ _ => rfl
  case isFalse => exact .pure rfl

theorem moves_controls {sample : SampleControls} :
    Moves words front id (controls start op token sample)
      (controls (start + words) op token sample) := by
  unfold controls
  split
  case h_4 =>
    extract_lets _ raw
    split
    case h_1 => exact .pure rfl
    case h_2 => exact .throw rfl
  case h_7 => exact moves_word.bind fun _ => .pure rfl
  case h_10 => exact .throw rfl
  all_goals exact .pure rfl

theorem moves_operandsWithin {bound count : Nat} :
    Moves words front (List.map (· + front.size)) (operandsWithin start bound count)
      (operandsWithin (start + words) bound count) := by
  induction bound generalizing count
  case zero => exact .pure rfl
  case succ hi =>
    refine moves_get.bind fun r => ?_
    rw [Reader.isAtEnd_move]
    split
    case isTrue => exact .pure rfl
    case isFalse =>
      refine moves_operand.bind fun _ => ?_
      split
      case isTrue => exact .throw rfl
      case isFalse => exact hi.bind fun _ => .pure rfl

theorem moves_instruction :
    Moves words front (Instruction.move words front.size) (instruction start op token)
      (instruction (start + words) op token) := by
  refine moves_sampleControls.bind fun _ => moves_controls.bind fun controls => ?_
  refine moves_get.bind fun r => moves_operandsWithin.bind fun ids => ?_
  have hdone : Moves words front (Instruction.move words front.size)
      (pure ⟨op, controls, ids, start⟩)
      (pure ⟨op, controls, ids.map (· + front.size), start + words⟩) := .pure rfl
  dsimp only [id]
  rw [List.length_map]
  split
  case h_1 =>
    split
    case isTrue => exact .throw rfl
    case isFalse => exact hdone
  case h_2 => exact hdone

end Instruction

section Declaration

variable {op : Opcode} {token : UInt32}

theorem moves_declarationFault {f : α → β} {fault : DeclarationFault} :
    Moves words front f (declarationFault start fault) (declarationFault (start + words) fault) :=
  .throw rfl

theorem moves_orFault {fault : DeclarationFault} {x : Option α} :
    Moves words front id (orFault start fault x) (orFault (start + words) fault x) := by
  cases x
  case none => exact moves_declarationFault
  case some => exact .pure rfl

theorem moves_declaredOperand :
    Moves words front (fun a => (a.1 + front.size, a.2.move front.size)) declaredOperand
      declaredOperand := by
  refine moves_operand.bind fun id => moves_get.bind fun r => ?_
  have hop : (r.move words front).operands[id + front.size]? =
    r.operands[id]?.map (Operand.move front.size) := Arena.getElem?_after
  rw [hop]
  cases r.operands[id]? <;> exact .pure rfl

theorem moves_slot : Moves words front id slot slot := by
  refine moves_position.bind fun _ => moves_declaredOperand.bind fun (_, op) => ?_
  dsimp only
  rw [Operand.slot?_move]
  exact moves_orFault

theorem moves_systemValueIf {present : Bool} :
    Moves words front id (systemValueIf start present) (systemValueIf (start + words) present) := by
  unfold systemValueIf
  split
  case isTrue => exact (moves_word.bind fun _ => moves_orFault).bind fun _ => .pure rfl
  case isFalse => exact .pure rfl

theorem moves_declared :
    Moves words front (Declared.move front.size) (declared start op token)
      (declared (start + words) op token) := by
  unfold declared
  extract_lets field coherent
  split
  case h_2 =>
    refine moves_declaredOperand.bind fun (_, op) => ?_
    dsimp only
    rw [Operand.static?_move, Operand.static?_move]
    split
    case h_1 => exact .pure rfl
    case h_2 => exact moves_declarationFault
  -- Every other declaration is a chain of these steps.
  all_goals
    repeat' with_reducible first
      | refine Moves.bind moves_slot fun _ => ?_
      | refine Moves.bind moves_word fun _ => ?_
      | refine Moves.bind moves_slice fun _ => ?_
      | refine Moves.bind moves_orFault fun _ => ?_
      | refine Moves.bind moves_operand fun _ => ?_
      | refine Moves.bind moves_systemValueIf fun _ => ?_
    first
    | exact .pure rfl
    | exact moves_declarationFault

theorem isHullOnly_move {d : Declared} : (d.move n).isHullOnly = d.isHullOnly := by
  cases d <;> rfl

theorem moves_declaration {stage : Stage} :
    Moves words front (Declared.move front.size) (declaration stage start op token)
      (declaration stage (start + words) op token) := by
  refine moves_sampleControls.bind fun _ => moves_declared.bind fun d => ?_
  rw [isHullOnly_move]
  split
  case isTrue => exact moves_declarationFault
  case isFalse => exact .pure rfl

end Declaration

end Decoder

def Element.move (words n : Nat) : Element → Element
  | declaration d position => declaration (d.move n) (position + words)
  | instruction inst => instruction (inst.move words n)
  | skipped => skipped

namespace Frame

variable {words position : Nat} {front arena : Arena} {stage : Stage} {f : Frame}

def move (words : Nat) (f : Frame) : Frame :=
  { f with position := f.position + words }

theorem cut_move {token : UInt32} {rest : List UInt32} :
    cut (position + words) token rest = relocated words (move words) (cut position token rest) := by
  unfold cut
  dsimp only
  split
  case h_1 => rfl
  case h_2 =>
    cases rest
    case nil =>
      rw [Nat.add_right_comm]
      rfl
    case cons =>
      dsimp only
      split <;> rfl
  case h_3 => split <;> rfl

theorem readData_move {n : Nat} : (f.move words).readData = f.readData.move words n := by
  by_cases h : f.token >>> 11 = 3 <;> simp [readData, move, h, Element.move, Declared.move]

theorem moves_readBody :
    Decoder.Moves words front (Element.move words front.size) (f.readBody stage)
      ((f.move words).readBody stage) := by
  by_cases h : f.opcode.isDeclaration
  case pos =>
    simp only [readBody, move, h, if_true]
    exact Decoder.moves_declaration.bind fun _ => .pure rfl
  case neg =>
    simp only [readBody, move, h]
    exact Decoder.moves_instruction.bind fun _ => .pure rfl

theorem moves_expectEnd : Decoder.Moves words front id Decoder.expectEnd Decoder.expectEnd := by
  intro r
  unfold Decoder.expectEnd
  rw [Reader.isAtEnd_move]
  split
  case isTrue => rfl
  case isFalse => exact Decoder.moved_error.symm

theorem read_move :
    (f.move words).read stage (front.after arena) =
      relocated words (fun (e, arena) => (e.move words front.size, front.after arena))
        (f.read stage arena) := by
  by_cases h : f.opcode = .customData
  case pos =>
    simp only [read, move, h, if_true]
    exact congrArg (fun e => Except.ok (e, front.after arena)) readData_move
  case neg =>
    have h' : (f.move words).opcode ≠ .customData := h
    have hbody : (f.move words).readBody stage
        ⟨(f.move words).position, 1, (f.move words).words, front.after arena⟩ = _ :=
      moves_readBody ⟨f.position, 1, f.words, arena⟩
    rw [read, if_neg h', hbody, read, if_neg h]
    cases f.readBody stage ⟨f.position, 1, f.words, arena⟩
    case error e r =>
      have ⟨position, cause⟩ := e
      cases cause <;> rfl
    case ok e r =>
      dsimp only [Decoder.moved]
      rw [moves_expectEnd r]
      cases Decoder.expectEnd r <;> rfl

end Frame

theorem readFrames_move {words bound position : Nat} {ws : List UInt32} {front arena : Arena}
    {stage : Stage} :
    readFrames stage bound (position + words) ws (front.after arena) =
      relocated words
        (fun (es, arena) => (es.map (Element.move words front.size), front.after arena))
        (readFrames stage bound position ws arena) := by
  induction bound generalizing position ws arena
  case zero => cases ws <;> rfl
  case succ bound hi =>
    cases ws
    case nil => rfl
    case cons token rest =>
      simp only [readFrames, Frame.cut_move]
      refine relocated_bind fun f => ?_
      simp only [Frame.read_move]
      refine relocated_bind fun (e, arena) => ?_
      have hposition : position + words + (f.move words).length = position + f.length + words :=
        Nat.add_right_comm ..
      simp only [hposition]
      rw [show (f.move words).words = f.words from rfl, hi]
      exact relocated_bind fun _ => rfl

end ShaderLift
