import Mathlib
import ShaderLift.Glsl.Declaration

/-!
Declared variables as memory: what the name of a type says, which part of a variable an expression
reads, and where the `std140` rules put the members of a block.
-/

namespace ShaderLift.Glsl

-- What the name of a type says: how many columns a matrix has, and how many components there are in
-- a column, a vector or a scalar.
structure Shape where
  columns    : Option Nat := none
  components : Nat
  deriving DecidableEq, Repr

def Shape.ofType? : String → Option Shape
  | "float" | "int" | "uint" | "bool" => some { components := 1 }
  | "vec2" | "ivec2" | "uvec2" | "bvec2" => some { components := 2 }
  | "vec3" | "ivec3" | "uvec3" | "bvec3" => some { components := 3 }
  | "vec4" | "ivec4" | "uvec4" | "bvec4" => some { components := 4 }
  | "mat2" => some ⟨some 2, 2⟩
  | "mat2x3" => some ⟨some 2, 3⟩
  | "mat2x4" => some ⟨some 2, 4⟩
  | "mat3x2" => some ⟨some 3, 2⟩
  | "mat3" => some ⟨some 3, 3⟩
  | "mat3x4" => some ⟨some 3, 4⟩
  | "mat4x2" => some ⟨some 4, 2⟩
  | "mat4x3" => some ⟨some 4, 3⟩
  | "mat4" => some ⟨some 4, 4⟩
  | _ => none

-- The lengths of what subscripts run over: the elements of an array first, then the columns.
def Declarator.dimensions (v : Declarator) (shape : Shape) : List Nat :=
  v.length.toList.map UInt32.toNat ++ shape.columns.toList

section Read

/-! Which part of a variable an expression reads. -/

-- The variable that an expression takes an element of, and the subscripts.
def Expr.subscripts? : Expr → Option (Name × List Nat)
  | var name => some (name, [])
  | index array (lit (.int (.ofNat i))) =>
    array.subscripts?.map fun (name, is) => (name, is ++ [i])
  | _ => none

-- The number of the element that subscripts name, if all of them are inside of their dimensions.
-- The last dimension varies fastest.
def position? : (dimensions subscripts : List Nat) → Option Nat
  | [], [] => some 0
  | n :: ns, i :: is => if i < n then (position? ns is).map (i * ns.prod + ·) else none
  | _, _ => none

namespace Declarator

-- The vector or scalar of a variable that an expression names, counted from zero.
def vector? (v : Declarator) (shape : Shape) (e : Expr) : Option Nat :=
  match e.subscripts? with
  | some (.member name, is) => if name = v.name then position? (v.dimensions shape) is else none
  | _ => none

-- The component that an expression reads, and the vector that it belongs to.
def lane? (v : Declarator) (e : Expr) : Option (Nat × Nat) :=
  match Shape.ofType? v.type, e with
  | none, _ => none
  | some ⟨columns, 1⟩, e => (v.vector? ⟨columns, 1⟩ e).map (·, 0)
  | some shape, .select e [l] =>
    if l < shape.components then (v.vector? shape e).map (·, l) else none
  | some _, _ => none

variable {v : Declarator} {e : Expr}

theorem lane?_scalar {columns : Option Nat} (hs : Shape.ofType? v.type = some ⟨columns, 1⟩) :
    v.lane? e = (v.vector? ⟨columns, 1⟩ e).map (·, 0) := by
  simp [lane?, hs]

theorem lane?_select {shape : Shape} {l : Nat} (hs : Shape.ofType? v.type = some shape)
    (hn : shape.components ≠ 1) (hl : l < shape.components) :
    v.lane? (.select e [l]) = (v.vector? shape e).map (·, l) := by
  obtain ⟨columns, components⟩ := shape
  unfold lane?
  rw [hs]
  split
  case h_1 h => cases h
  case h_2 h => cases h; exact absurd rfl hn
  case h_3 h h' =>
    cases h
    cases h'
    exact if_pos hl
  case h_4 h => exact (h _ _ rfl).elim

end Declarator

theorem position?_single {n i : Nat} (h : i < n) : position? [n] [i] = some i := by
  simp [position?, h]

theorem position?_pair {n k i j : Nat} (hi : i < n) (hj : j < k) :
    position? [n, k] [i, j] = some (i * k + j) := by
  simp [position?, hi, hj]

@[simp] theorem Expr.subscripts?_var {name : Name} : (var name).subscripts? = some (name, []) :=
  rfl

@[simp] theorem Expr.subscripts?_index {array : Expr} {n : UInt32} :
    (index array (number n)).subscripts? =
      array.subscripts?.map fun (name, is) => (name, is ++ [n.toNat]) :=
  rfl

end Read

namespace Std140

/-! The rules that place the members of a block. -/

structure Extent where
  align : Nat
  size  : Nat
  deriving DecidableEq, Repr

def ofVector : (components : Nat) → Extent
  | 1 => ⟨4, 4⟩
  | 2 => ⟨8, 8⟩
  | 3 => ⟨16, 12⟩
  | _ => ⟨16, 16⟩

-- Each element of an array and each column of a matrix takes 16 bytes.
def extent? (v : Declarator) : Option Extent :=
  (Shape.ofType? v.type).map fun shape =>
    match v.dimensions shape with
    | [] => ofVector shape.components
    | ns => ⟨16, 16 * ns.prod⟩

section Extent

variable {v : Declarator} {shape : Shape} (hs : Shape.ofType? v.type = some shape)
include hs

theorem extent?_eq_ofVector (h : v.dimensions shape = []) :
    extent? v = some (ofVector shape.components) := by
  rw [extent?, hs, Option.map_some, h]

theorem extent?_eq_prod (h : v.dimensions shape ≠ []) :
    extent? v = some ⟨16, 16 * (v.dimensions shape).prod⟩ := by
  rw [extent?, hs, Option.map_some]
  split
  case h_1 hn => exact absurd hn h
  case h_2 => rfl

end Extent

-- The next multiple of an alignment.
def roundUp (n align : Nat) : Nat :=
  (n + align - 1) / align * align

theorem roundUp_eq_self {n align : Nat} (h : align ∣ n) : roundUp n align = n := by
  obtain ⟨k, rfl⟩ := h
  rcases Nat.eq_zero_or_pos align with rfl | ha
  case inl => simp [roundUp]
  case inr =>
    have hk : (align * k + align - 1) / align = k := by
      rw [Nat.add_sub_assoc ha, Nat.mul_add_div ha, Nat.div_eq_of_lt (Nat.sub_one_lt_of_lt ha),
        Nat.add_zero]
    rw [roundUp, hk, Nat.mul_comm]

end Std140

namespace BlockMember

-- The variable that a member of a block declares.
def declarator : BlockMember → Declarator
  | padding slot word => { type := "float", name := "_pad" ++ decimal slot ++ "_" ++ toString word }
  | member _ v => v

def offset? : BlockMember → Option UInt32
  | padding _ _ => none
  | member offset _ => offset

def isPadding : BlockMember → Bool
  | padding _ _ => true
  | member _ _ => false

theorem text_eq {m : BlockMember} :
    m.text = (m.offset?.map ("layout(offset = " ++ decimal · ++ ") ")).getD "" ++
      m.declarator.text ++ ";" := by
  cases m
  case padding slot word =>
    have h : "float _pad" = "float" ++ " " ++ "_pad" := by decide
    change "float _pad" ++ decimal slot ++ "_" ++ toString word ++ ";" =
      "" ++ ("float" ++ " " ++ ("_pad" ++ decimal slot ++ "_" ++ toString word) ++ "") ++ ";"
    rw [h]
    simp only [-String.reduceAppend, String.empty_append, String.append_empty, String.append_assoc]
  case member offset v =>
    cases offset
    case none =>
      change v.text ++ ";" = "" ++ v.text ++ ";"
      rw [String.empty_append]
    case some => rfl

end BlockMember

namespace Std140

-- Where a member goes, behind `stop` bytes that are taken. A written offset has to be a multiple of
-- the alignment that is not taken.
def place? (stop : Nat) (align : Nat) (m : BlockMember) : Option Nat :=
  match m.offset? with
  | none => some (roundUp stop align)
  | some offset => if align ∣ offset.toNat ∧ stop ≤ offset.toNat then some offset.toNat else none

-- The members of a block with their places, behind `stop` bytes that are taken.
def layout? (stop : Nat) : List BlockMember → Option (List (BlockMember × Nat))
  | [] => some []
  | m :: ms => do
    let extent ← extent? m.declarator
    let place ← place? stop extent.align m
    return (m, place) :: (← layout? (place + extent.size) ms)

-- The places of members that are no padding.
def places (placed : List (BlockMember × Nat)) : List (Declarator × Nat) :=
  (placed.filter (!·.1.isPadding)).map fun (m, place) => (m.declarator, place)

variable {stop place : Nat} {extent : Extent} {m : BlockMember} {ms : List BlockMember}

theorem layout?_cons (he : extent? m.declarator = some extent)
    (hp : place? stop extent.align m = some place) :
    layout? stop (m :: ms) = (layout? (place + extent.size) ms).map ((m, place) :: ·) := by
  simp only [layout?, he, hp, Option.bind_eq_bind, Option.bind_some]
  cases layout? (place + extent.size) ms <;> rfl

theorem map_places_layout?_member {offset : Option UInt32} {v : Declarator}
    (he : extent? v = some extent) (hp : place? stop extent.align (.member offset v) = some place) :
    (layout? stop (.member offset v :: ms)).map places =
      ((layout? (place + extent.size) ms).map places).map ((v, place) :: ·) := by
  rw [layout?_cons (m := .member offset v) he hp, Option.map_map, Option.map_map]
  rfl

-- Words of padding close up to each other.
theorem map_places_layout?_paddings {slot : UInt32} {words : List Nat} (h : 4 ∣ stop) :
    (layout? stop (words.map (.padding slot) ++ ms)).map places =
      (layout? (stop + 4 * words.length) ms).map places := by
  induction words generalizing stop
  case nil => rfl
  case cons word words hi =>
    have he : extent? (BlockMember.padding slot word).declarator = some ⟨4, 4⟩ := rfl
    have hp : place? stop 4 (.padding slot word) = some stop :=
      congrArg some (roundUp_eq_self h)
    have hstop : stop + 4 * (words.length + 1) = stop + 4 + 4 * words.length := by omega
    rw [List.map_cons, List.cons_append, layout?_cons he hp, Option.map_map, List.length_cons,
      hstop, ← hi (Nat.dvd_add h (Nat.dvd_refl 4))]
    rfl

end Std140

end ShaderLift.Glsl
