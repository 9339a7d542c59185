import ShaderLift.Word

/-!
Versions of the target language: their numbers, how they are written, and how they are read.
-/

namespace ShaderLift

-- A version of desktop GLSL (`gl`) or of GLSL ES (`es`), oldest first within its family.
inductive Version where
  | gl20 | gl21 | gl30 | gl31 | gl32 | gl33 | gl40 | gl41 | gl42 | gl43 | gl44 | gl45 | gl46
  | es20 | es30 | es31 | es32
  deriving DecidableEq, Repr

namespace Version

def all : List Version :=
  [gl20, gl21, gl30, gl31, gl32, gl33, gl40, gl41, gl42, gl43, gl44, gl45, gl46,
    es20, es30, es31, es32]

theorem mem_all (v : Version) : v ∈ all := by
  cases v <;> decide

instance : Inhabited Version := ⟨gl33⟩

def number : Version → UInt32
  | gl20 => 110
  | gl21 => 120
  | gl30 => 130
  | gl31 => 140
  | gl32 => 150
  | gl33 => 330
  | gl40 => 400
  | gl41 => 410
  | gl42 => 420
  | gl43 => 430
  | gl44 => 440
  | gl45 => 450
  | gl46 => 460
  | es20 => 100
  | es30 => 300
  | es31 => 310
  | es32 => 320

def isEs : Version → Bool
  | es20 | es30 | es31 | es32 => true
  | _ => false

-- Versions of one family are ordered by their number.
def atLeast (v first : Version) : Bool :=
  v.isEs = first.isEs && first.number ≤ v.number

-- The `#version` line. Profiles are named from desktop 1.50 and ES 3.00 on.
def directive (v : Version) : String :=
  let profile :=
    if v.isEs then
      if v = es20 then "" else " es"
    else
      if v.atLeast gl32 then " core" else ""
  "#version " ++ decimal v.number ++ profile

def name (v : Version) : String :=
  (if v.isEs then "GLSL ES " else "GLSL ") ++ decimal v.number

-- An unsigned decimal number of at most 32 bits, with an optional plus sign.
def readNumber (text : List Char) : Option UInt32 :=
  let digits :=
    match text with
    | '+' :: rest => rest
    | _ => text
  if digits.isEmpty || !digits.all Char.isDigit then none
  else
    let n := digits.foldl (fun n c => 10 * n + (c.toNat - '0'.toNat)) 0
    if n < UInt32.size then some (.ofNat n) else none

-- The `#version` number of an API version. Before 3.3 the two are numbered apart.
def numberOfApi (es : Bool) (major minor : UInt32) : UInt32 :=
  match es, major.toNat, minor.toNat with
  | false, 2, 0 => 110
  | false, 2, 1 => 120
  | false, 3, 0 => 130
  | false, 3, 1 => 140
  | false, 3, 2 => 150
  | true, 2, 0 => 100
  | _, _, _ => major * 100 + minor * 10

def parse (text : String) (es : Bool) : Option Version := do
  let number ←
    match text.toList.span (· ≠ '.') with
    | (major, _ :: minor) => numberOfApi es <$> readNumber major <*> readNumber minor
    | (whole, []) => readNumber whole
  all.find? fun v => v.isEs = es && v.number = number

end Version

end ShaderLift
