import ShaderLift.Word

/-!
The pipeline stage and the shader model of a program, as its version token spells them.
-/

namespace ShaderLift

inductive Stage where
  | pixel
  | vertex
  | geometry
  | hull
  | domain
  | compute
  deriving DecidableEq, Repr

namespace Stage

def all : List Stage :=
  [pixel, vertex, geometry, hull, domain, compute]

def raw : Stage → Nat
  | pixel => 0
  | vertex => 1
  | geometry => 2
  | hull => 3
  | domain => 4
  | compute => 5

theorem all_getElem?_raw (s : Stage) : all[s.raw]? = some s := by
  cases s <;> rfl

def abbreviation : Stage → String
  | pixel => "ps"
  | vertex => "vs"
  | geometry => "gs"
  | hull => "hs"
  | domain => "ds"
  | compute => "cs"

end Stage

structure ShaderModel where
  major : Nat
  minor : Nat
  deriving DecidableEq, Repr

def ShaderModel.text (m : ShaderModel) : String :=
  toString m.major ++ "_" ++ toString m.minor

-- The stage in the high half, the major version in bits 4 to 7, the minor one below.
def readVersion (token : UInt32) : Option (Stage × ShaderModel) :=
  Stage.all[Word.bits token 16 16]?.map (·, ⟨Word.bits token 4 4, Word.bits token 0 4⟩)

def versionToken (stage : Stage) (model : ShaderModel) : UInt32 :=
  .ofNat (stage.raw * 65536 + model.major % 16 * 16 + model.minor % 16)

end ShaderLift
