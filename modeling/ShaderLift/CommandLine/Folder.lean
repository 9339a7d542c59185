import ShaderLift.CommandLine.Run

/-!
A folder held in memory, and where the paths lead that are followed from it.
-/

namespace ShaderLift.CommandLine

inductive FileFault where
  | missing
  | notFolder
  | isFolder
  | longName
  deriving DecidableEq, Repr

def FileFault.message : FileFault → String
  | missing => "No such file or directory (os error 2)"
  | notFolder => "Not a directory (os error 20)"
  | isFolder => "Is a directory (os error 21)"
  | longName => "File name too long (os error 36)"

namespace Path

-- The parts of a path between its slashes, the first of which begins with `part`. There is no part
-- between two slashes in a row.
def partsAfter (part : List Char) : List Char → List (List Char)
  | [] => if part.isEmpty then [] else [part]
  | '/' :: cs => if part.isEmpty then partsAfter [] cs else part :: partsAfter [] cs
  | c :: cs => partsAfter (part ++ [c]) cs

theorem partsAfter_slash_slash (part cs : List Char) :
    partsAfter part ('/' :: '/' :: cs) = partsAfter part ('/' :: cs) := by
  simp [partsAfter]

def parts (path : String) : List String :=
  (partsAfter [] path.toList).map .ofList

def isAbsolute (path : String) : Bool :=
  path.toList.head? = some '/'

def endsInSlash (path : String) : Bool :=
  path.toList.getLast? = some '/'

def maxLength : Nat := 4095

def maxName : Nat := 255

end Path

-- A folder of files. It has no folders in it.
structure Folder where
  files : List (String × List UInt8)
  deriving DecidableEq, Repr

namespace Folder

def read? (folder : Folder) (name : String) : Option (List UInt8) :=
  folder.files.lookup name

def write (folder : Folder) (name : String) (bytes : List UInt8) : Folder :=
  ⟨(name, bytes) :: folder.files.filter (·.1 ≠ name)⟩

theorem read?_write (folder : Folder) (name : String) (bytes : List UInt8) :
    (folder.write name bytes).read? name = some bytes := by
  simp [write, read?]

inductive Place where
  | folder
  | inside (name : String)
  -- A name in a folder around it, of which nothing is known.
  | outside
  deriving DecidableEq, Repr

-- Follows the parts of a path, from the folder (`isHere`) or from a folder around it.
def follow (folder : Folder) (isHere : Bool) : List String → Except FileFault Place
  | [] => .ok .folder
  | part :: rest =>
    if part = "." then folder.follow isHere rest
    else if part = ".." then folder.follow false rest
    else if part.utf8ByteSize > Path.maxName then .error .longName
    else if rest.isEmpty then .ok (if isHere then .inside part else .outside)
    else if isHere && (folder.read? part).isSome then .error .notFolder
    else .error .missing

def resolve (folder : Folder) (path : String) : Except FileFault Place :=
  if path.isEmpty then .error .missing
  else if path.utf8ByteSize > Path.maxLength then .error .longName
  else folder.follow (!Path.isAbsolute path) (Path.parts path)

def load (folder : Folder) (path : String) : Except FileFault (List UInt8) := do
  match ← folder.resolve path with
  | .folder => throw .isFolder
  | .outside => throw .missing
  | .inside name =>
    match folder.read? name with
    | none => throw .missing
    | some bytes => if Path.endsInSlash path then throw .notFolder else return bytes

-- Writes the file at a path. Around the folder nothing is kept.
def save (folder : Folder) (path : String) (bytes : List UInt8) : Except FileFault Folder := do
  match ← folder.resolve path with
  | .folder => throw .isFolder
  | place =>
    if Path.endsInSlash path then
      throw .isFolder
    match place with
    | .inside name => return folder.write name bytes
    | _ => return folder

def access : FileAccess (StateM Folder) where
  read path := return ((← get).load path).mapError FileFault.message
  write path text := do
    match (← get).save path text.toUTF8.toList with
    | .ok folder =>
      set folder
      return .ok ()
    | .error fault => return .error fault.message

end Folder

end ShaderLift.CommandLine
