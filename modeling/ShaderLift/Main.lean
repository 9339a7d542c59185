import ShaderLift.CommandLine.Run

/-!
The program: runs a command line on the files of the system.
-/

namespace ShaderLift.CommandLine

def errorText (e : IO.Error) : String :=
  match e with
  | .noFileOrDirectory _ code details | .inappropriateType (some _) code details
  | .permissionDenied (some _) code details => details ++ s!" (os error {code})"
  | e => toString e

def systemFiles : FileAccess IO where
  read path := do
    try return .ok (← IO.FS.readBinFile path).toList
    catch e => return .error (errorText e)
  write path text := do
    try return .ok (← IO.FS.writeFile path text)
    catch e => return .error (errorText e)

end ShaderLift.CommandLine

open ShaderLift.CommandLine in
def main (args : List String) : IO UInt32 := do
  let outcome ← run systemFiles args
  (← IO.getStdout).putStr outcome.stdout
  (← IO.getStderr).putStr outcome.stderr
  return outcome.code.toUInt32
