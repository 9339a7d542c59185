import ShaderLift.CommandLine.Basic
import ShaderLift.Container.Program

/-!
Running a command line. How files are read and written is left open, so that the same run can work
on the files of a system and on a folder held in memory.
-/

namespace ShaderLift.CommandLine

structure FileAccess (m : Type → Type) where
  read  : String → m (Except String (List UInt8))
  write : String → String → m (Except String Unit)

structure Outcome where
  code   : UInt8 := 0
  stdout : String := ""
  stderr : String := ""
  deriving DecidableEq, Repr

def Outcome.failed (failure : Failure) : Outcome :=
  { code := 1, stderr := "error: " ++ failure.message ++ "\n" }

def Job.run [Monad m] (files : FileAccess m) (job : Job) : m Outcome := do
  match ← files.read job.input with
  | .error cause => return .failed (.unreadable job.input cause)
  | .ok bytes =>
    match Shader.ofContainer bytes job.options, job.output with
    | .error error, _ => return .failed (.notLifted job.input error)
    | .ok shader, none => return { stdout := shader.text }
    | .ok shader, some output =>
      match ← files.write output shader.text with
      | .error cause => return .failed (.unwritable output cause)
      | .ok () => return {}

def run [Monad m] (files : FileAccess m) (args : List String) : m Outcome :=
  match Command.parse args with
  | .error failure => return .failed failure
  | .ok .help => return { stdout := usage }
  | .ok (.lift job) => job.run files

end ShaderLift.CommandLine
