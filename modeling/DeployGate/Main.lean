import DeployGate.CommandLine.Lint
import DeployGate.RulesFile.Standard

/-!
# The programs

Under the name `lint-rules` the program reports on a rules file, under any other
name it is the gate.  The files that a command line names are looked at and read first;
all else is decided by the pure part.
-/

namespace DeployGate

namespace Program

/-- The number and the wording of an error of the system. -/
def systemError : IO.Error → UInt32 × String
  | .alreadyExists _ code text => (code, text)
  | .otherError code text => (code, text)
  | .resourceBusy code text => (code, text)
  | .resourceVanished code text => (code, text)
  | .unsupportedOperation code text => (code, text)
  | .hardwareFault code text => (code, text)
  | .unsatisfiedConstraints code text => (code, text)
  | .illegalOperation code text => (code, text)
  | .protocolError code text => (code, text)
  | .timeExpired code text => (code, text)
  | .interrupted _ code text => (code, text)
  | .noFileOrDirectory _ code text => (code, text)
  | .invalidArgument _ code text => (code, text)
  | .permissionDenied _ code text => (code, text)
  | .resourceExhausted _ code text => (code, text)
  | .inappropriateType _ code text => (code, text)
  | .noSuchThing _ code text => (code, text)
  | .unexpectedEof => (0, "end of file")
  | .userError text => (0, text)

/-- The faults that have a wording of their own. -/
def knownFaults : List FileFault :=
  [.missing, .denied, .notDirectory, .isDirectory, .nameTooLong, .endlessLinks]

/-- An error of the system as a fault of a path.  Numbers are also given with the opposite
sign. -/
def fileFault (error : IO.Error) : FileFault :=
  let (code, text) := systemError error
  let number := if code < 0x80000000 then code.toNat else (0 - code).toNat
  (knownFaults.find? fun fault => fault.number == number).getD
    ⟨number, text.toList.filter Text.isPrintable, true, fun _ hc => (List.mem_filter.mp hc).2⟩

/-- Read a path from the disk. -/
def readPath (path : Path) : IO (Except FileFault (List UInt8)) := do
  try
    let bytes ← IO.FS.readBinFile (String.ofList path.toText)
    return .ok bytes.toList
  catch error => return .error (fileFault error)

/-- Whether a path leads anywhere on the disk. -/
def isThere (path : Path) : IO Bool := do
  try
    let _ ← IO.FS.realPath (String.ofList path.toText)
    return true
  catch _ => return false

/-- What comes at present of looking at some paths and of reading them. -/
def snapshot (paths : List Path) : IO Files := do
  let entries ← paths.mapM fun p => return (p, ← readPath p, ← isThere p)
  return .ofReads (fun p => ((entries.lookup p).map Prod.fst).getD (.error .missing))
    fun p => ((entries.lookup p).map Prod.snd).getD false

/-- The path that a setting names, if it names one. -/
def Setting.paths : Setting → List Path
  | .given value => [Path.ofText value]
  | .dropped => []

/-- The paths that the gate may read for some arguments. -/
def gatePaths (words : List Text) : List Path :=
  match Arguments.read words with
  | .run ⟨some directory, file, rules⟩ =>
    (Setting.paths file).map (Path.ofText directory).join ++ rules.toList.flatMap Setting.paths
  | _ => []

/-- Write what a run wrote, and end with its exit code. -/
def finish (r : Run Nat Gate.Fault) : IO UInt32 := do
  IO.print (String.ofList r.out)
  IO.eprint (String.ofList r.err)
  match r.ending with
  | .result code => return code.toUInt32
  | .exit code => return code.toUInt32
  | .fault e =>
    IO.eprintln (String.ofList e.message)
    return 1

end Program

end DeployGate

open DeployGate in
/-- Run the program that the executable is named for. -/
def main (args : List String) : IO UInt32 := do
  let words := args.map String.toList
  if (← IO.appPath).fileStem == some "lint-rules" then
    let files ← Program.snapshot (words.map Path.ofText)
    Program.finish (Lint.run .standard files words)
  else
    let files ← Program.snapshot (Program.gatePaths words)
    Program.finish (Gate.run .standard files words)
