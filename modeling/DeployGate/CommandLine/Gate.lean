import DeployGate.CommandLine.Arguments
import DeployGate.CommandLine.Run
import DeployGate.Ocl.Document
import DeployGate.Process.Check
import DeployGate.RulesFile.Load

/-!
# The gate

The gate reads a deployment process file, checks it against rules, and says in one
line what came of it.  Rules are the standard ones unless a rules file is given.
-/

namespace DeployGate

namespace Gate

/-! ## Checking one file -/

/-- What ends a run that nothing handles. -/
inductive Fault where
  | read (fault : ReadFault)
  | rules (fault : RulesFault)
  | numeral (fault : NumeralFault)
  /-- There is no message of a violation in a report. -/
  | unworded (error : Breakdown)
  /-- Two steps into a value have to be compared and are of different kinds. -/
  | incomparable (p q : PathItem)
  /-- The value of an option was dropped. -/
  | dropped (s : Switch)

/-- The wording of a fault. -/
def Fault.message : Fault → Text
  | .read fault => fault.message
  | .rules fault => fault.message
  | .numeral fault => fault.message
  | .unworded error => error.message
  | .incomparable p q => "'<' not supported between instances of '".toList ++ p.kindName ++
      "' and '".toList ++ q.kindName ++ ['\'']
  | .dropped .rules => "'list' object has no attribute 'read_text'".toList
  | .dropped _ => "unsupported operand type(s) for /: 'PosixPath' and 'list'".toList

/-- Check a document and say what came of it. -/
def checkDocument (d : Ocl.Document) (rules : Rules) : Run Bool Fault :=
  match d.check rules with
  | .ok v => .saying v.passed v.line
  | .error fault => .failing (.numeral fault)

/-- Check the text of a document and say what came of it. -/
def checkText (path : Path) (t : Text) (rules : Rules) : Run Bool Fault :=
  match Ocl.Document.read t with
  | .ok d => checkDocument d rules
  | .error e => .warning false
      ("ERROR: failed to parse ".toList ++ path.toText ++ ": ".toList ++ e.message)

/-- Check a file and say what came of it. -/
def checkFile (files : Files) (path : Path) (rules : Rules) : Run Bool Fault :=
  match files.text path with
  | .ok t => checkText path t rules
  | .error .nulInPath => .failing (.read .nulInPath)
  | .error fault => .warning false
      ("ERROR: failed to read ".toList ++ path.toText ++ ": ".toList ++ fault.message)

/-! ## The command line -/

/-- The name of the program. -/
def programName : Text :=
  "ocl-pr-check".toList

/-- One line about how the program is called. -/
def usage : Text :=
  "usage: ocl-pr-check [-h] [-f FILE] [-r RULES] [directory]\n".toList

/-- All about how the program is called. -/
def help : Text :=
  usage ++
  ("\nCheck an Octopus deployment process OCL file\n" ++
  "\npositional arguments:\n" ++
  "  directory             Directory holding the deployment process file\n" ++
  "\noptions:\n" ++
  "  -h, --help            show this help message and exit\n" ++
  "  -f FILE, --file FILE  Deployment process file name (default:\n" ++
  "                        deployment_process.ocl)\n" ++
  "  -r RULES, --rules RULES\n" ++
  "                        JSON or YAML file overriding the default rules\n").toList

/-- What to say where no directory is given. -/
def directoryMissing : Text :=
  "Pass the directory holding the deployment_process.ocl file as the first argument".toList

/-- The words in front of what is reported of a rules file that is refused; a fault without
such words is not reported and ends the run. -/
def label? : RulesFault → Option Text
  | .load (.read .nulInPath) => none
  | .load (.read _) => some "ERROR: failed to load rules: ".toList
  | .load (.json _) => none
  | .load (.yaml (.malformed _ _)) => some "ERROR: failed to load rules: ".toList
  | .load (.yaml (.broken _)) => none
  | .notMapping _ => some "CONFIG ERROR: ".toList
  | .violation _ _ => some "CONFIG ERROR: ".toList
  | .unworded _ => none
  | .unknownKey _ => none

/-- The run that ends because the rules file is refused. -/
def refuse (fault : RulesFault) : Run Nat Fault :=
  match label? fault with
  | some label => .warning 1 (label ++ fault.message)
  | none => .failing (.rules fault)

/-- The rules of a run, or the run that ends because they cannot be loaded. -/
def chooseRules (tools : Tools) (files : Files) :
    Option Setting → Except (Run Nat Fault) Rules
  | none => .ok Rules.standard
  | some .dropped => .error (.failing (.dropped .rules))
  | some (.given t) => (Rules.load tools files (Path.ofText t)).mapError refuse

/-- Run the gate with arguments that were understood. -/
def runArguments (tools : Tools) (files : Files) (a : Arguments) : Run Nat Fault :=
  match a.directory with
  | none => .saying 1 directoryMissing
  | some directory =>
    match chooseRules tools files a.rules with
    | .error r => r
    | .ok rules =>
      match a.file with
      | .dropped => .failing (.dropped .file)
      | .given file =>
        (checkFile files ((Path.ofText directory).join (Path.ofText file)) rules).map
          fun passed => if passed then 0 else 1

/-- Run the gate with the words of a command line. -/
def run (tools : Tools) (files : Files) (words : List Text) : Run Nat Fault :=
  match Arguments.read words with
  | .run a => runArguments tools files a
  | .help => ⟨.exit 0, help, []⟩
  | .misuse m => ⟨.exit 2, [],
      usage ++ Run.line (programName ++ ": error: ".toList ++ m.message)⟩

end Gate

end DeployGate
