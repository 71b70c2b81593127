import DeployGate.CommandLine.Gate

/-!
# Checking a rules file

All violations of a rules file are reported, each on a line of its own, in the order of the
ways to them.
-/

namespace DeployGate

namespace PathItem

/-- A step into a value as a report shows it. -/
def toText : PathItem → Text
  | .key t => '.' :: t
  | .index n => '[' :: Text.ofNat n ++ [']']

/-- Whether one step is at most another one.  Where the kinds are different keys come first,
but there is no report that depends on it. -/
def atMost : PathItem → PathItem → Bool
  | .key s, .key t => Text.atMost s t
  | .key _, .index _ => true
  | .index _, .key _ => false
  | .index m, .index n => m ≤ n

/-- Whether one way into a value is at most another one, by the first steps that differ. -/
def pathAtMost : List PathItem → List PathItem → Bool
  | [], _ => true
  | _ :: _, [] => false
  | p :: ps, q :: qs => if p = q then pathAtMost ps qs else p.atMost q

/-- The first steps in which two ways differ, if these are of different kinds, so that the ways
cannot be compared. -/
def clash? : List PathItem → List PathItem → Option (PathItem × PathItem)
  | p :: ps, q :: qs =>
    if p = q then clash? ps qs
    else if p.kindName = q.kindName then none
    else some (p, q)
  | _, _ => none

/-- The first steps of different kinds in some ways, of which each is compared with those
behind it. -/
def clashIn? : List (List PathItem) → Option (PathItem × PathItem)
  | [] => none
  | p :: ps => (ps.findSome? fun q => clash? q p).or (clashIn? ps)

end PathItem

namespace Lint

/-- What to say of a command line without exactly one path. -/
def usage : Text :=
  "Usage: python validate_config.py path/to/rules.(json|yaml|yml)".toList

/-- The place of a violation: the file as a whole, and the steps on the way from there. -/
def place (path : List PathItem) : Text :=
  '$' :: path.flatMap PathItem.toText

/-- A violation and its message. -/
abbrev Entry := Violation × Text

/-- The line about a violation. -/
def line (e : Entry) : Text :=
  " - ".toList ++ place e.1.path ++ ": ".toList ++ e.2

/-- The violations of a value with their messages, as they are found. -/
def entries (validator : Validator) (d : Datum) : Except Breakdown (List Entry) :=
  (validator.violations d).mapM fun v => (validator.message v).map fun message => (v, message)

/-- Violations in the order of the ways to them; those at one place stay as they are. -/
def sorted (es : List Entry) : List Entry :=
  es.mergeSort fun e f => PathItem.pathAtMost e.1.path f.1.path

/-- Report all violations of a loaded value. -/
def reportDatum (validator : Validator) (d : Datum) : Run Nat Gate.Fault :=
  match entries validator d with
  | .error error => .failing (.unworded error)
  | .ok es => match PathItem.clashIn? (es.map fun e => e.1.path) with
    | some (p, q) => .failing (.incomparable p q)
    | none => match sorted es with
      | [] => .saying 0 "OK: rules file is valid.".toList
      | es => ⟨.result 1, [], ("RULES VALIDATION ERRORS:".toList :: es.map line).flatMap Run.line⟩

/-- Report all violations of a file. -/
def reportFile (tools : Tools) (files : Files) (path : Path) : Run Nat Gate.Fault :=
  match files.hasPath path with
  | .error fault => .failing (.read (.file path fault))
  | .ok false => .warning 2 ("ERROR: file not found: ".toList ++ path.toText)
  | .ok true => match Datum.load tools.formats files path with
    | .ok d => reportDatum tools.validator d
    | .error fault => .warning 2 ("ERROR: failed to load rules: ".toList ++ fault.message)

/-- Run the report with the words of a command line. -/
def run (tools : Tools) (files : Files) (words : List Text) : Run Nat Gate.Fault :=
  match words with
  | [word] => reportFile tools files (Path.ofText word)
  | _ => .warning 2 usage

end Lint

end DeployGate
