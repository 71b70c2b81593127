import DeployGate.Files.Path
import DeployGate.Text.DecimalDigit

/-!
# Command-line arguments

Words that start with a hyphen are options unless they look like a negative number,
hold a space, or stand behind a double hyphen.  Long options may be cut short as
long as only one fits, short options may carry their value or a further option in
the same word.

Main results:

- `Arguments.read` is total: what stands in front of a word decides what becomes of
  it, and each word is looked at once.
-/

namespace DeployGate

/-! ## Options -/

/-- An option of the command line. -/
inductive Switch where
  | help
  | file
  | rules
  deriving DecidableEq, Repr

namespace Switch

/-- All options. -/
def all : List Switch :=
  [.help, .file, .rules]

/-- The letter of an option. -/
def letter : Switch → Char
  | .help => 'h'
  | .file => 'f'
  | .rules => 'r'

/-- The long spelling of an option. -/
def long : Switch → Text
  | .help => "--help".toList
  | .file => "--file".toList
  | .rules => "--rules".toList

/-- The short spelling of an option. -/
def short (s : Switch) : Text :=
  ['-', s.letter]

/-- Whether an option takes a value. -/
def takesValue : Switch → Bool
  | .help => false
  | _ => true

/-- How messages call an option. -/
def title (s : Switch) : Text :=
  s.short ++ '/' :: s.long

/-- The option with the given letter. -/
def ofLetter? (c : Char) : Option Switch :=
  all.find? fun s => s.letter == c

/-- The option with the given spelling. -/
def ofSpelling? (t : Text) : Option Switch :=
  all.find? fun s => s.short == t || s.long == t

end Switch

/-! ## Words -/

/-- What a word of the command line is. -/
inductive Word where
  | operand (text : Text)
  /-- The double hyphen, behind which all words are operands. -/
  | separator
  /-- An option, in its short or its long spelling, with the value that its own word
  carries: behind an equals sign, or directly behind the letter. -/
  | switch (s : Switch) (isShort : Bool) (attached : Option Text)
  | unknown (text : Text)
  deriving DecidableEq, Repr

/-- A word that could be short for several options. -/
structure Ambiguity where
  word : Text
  matching : List Switch
  deriving DecidableEq, Repr

namespace Word

/-- What stands before and behind the first equals sign of a text. -/
def atSign? (t : Text) : Option (Text × Text) :=
  let before := t.takeWhile (· != '=')
  match t.drop before.length with
  | _ :: behind => some (before, behind)
  | [] => none

/-- A hyphen and a decimal numeral, with at most one line end behind it. -/
def isNegativeNumber (t : Text) : Bool :=
  match t with
  | '-' :: rest =>
    let rest := if rest.getLast? == some '\n' then rest.dropLast else rest
    let whole := rest.takeWhile Text.isDecimalDigit
    match rest.drop whole.length with
    | [] => !whole.isEmpty
    | '.' :: places => !places.isEmpty && places.all Text.isDecimalDigit
    | _ => false
  | _ => false

/-- The word of a text that spells no option in full. -/
def ofAbbreviation (t : Text) : Except Ambiguity Word :=
  let (start, attached) : Text × Option Text := match atSign? t with
    | some (before, behind) => (before, some behind)
    | none => (t, none)
  let matching : List (Switch × Bool × Option Text) :=
    if t[1]? == some '-' then
      (Switch.all.filter fun s => start.isPrefixOf s.long).map (·, false, attached)
    else
      (Switch.all.filter fun s => t[1]? == some s.letter).map (·, true, some (t.drop 2))
  match matching with
  | [(s, isShort, attached)] => .ok (.switch s isShort attached)
  | [] =>
    if isNegativeNumber t || t.contains ' ' then .ok (.operand t) else .ok (.unknown t)
  | several => .error ⟨t, several.map Prod.fst⟩

/-- The word of a text in front of any separator. -/
def ofText (t : Text) : Except Ambiguity Word :=
  if t.head? != some '-' || t.length == 1 then .ok (.operand t)
  else match Switch.ofSpelling? t, atSign? t with
    | some s, _ => .ok (.switch s (t.length == 2) none)
    | none, none => ofAbbreviation t
    | none, some (before, behind) =>
      match Switch.ofSpelling? before with
      | some s => .ok (.switch s (before.length == 2) (some behind))
      | none => ofAbbreviation t

/-- The words of a command line. -/
def ofArguments : List Text → Except Ambiguity (List Word)
  | [] => .ok []
  | t :: ts =>
    if t = ['-', '-'] then .ok (.separator :: ts.map .operand)
    else do
      let w ← ofText t
      let ws ← ofArguments ts
      pure (w :: ws)

end Word

/-! ## Requests -/

/-- Why a command line is refused. -/
inductive Misuse where
  | ambiguous (a : Ambiguity)
  /-- An option lacks its value. -/
  | valueMissing (s : Switch)
  /-- An option carries a value it does not take. -/
  | valueIgnored (s : Switch) (value : Text)
  | unrecognized (words : List Text)
  deriving DecidableEq, Repr

/-- The wording of a misuse. -/
def Misuse.message : Misuse → Text
  | .ambiguous a => "ambiguous option: ".toList ++ a.word ++ " could match ".toList ++
      Text.joinWith ", ".toList (a.matching.map Switch.long)
  | .valueMissing s => "argument ".toList ++ s.title ++ ": expected one argument".toList
  | .valueIgnored s value => "argument ".toList ++ s.title ++
      ": ignored explicit argument ".toList ++ value.quoted
  | .unrecognized words => "unrecognized arguments: ".toList ++
      Text.joinWith [' '] words

/-- The value of an option. -/
inductive Setting where
  | given (value : Text)
  /-- A double hyphen stood in place of the value, and was dropped. -/
  | dropped
  deriving DecidableEq, Repr

/-- The setting that a value makes. -/
def Setting.ofText (value : Text) : Setting :=
  if value = ['-', '-'] then .dropped else .given value

/-- What a command line asks to check: the directory, if one is given, the name of
the file in it, and the rules file, if one is given. -/
structure Arguments where
  directory : Option Text
  file : Setting
  rules : Option Setting
  deriving DecidableEq, Repr

/-- What becomes of a command line. -/
inductive Request where
  | run (a : Arguments)
  | help
  | misuse (m : Misuse)
  deriving DecidableEq, Repr

namespace Arguments

/-- The name of a deployment process file. -/
def standardFile : Text :=
  "deployment_process.ocl".toList

/-- What is assumed before the first word is looked at. -/
def initial : Arguments :=
  ⟨none, .given standardFile, none⟩

/-- Give an option its value. -/
def set (a : Arguments) (value : Text) : Switch → Arguments
  | .help => a
  | .file => { a with file := .ofText value }
  | .rules => { a with rules := some (.ofText value) }

/-- The state of the reading: what is known so far, whether the place of the
directory is taken, and the words without a use. -/
structure State where
  known : Arguments
  taken : Bool
  extras : List Text

/-- The spelling of a word as an operand, which leaves options aside. -/
def operand? : Word → Option Text
  | .operand t => some t
  | _ => none

/-- What becomes of the letters behind the one of the help option in its word.  Each
is an option of its own; the first that takes a value has the rest of the word for
it, or else the operand `following`. -/
def cluster (following : Option Text) : Text → Request
  | [] => .help
  | c :: rest =>
    match Switch.ofLetter? c with
    | none => .misuse (.valueIgnored .help (c :: rest))
    | some s =>
      if !s.takesValue then cluster following rest
      else if rest.isEmpty && following.isNone then .misuse (.valueMissing s)
      else .help

/-- What becomes of the help option. -/
def helpRequest (isShort : Bool) (attached following : Option Text) : Request :=
  match attached with
  | none => .help
  | some value =>
    if isShort && !value.isEmpty then cluster following value
    else .misuse (.valueIgnored .help value)

/-- Read words one after the other. -/
def readWords (s : State) : List Word → Request
  | [] =>
    if s.extras.isEmpty then .run s.known else .misuse (.unrecognized s.extras)
  | .unknown t :: ws => readWords { s with extras := s.extras ++ [t] } ws
  | .operand t :: ws =>
    if s.taken then readWords { s with extras := s.extras ++ [t] } ws
    else
      let s := { s with known := { s.known with directory := some t }, taken := true }
      match ws with
      | .separator :: ws => readWords s ws
      | ws => readWords s ws
  | .separator :: ws =>
    if s.taken then readWords { s with extras := s.extras ++ [['-', '-']] } ws
    else match ws with
      | .operand t :: ws =>
        readWords { s with known := { s.known with directory := some t }, taken := true } ws
      | ws => readWords { s with taken := true } ws
  | .switch .help isShort attached :: ws =>
    helpRequest isShort attached (ws.head?.bind operand?)
  | .switch o _ (some value) :: ws =>
    readWords { s with known := s.known.set value o } ws
  | .switch o _ none :: .operand value :: ws =>
    readWords { s with known := s.known.set value o } ws
  | .switch o _ none :: _ => .misuse (.valueMissing o)

/-- What becomes of a command line. -/
def read (words : List Text) : Request :=
  match Word.ofArguments words with
  | .error a => .misuse (.ambiguous a)
  | .ok ws => readWords ⟨initial, false, []⟩ ws

end Arguments

end DeployGate
