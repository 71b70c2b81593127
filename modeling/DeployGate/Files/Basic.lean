import DeployGate.Files.Path
import DeployGate.Text.LineEnds
import DeployGate.Text.Utf8

/-!
# Files

All that the checks know of the world is what comes of looking at each path and of
reading it.

Main results:

- `Files.withoutMark_mark` shows that a byte order mark makes no difference where it
  is skipped.
-/

namespace DeployGate

/-! ## Reading bytes -/

/-- An error of the operating system: its number, what it says, and whether the path
that it is about is named with it, as is done where a path is opened and not where an
open file is read. -/
structure FileFault where
  number : Nat
  reason : Text
  named : Bool
  printable : reason.Printable
  deriving DecidableEq, Repr

namespace FileFault

/-- Nothing is at the path. -/
def missing : FileFault :=
  ⟨2, "No such file or directory".toList, true, by decide⟩

/-- The path, or a directory on it, is closed to the program. -/
def denied : FileFault :=
  ⟨13, "Permission denied".toList, true, by decide⟩

/-- The path leads through a file. -/
def notDirectory : FileFault :=
  ⟨20, "Not a directory".toList, true, by decide⟩

/-- A directory is at the path. -/
def isDirectory : FileFault :=
  ⟨21, "Is a directory".toList, true, by decide⟩

/-- The path, or a name on it, is longer than the system takes. -/
def nameTooLong : FileFault :=
  ⟨36, "File name too long".toList, true, by decide⟩

/-- The links on the path lead round in a circle. -/
def endlessLinks : FileFault :=
  ⟨40, "Too many levels of symbolic links".toList, true, by decide⟩

/-- The wording of an error at a path. -/
def message (path : Path) (fault : FileFault) : Text :=
  "[Errno ".toList ++ Text.ofNat fault.number ++ "] ".toList ++ fault.reason ++
    if fault.named then ": ".toList ++ path.toText.quoted else []

/-- Whether an error says no more than that nothing is there: the path is missing, or
leads through a file, a closed handle or endless links. -/
def isAbsence (fault : FileFault) : Bool :=
  [2, 9, 20, 40].contains fault.number

end FileFault

/-- What comes of looking at each path and of reading it.  A path that is read is
there to be looked at. -/
structure Files where
  look : Path → Except FileFault Unit
  read : Path → Except FileFault (List UInt8)
  look_of_read : ∀ path bytes, read path = .ok bytes → look path = .ok ()

/-- Files by what each path reads as, where some paths that are not read are there all
the same. -/
def Files.ofReads (read : Path → Except FileFault (List UInt8)) (isThere : Path → Bool) :
    Files where
  look path := match read path with
    | .ok _ => .ok ()
    | .error fault => if isThere path then .ok () else .error fault
  read := read
  look_of_read := by
    intro path bytes h
    rw [h]

/-! ## Reading texts -/

/-- Why no text is read from a path. -/
inductive ReadFault where
  | file (path : Path) (fault : FileFault)
  /-- The path holds a NUL character. -/
  | nulInPath
  | undecodable (fault : Utf8.Fault)
  deriving DecidableEq, Repr

/-- The wording of a fault. -/
def ReadFault.message : ReadFault → Text
  | .file path fault => fault.message path
  | .nulInPath => "embedded null byte".toList
  | .undecodable fault => fault.message

namespace Files

/-- Whether a path leads anywhere.  An error that says more than that it does not is
passed on. -/
def hasPath (files : Files) (path : Path) : Except FileFault Bool :=
  if path.hasNul then .ok false
  else match files.look path with
    | .ok () => .ok true
    | .error fault => if fault.isAbsence then .ok false else .error fault

/-- The bytes of a path. -/
def bytes (files : Files) (path : Path) : Except ReadFault (List UInt8) :=
  if path.hasNul then .error .nulInPath
  else (files.read path).mapError (.file path)

/-- The text that bytes spell, with line feeds for all line ends. -/
def decode (bytes : List UInt8) : Except ReadFault Text :=
  match Utf8.decode bytes with
  | .ok t => .ok t.normalizeLineEnds
  | .error fault => .error (.undecodable fault)

/-- The text of a path.  A byte order mark at its start belongs to the text. -/
def textWithMark (files : Files) (path : Path) : Except ReadFault Text := do
  decode (← files.bytes path)

/-- The text of a path without one byte order mark at its start. -/
def text (files : Files) (path : Path) : Except ReadFault Text := do
  decode (Utf8.withoutMark (← files.bytes path))

/-- A byte order mark in front of bytes that neither start with one nor lie within
one is skipped. -/
theorem withoutMark_mark {bs : List UInt8}
    (h : Utf8.withoutMark bs = bs) :
    Utf8.withoutMark (Utf8.byteOrderMark ++ bs) = Utf8.withoutMark bs := by
  rw [h]
  simp [Utf8.withoutMark, Utf8.byteOrderMark]

end Files

end DeployGate
