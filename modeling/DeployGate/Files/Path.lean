import DeployGate.Text.Quoted

/-!
# Paths

A path is a sequence of names that starts at the root or at the present directory.
Empty names and single dots say nothing and are left out; double dots stay.
-/

namespace DeployGate

/-- A path: the number of slashes it starts with, none for a relative path, and the
names on it. -/
structure Path where
  slashes : Nat
  names : List Text
  deriving DecidableEq, Repr

namespace Path

/-- The path that a text spells.  Exactly two slashes at its start are kept, more of
them count as one. -/
def ofText (t : Text) : Path :=
  let leading := (t.takeWhile (· == '/')).length
  let names := (Text.splitAt '/' t).filter fun n => !(n.isEmpty || n == ['.'])
  ⟨if 2 < leading then 1 else leading, names⟩

/-- A path as messages show it. -/
def toText (p : Path) : Text :=
  let t := List.replicate p.slashes '/' ++ Text.joinWith ['/'] p.names
  if t.isEmpty then ['.'] else t

/-- Whether a path starts at the root. -/
def isAbsolute (p : Path) : Bool :=
  p.slashes != 0

/-- A path inside another one. -/
def join (p q : Path) : Path :=
  if q.isAbsolute then q else { p with names := p.names ++ q.names }

/-- Whether a path holds the character that no path may hold. -/
def hasNul (p : Path) : Bool :=
  p.names.any fun n => n.contains '\x00'

end Path

end DeployGate
