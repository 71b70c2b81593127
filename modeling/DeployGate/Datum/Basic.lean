import DeployGate.Number.Basic
import DeployGate.Datum.Date
import DeployGate.Text.Quoted

/-!
# Loaded values

What a rules file holds once it is read, whichever of the two formats it was
written in.  Mappings keep the order in which their keys were first seen: a new key
goes to the end, a known key keeps its place and takes the new value.
-/

namespace DeployGate

/-- A value of a kind that rules files have no use for, such as a moment in time, bytes
or a set: the name of its kind, how messages show it, its plain word, and whether an
integer in it has more digits than messages show. -/
structure Foreign where
  kind : Text
  form : Text
  word : Text
  oversized : Bool
  printable : form.Printable
  deriving Repr

/-- A value read from a rules file. -/
inductive Datum where
  | null
  | bool (b : Bool)
  | number (x : Number)
  | text (t : Text)
  | date (d : Date)
  | list (items : List Datum)
  | map (entries : List (Datum × Datum))
  | foreign (value : Foreign)
  deriving Repr

namespace Datum

/-- A mapping from keys to values, in the order of its keys. -/
abbrev Entries := List (Datum × Datum)

/-! ## Keys -/

/-- The number that a key stands for: a truth value counts as zero or one. -/
def asNumber? : Datum → Option Number
  | .bool b => some (.int (if b then 1 else 0))
  | .number x => some x
  | _ => none

/-- Whether two values are one key.  Numbers and truth values are compared by
value; collections are never keys, and a foreign value is no other key. -/
def sameKey : Datum → Datum → Bool
  | .null, .null => true
  | .text s, .text t => s == t
  | .date d, .date e => d == e
  | k, l => match k.asNumber?, l.asNumber? with
    | some x, some y => x.same y
    | _, _ => false

/-- Give a key a value.  A known key keeps its place and its first spelling. -/
def insert (key value : Datum) : Entries → Entries
  | [] => [(key, value)]
  | (k, v) :: rest =>
    if sameKey k key then (k, value) :: rest else (k, v) :: insert key value rest

/-- The value of a key. -/
def lookup? (key : Datum) : Entries → Option Datum
  | [] => none
  | (k, v) :: rest => if sameKey k key then some v else lookup? key rest

/-- A mapping from pairs in the order of their appearance. -/
def ofPairs (pairs : List (Datum × Datum)) : Entries :=
  pairs.foldl (fun entries (k, v) => insert k v entries) []

/-! ## Names and texts -/

/-- The name that messages give to the kind of a value. -/
def kindName : Datum → Text
  | .null => "NoneType".toList
  | .bool _ => "bool".toList
  | .number (.int _) => "int".toList
  | .number (.double _) => "float".toList
  | .text _ => "str".toList
  | .date _ => "date".toList
  | .list _ => "list".toList
  | .map _ => "dict".toList
  | .foreign v => v.kind

mutual

/-- A value as messages show it. -/
def shown : Datum → Except NumeralFault Text
  | .null => .ok "None".toList
  | .bool b => .ok (if b then "True".toList else "False".toList)
  | .number x => x.toText
  | .text t => .ok t.quoted
  | .date d => .ok ("datetime.date(".toList ++ Text.joinWith ", ".toList
      [Text.ofNat d.year, Text.ofNat d.month, Text.ofNat d.day] ++ [')'])
  | .list items => do
    let parts ← shownItems items
    pure ('[' :: Text.joinWith ", ".toList parts ++ [']'])
  | .map entries => do
    let parts ← shownEntries entries
    pure ('\x7b' :: Text.joinWith ", ".toList parts ++ ['\x7d'])
  | .foreign v => if v.oversized then .error .unshown else .ok v.form

/-- The items of a list, each as messages show it. -/
def shownItems : List Datum → Except NumeralFault (List Text)
  | [] => .ok []
  | d :: ds => do
    let t ← shown d
    let ts ← shownItems ds
    pure (t :: ts)

/-- The entries of a mapping, each as messages show it. -/
def shownEntries : List (Datum × Datum) → Except NumeralFault (List Text)
  | [] => .ok []
  | (k, v) :: es => do
    let key ← shown k
    let value ← shown v
    let ts ← shownEntries es
    pure ((key ++ ':' :: ' ' :: value) :: ts)

end

/-- A value in plain words: a text as it is, a date by its numbers, a foreign value by
its word, all else as messages show it. -/
def plain : Datum → Except NumeralFault Text
  | .text t => .ok t
  | .date d => .ok d.toText
  | .foreign v => if v.oversized then .error .unshown else .ok v.word
  | d => d.shown

end Datum

end DeployGate
