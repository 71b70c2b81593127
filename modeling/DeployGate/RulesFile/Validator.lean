import DeployGate.RulesFile.Format
import DeployGate.RulesFile.Schema

/-!
# Validators of rules files

How the violations of a value are searched for and worded is left open: a validator is any
search with any wording, and a run is given the one that it needs.  One validator is at hand,
which searches for what the form of a rules file forbids.

Main results:

- Definition `Validator.standard`: the validator that is at hand.
-/

namespace DeployGate

/-- A validator: the violations of each value in the order in which they are found, and the
message of each violation. -/
structure Validator where
  violations : Datum → List Violation
  message : Violation → Except Breakdown Text

/-! ## Messages -/

namespace Problem

/-- Whether a key comes before another one in a list of keys, given the plain word and
the shown form of each: the words decide, and the forms where the words are the same. -/
def listedBefore (k l : Text × Text) : Bool :=
  if k.1 = l.1 then Text.atMost k.2 l.2 else Text.atMost k.1 l.1

/-- Keys in the order of a list of keys, each as messages show it. -/
def shownKeys (keys : List Datum) : Except NumeralFault (List Text) := do
  let pairs ← keys.mapM fun k => do
    let word ← k.plain
    let form ← k.shown
    pure (word, form)
  pure ((pairs.mergeSort listedBefore).map Prod.snd)

/-- The wording about unknown keys, given how messages show them. -/
def unknownKeysText (forms : List Text) : Text :=
  let verb := if forms.length = 1 then " was".toList else " were".toList
  "Additional properties are not allowed (".toList ++ Text.joinWith ", ".toList forms ++ verb ++
    " unexpected)".toList

/-- The wording of a problem. -/
def message : Problem → Except NumeralFault Text
  | .notMapping d => d.shown.map (· ++ " is not of type 'object'".toList)
  | .unknownKeys keys => (shownKeys keys).map unknownKeysText
  | .notInteger d => d.shown.map (· ++ " is not of type 'integer'".toList)
  | .belowOne x => x.toText.map (· ++ " is less than the minimum of 1".toList)
  | .notText d => d.shown.map (· ++ " is not of type 'string'".toList)
  | .emptyText => .ok (Text.quoted [] ++ " should be non-empty".toList)

end Problem

/-- The validator that searches for what the form of a rules file forbids. -/
def Validator.standard : Validator where
  violations := Schema.violations
  message v := v.problem.message.mapError .ofNumeral

end DeployGate
