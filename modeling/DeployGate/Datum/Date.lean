import DeployGate.Text.Basic

/-!
# Calendar dates

Dates of the Gregorian calendar from year 1 to year 9999.
-/

namespace DeployGate

/-- Why three numbers are no date. -/
inductive DateFault where
  | year (given : Nat)
  | month
  | day
  deriving DecidableEq, Repr

/-- The wording of an impossible date. -/
def DateFault.message : DateFault → Text
  | .year given => "year ".toList ++ Text.ofNat given ++ " is out of range".toList
  | .month => "month must be in 1..12".toList
  | .day => "day is out of range for month".toList

/-- A calendar date. -/
structure Date where
  year : Nat
  month : Nat
  day : Nat
  deriving DecidableEq, Repr

namespace Date

/-- A year with a 29th of February. -/
def isLeapYear (year : Nat) : Bool :=
  year % 4 == 0 && (year % 100 != 0 || year % 400 == 0)

/-- The number of days of a month. -/
def daysInMonth (year month : Nat) : Nat :=
  if month = 2 then (if isLeapYear year then 29 else 28)
  else if month = 4 ∨ month = 6 ∨ month = 9 ∨ month = 11 then 30
  else 31

/-- The date with the given numbers; of several faults the one in the year comes
before the one in the month and that before the one in the day. -/
def ofNumbers (year month day : Nat) : Except DateFault Date :=
  if year < 1 ∨ 9999 < year then .error (.year year)
  else if month < 1 ∨ 12 < month then .error .month
  else if day < 1 ∨ daysInMonth year month < day then .error .day
  else .ok ⟨year, month, day⟩

/-- A number filled up with zeros to the given width. -/
private def padded (width n : Nat) : Text :=
  let digits := Text.ofNat n
  List.replicate (width - digits.length) '0' ++ digits

/-- A date as year, month and day with hyphens between them. -/
def toText (d : Date) : Text :=
  padded 4 d.year ++ '-' :: padded 2 d.month ++ '-' :: padded 2 d.day

end Date

end DeployGate
