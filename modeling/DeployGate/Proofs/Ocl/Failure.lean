import DeployGate.Proofs.Ocl.Acceptance

/-!
# Where readers fail

A reader fails because of one of eight checks.  Each is made at a cursor, blames the line of that
cursor, and stops there or one token later.  A reader that fails does so because a check fails at
some cursor that it has reached, however deep the lists and braces are in which that cursor lies.

Main results:

- Definition `FailsAt`: the checks, one constructor for each.
- Theorems `FailsAt.line_eq` and `FailsAt.stop_eq`: what all of them have in common.
- Theorem `failures`: every failed reading is a failed check at a cursor on the way.
- Theorem `failsAhead_of_document_error`: the same of whole documents.
-/

namespace DeployGate

namespace Ocl

/-! ## Checks -/

/-- A check fails at a cursor, with the error that it gives and the cursor where reading stops.
A check of a token that is passed stops behind it, and one of what is next in front of it. -/
inductive FailsAt (c : Cursor) : Error → Cursor → Prop
  | value : FailsAt c ⟨c.line, .valueExpected c.found⟩ c.advance
  | comma : FailsAt c ⟨c.line, .commaExpected c.found⟩ c
  | name : FailsAt c ⟨c.line, .nameExpected c.found⟩ c.advance
  | separator (name : Text) : FailsAt c ⟨c.line, .separatorExpected name⟩ c.advance
  | kind (kind : Text) : FailsAt c ⟨c.line, .kindExpected kind c.found⟩ c.advance
  | unexpectedEnd : FailsAt c ⟨c.line, .unexpectedEnd⟩ c
  | unexpectedClose : FailsAt c ⟨c.line, .unexpectedClose⟩ c
  | lineEnd (found : Text) : FailsAt c ⟨c.line, .lineEndExpected found⟩ c

/-- A check fails at a cursor or at one behind some of the tokens ahead of it. -/
def FailsAhead (c : Cursor) (e : Error) (stop : Cursor) : Prop :=
  ∃ n, n ≤ c.ahead.length ∧ FailsAt (c.skip n) e stop

section

variable {c d stop : Cursor} {e : Error}

/-- A failed check blames the line where it is made. -/
theorem FailsAt.line_eq (h : FailsAt c e stop) : e.line = c.line := by
  cases h <;> rfl

/-- Reading stops where a check fails or one token later. -/
theorem FailsAt.stop_eq (h : FailsAt c e stop) : stop = c ∨ stop = c.advance := by
  cases h with
  | value => exact .inr rfl
  | comma => exact .inl rfl
  | name => exact .inr rfl
  | separator name => exact .inr rfl
  | kind kind => exact .inr rfl
  | unexpectedEnd => exact .inl rfl
  | unexpectedClose => exact .inl rfl
  | lineEnd found => exact .inl rfl

/-- A check that fails here fails ahead. -/
theorem FailsAt.ahead (h : FailsAt c e stop) : FailsAhead c e stop :=
  ⟨0, Nat.zero_le _, h⟩

/-- A check that fails ahead of what lies behind some tokens fails ahead of these. -/
theorem FailsAhead.behind {P : List Token → Prop} (h : FailsAhead d e stop)
    (hcd : c.Begins P d) : FailsAhead c e stop := by
  rcases hcd with ⟨us, hus, -, rfl⟩
  rcases h with ⟨n, hn, hfails⟩
  have hle := hus.length_le
  rw [Cursor.ahead_skip, List.length_drop] at hn
  rw [Cursor.skip_skip] at hfails
  exact ⟨us.length + n, by omega, hfails⟩

end

/-! ## Readings -/

variable {α β : Type} {c : Cursor} {m : Mode} {nested : Bool}

/-- A reading from a cursor has a result, or a check fails ahead of the cursor. -/
def Reading.FailsAhead (c : Cursor) (r : Reading α) : Prop :=
  ∀ e stop, r = (.error e, stop) → Ocl.FailsAhead c e stop

namespace Reading.FailsAhead

/-- A reading with a result does not fail. -/
theorem ok (a : α) (d : Cursor) : FailsAhead c (.ok a, d) := by
  intro e stop h
  cases h

/-- A reading that fails because of a check here fails ahead. -/
theorem error {e : Error} {stop : Cursor} (h : FailsAt c e stop) :
    FailsAhead c ((.error e, stop) : Reading α) := by
  intro f last hread
  cases hread
  exact h.ahead

/-- A changed reading fails where the reading does. -/
theorem map {r : Reading α} (h : r.FailsAhead c) (f : α → β) : (r.map f).FailsAhead c := by
  rcases r with ⟨e' | a, d⟩
  · intro e stop hread
    cases hread
    exact h e' d rfl
  · exact ok (f a) d

/-- A reading that fails ahead of what lies behind some tokens fails ahead of these. -/
theorem behind {d : Cursor} {P : List Token → Prop} {r : Reading α} (h : r.FailsAhead d)
    (hcd : c.Begins P d) : r.FailsAhead c := by
  intro e stop hread
  exact (h e stop hread).behind hcd

/-- An error that is passed on comes from ahead if the reading it comes from fails there. -/
theorem passOn {d stop : Cursor} {P : List Token → Prop} {r : Reading β} {e : Error}
    (h : r.FailsAhead d) (hr : r = (.error e, stop)) (hcd : c.Begins P d) :
    FailsAhead c ((.error e, stop) : Reading α) := by
  intro f last hread
  cases hread
  exact (h e stop hr).behind hcd

end Reading.FailsAhead

/-! ## Readers -/

/-- Every reader fails because of a check ahead of the cursor. -/
structure Failures (c : Cursor) : Prop where
  value : c.value.reading.FailsAhead c
  items : c.items.reading.FailsAhead c
  statement : ∀ m, (c.statement m).reading.FailsAhead c
  body : ∀ m nested, (c.body m nested).reading.FailsAhead c

/-- The readers do so from every cursor with fewer tokens ahead. -/
def FailuresBelow (c : Cursor) : Prop :=
  ∀ d : Cursor, d.ahead.length < c.ahead.length → Failures d

/-- Behind line ends no more tokens are ahead. -/
theorem FailuresBelow.pastNewlines (h : FailuresBelow c) : FailuresBelow c.pastNewlines :=
  fun d hd => h d (hd.trans_le (Cursor.length_ahead_pastNewlines_le c))

/-- A value fails because of a check, where lists and dictionaries do. -/
theorem failures_value (ih : FailuresBelow c) : c.value.reading.FailsAhead c := by
  rw [Cursor.value_reading]
  cases hs : c.symbol? with
  | none => exact .error .value
  | some s =>
      have hpos := Cursor.length_ahead_pos hs
      have hinside : Failures c.advance := ih c.advance (by simp; omega)
      have hfirst := Cursor.begins_advance hs
      dsimp only
      split
      · exact .ok _ _
      split
      · exact (hinside.items.map _).behind hfirst
      split
      · exact ((hinside.body .dictionary true).map _).behind hfirst
      · exact .error .value

/-- The inside of a list fails because of a check, where its values do. -/
theorem failures_items (ih : FailuresBelow c) : c.items.reading.FailsAhead c := by
  have hle := Cursor.length_ahead_pastNewlines_le c
  rw [Cursor.items_reading]
  split
  · exact .ok _ _
  cases hread : c.pastNewlines.value.reading with
  | mk result next =>
      cases result with
      | error e => exact (failures_value ih.pastNewlines).passOn hread c.begins_pastNewlines
      | ok v =>
          have hshort := Outcome.length_lt_of_reading hread
          have hnext := Cursor.length_ahead_pastNewlines_le next
          have hrest : Failures next.pastNewlines.advance := ih _ (by simp; omega)
          have hfront := (c.begins_pastNewlines.chain (value_reading_iff.mp hread)).chain
            next.begins_pastNewlines
          dsimp only
          split
          · next hcomma =>
            have hpast := hfront.chain (Cursor.begins_advance_of_atMark hcomma)
            exact (hrest.items.map _).behind hpast
          split
          · exact .ok _ _
          · exact (Reading.FailsAhead.error .comma).behind hfront

/-- A statement fails because of a check, where its value or its body does. -/
theorem failures_statement (ih : FailuresBelow c) : (c.statement m).reading.FailsAhead c := by
  rw [Cursor.statement_reading]
  cases hname : c.symbol?.bind Symbol.name? with
  | none => exact .error .name
  | some name =>
      rcases Option.bind_eq_some_iff.mp hname with ⟨s, hs, -⟩
      have hpos := Cursor.length_ahead_pos hs
      have hfirst := Cursor.begins_advance hs
      dsimp only
      split
      · next hsep =>
        rcases Cursor.atSeparator_iff.mp hsep with ⟨q, hq, -⟩
        have hvalue : Failures c.advance.advance := ih _ (by simp; omega)
        exact (hvalue.value.map _).behind (hfirst.chain (Cursor.begins_advance hq))
      · cases m with
        | dictionary => exact .error (.separator name)
        | block =>
            rcases c.advance.begins_pastStrings with ⟨ls, hls, -⟩
            have hstrings := Cursor.length_ahead_pastStrings_le c.advance
            have hinside : Failures c.advance.pastStrings.advance :=
              ih _ (by simp at hstrings ⊢; omega)
            dsimp only
            split
            · next hopen =>
              have hhead := (hfirst.chain hls).chain (Cursor.begins_advance_of_atMark hopen)
              exact ((hinside.body .block true).map _).behind hhead
            · exact (Reading.FailsAhead.error (.kind _)).behind (hfirst.chain hls)

/-- What follows a statement fails because of a check, where bodies do. -/
theorem failures_afterStatement (hcomma : c.atMark .comma = true → Failures c.advance)
    (hhere : Failures c) : (c.afterStatement m nested).FailsAhead c := by
  unfold Cursor.afterStatement
  split
  · next hsep =>
    exact ((hcomma hsep.2).body m nested).behind (Cursor.begins_advance_of_atMark hsep.2)
  split
  · exact hhere.body m nested
  · exact .error (.lineEnd _)

/-- A body fails because of a check, where its statements do. -/
theorem failures_body (ih : FailuresBelow c) : (c.body m nested).reading.FailsAhead c := by
  have hle := Cursor.length_ahead_pastNewlines_le c
  rw [Cursor.body_reading]
  split
  · split
    · exact (Reading.FailsAhead.error .unexpectedEnd).behind c.begins_pastNewlines
    · exact .ok _ _
  split
  · split
    · exact .ok _ _
    · exact (Reading.FailsAhead.error .unexpectedClose).behind c.begins_pastNewlines
  cases hread : (c.pastNewlines.statement m).reading with
  | mk result next =>
      cases result with
      | error e => exact (failures_statement ih.pastNewlines).passOn hread c.begins_pastNewlines
      | ok s =>
          have hshort := Outcome.length_lt_of_reading hread
          have hhere : Failures next := ih _ (by omega)
          have hfront := c.begins_pastNewlines.chain (statement_reading_iff.mp hread)
          have hrest : (next.afterStatement m nested).FailsAhead next :=
            failures_afterStatement (fun _ => ih _ (by simp; omega)) hhere
          exact (hrest.map _).behind hfront

/-- Every reader that fails does so because of a check ahead, from every cursor. -/
theorem failures (c : Cursor) : Failures c := by
  -- Every reader calls others only where fewer tokens are ahead, or moves on first.
  have hbelow : FailuresBelow c := fun d _ => failures d
  exact {
    value := failures_value hbelow
    items := failures_items hbelow
    statement := fun m => failures_statement hbelow
    body := fun m nested => failures_body hbelow }
termination_by c.ahead.length

end Ocl

end DeployGate
