import DeployGate.Ocl.Document
import DeployGate.Proofs.Text.Span

/-!
# What the readers of documents give

Each reader of a document moves a cursor and gives a result or an error.  This
module says once what each of them gives, with the bounds left out, so that no
later proof has to open a reader again.

Main results:

- Theorems `value_reading`, `items_reading`, `statement_reading` and `body_reading`:
  one equation for each reader.
- Theorem `body_reading_of_newline`: a body does not see a line end in front of it.
-/

namespace DeployGate

namespace Ocl

namespace Cursor

/-! ## Moving a cursor -/

/-- Pass a number of tokens; behind the last one the end is passed. -/
def skip (n : Nat) (c : Cursor) : Cursor :=
  { c with ahead := c.ahead.drop n, position := c.position + n }

@[simp] theorem ahead_skip (n : Nat) (c : Cursor) : (c.skip n).ahead = c.ahead.drop n := rfl

@[simp] theorem endLine_skip (n : Nat) (c : Cursor) : (c.skip n).endLine = c.endLine := rfl

@[simp] theorem position_skip (n : Nat) (c : Cursor) :
    (c.skip n).position = c.position + n := rfl

@[simp] theorem skip_zero (c : Cursor) : c.skip 0 = c := rfl

/-- Passing tokens twice passes their sum. -/
theorem skip_skip (m n : Nat) (c : Cursor) : (c.skip m).skip n = c.skip (m + n) := by
  simp [skip, List.drop_drop, Nat.add_assoc]

/-- Passing one token is passing a number of tokens. -/
theorem advance_eq_skip (c : Cursor) : c.advance = c.skip 1 := by
  simp [advance, skip]

/-- Passing one token and more behind it passes them all. -/
theorem skip_length_cons (t : Token) (us : List Token) (c : Cursor) :
    c.skip (t :: us).length = c.advance.skip us.length := by
  rw [advance_eq_skip, skip_skip, List.length_cons, Nat.add_comm]

/-- Passing tokens and more behind them passes them all. -/
theorem skip_length_append (us ws : List Token) (c : Cursor) :
    c.skip (us ++ ws).length = (c.skip us.length).skip ws.length := by
  rw [skip_skip, List.length_append]

/-- Passing line ends is passing a number of tokens. -/
theorem pastNewlines_eq_skip (c : Cursor) : c.pastNewlines = c.skip c.newlines := rfl

/-- Passing strings is passing a number of tokens. -/
theorem pastStrings_eq_skip (c : Cursor) : c.pastStrings = c.skip c.strings.length := rfl

/-- What is left behind a beginning of the tokens ahead. -/
theorem ahead_skip_of_ahead {c : Cursor} {us rest : List Token} (h : c.ahead = us ++ rest) :
    (c.skip us.length).ahead = rest := by
  simp [h]

/-! ## What is next -/

/-- The next symbol is the one of the first token ahead. -/
theorem symbol?_of_ahead {c : Cursor} {t : Token} {ts : List Token} (h : c.ahead = t :: ts) :
    c.symbol? = some t.symbol := by
  simp [symbol?, h]

/-- Nothing is next exactly if no token is ahead. -/
theorem symbol?_eq_none_iff {c : Cursor} : c.symbol? = none ↔ c.ahead = [] := by
  simp [symbol?]

/-- Some symbol is next exactly if a token with it is the first one ahead. -/
theorem symbol?_eq_some_iff {c : Cursor} {s : Symbol} :
    c.symbol? = some s ↔ ∃ ts, c.ahead = ⟨s, c.line⟩ :: ts := by
  constructor
  · intro h
    cases hc : c.ahead with
    | nil => simp [symbol?, hc] at h
    | cons t ts =>
        have hs : t.symbol = s := by simpa [symbol?, hc] using h
        exact ⟨ts, by simp [line, hc, ← hs]⟩
  · intro h
    rcases h with ⟨ts, h⟩
    exact symbol?_of_ahead h

/-- The line of a cursor is the one of the first token ahead. -/
theorem line_of_ahead {c : Cursor} {t : Token} {ts : List Token} (h : c.ahead = t :: ts) :
    c.line = t.line := by
  simp [line, h]

/-- A mark is next exactly if it is the next symbol. -/
theorem atMark_iff {c : Cursor} {k : Mark} : c.atMark k = true ↔ c.symbol? = some (.mark k) := by
  simp [atMark]

/-- A separator is next exactly if the next symbol is a mark that separates. -/
theorem atSeparator_iff {m : Mode} {c : Cursor} :
    c.atSeparator m = true ↔ ∃ q, c.symbol? = some (.mark q) ∧ m.isSeparator q = true := by
  unfold atSeparator
  split
  · next q hq => simp [hq]
  · next hq =>
    simp only [Bool.false_eq_true, false_iff, not_exists, not_and]
    intro q hs
    exact absurd hs (hq q)

/-! ## Line ends and strings ahead -/

/-- Line ends in front of something else are counted. -/
theorem newlines_of_ahead {c : Cursor} {ns rest : List Token} (h : c.ahead = ns ++ rest)
    (hns : ∀ t ∈ ns, t.symbol = .newline)
    (hrest : ∀ t, rest.head? = some t → t.symbol ≠ .newline) :
    c.newlines = ns.length := by
  have hspan : (ns ++ rest).takeWhile (fun t => t.symbol == .newline) = ns :=
    Span.takeWhile_append_of_boundary (by simpa using hns) (by simpa using hrest)
  rw [newlines, h, hspan]

/-- What is passed as line ends is line ends. -/
theorem symbol_of_mem_take_newlines {c : Cursor} {t : Token}
    (h : t ∈ c.ahead.take c.newlines) : t.symbol = .newline := by
  rw [newlines, ← List.prefix_iff_eq_take.mp (List.takeWhile_prefix _)] at h
  simpa using Span.of_mem_takeWhile h

/-- A line end in front makes no difference to what lies behind line ends. -/
theorem pastNewlines_of_newline {c : Cursor} (h : c.symbol? = some .newline) :
    c.pastNewlines = c.advance.pastNewlines := by
  rcases symbol?_eq_some_iff.mp h with ⟨ts, hts⟩
  have hn : c.newlines = c.advance.newlines + 1 := by
    simp [newlines, hts]
  rw [pastNewlines_eq_skip, pastNewlines_eq_skip, hn, advance_eq_skip, skip_skip,
    Nat.add_comm]

/-- The token of a string on a line. -/
def stringToken (s : Text × Int) : Token :=
  ⟨.string s.1, s.2⟩

/-- Strings in front of something else are all the strings ahead. -/
theorem strings_of_ahead {c : Cursor} {ls : List (Text × Int)} {rest : List Token}
    (h : c.ahead = ls.map stringToken ++ rest)
    (hrest : ∀ t s, rest.head? = some t → t.symbol ≠ .string s) :
    c.strings = ls.map Prod.fst := by
  rw [strings, h]
  clear h
  induction ls with
  | nil =>
      rcases rest with - | ⟨⟨s, l⟩, rest⟩
      · rfl
      · cases s with
        | string t => exact absurd rfl (hrest _ t rfl)
        | _ => rfl
  | cons s ls ih => simp [strings.go, stringToken, ih]

/-- The strings ahead are the tokens that are passed as strings. -/
theorem exists_ahead_eq_strings (c : Cursor) :
    ∃ ls : List (Text × Int), c.ahead = ls.map stringToken ++ c.pastStrings.ahead ∧
      c.strings = ls.map Prod.fst := by
  rw [pastStrings_eq_skip, ahead_skip, strings]
  generalize c.ahead = ts
  fun_induction strings.go ts with
  | case1 s l ts ih =>
      rcases ih with ⟨ls, hts, hls⟩
      refine ⟨(s, l) :: ls, ?_, by simp [hls]⟩
      simpa [stringToken] using hts
  | case2 ts hts => exact ⟨[], by simp, rfl⟩

end Cursor

/-! ## Readings -/

/-- What reading gives, and the cursor where it ended. -/
abbrev Reading (α : Type) := Except Error α × Cursor

/-- Change the result of a reading. -/
def Reading.map {α β : Type} (f : α → β) (r : Reading α) : Reading β :=
  (r.1.map f, r.2)

@[simp] theorem Reading.map_ok {α β : Type} (f : α → β) (a : α) (c : Cursor) :
    Reading.map f (.ok a, c) = (.ok (f a), c) := rfl

@[simp] theorem Reading.map_error {α β : Type} (f : α → β) (e : Error) (c : Cursor) :
    Reading.map f (.error e, c) = (.error e, c) := rfl

/-- A changed reading has a result exactly if the reading it was made from has one. -/
theorem Reading.map_eq_ok_iff {α β : Type} {f : α → β} {r : Reading α} {b : β} {c : Cursor} :
    r.map f = (.ok b, c) ↔ ∃ a, r = (.ok a, c) ∧ f a = b := by
  rcases r with ⟨e | a, d⟩ <;> simp [map, Except.map, and_comm, and_left_comm]

/-- What reading gives, the bound left out. -/
def Outcome.reading {n : Nat} {α : Type} (o : Outcome n α) : Reading α :=
  (o.result, o.cursor)

@[simp] theorem Outcome.reading_parsed {n : Nat} {α : Type} (a : α) (next : Cursor)
    (h : next.ahead.length < n) : (Outcome.parsed a next h).reading = (.ok a, next) := rfl

@[simp] theorem Outcome.reading_failed {n : Nat} {α : Type} (e : Error) (stop : Cursor) :
    (Outcome.failed e stop : Outcome n α).reading = (.error e, stop) := rfl

/-- Fewer tokens than the bound are ahead behind a result. -/
theorem Outcome.length_lt_of_reading {n : Nat} {α : Type} {o : Outcome n α} {a : α}
    {next : Cursor} (h : o.reading = (.ok a, next)) : next.ahead.length < n := by
  cases o with
  | failed e stop => simp at h
  | parsed b last shorter =>
      have hlast : last = next := congrArg Prod.snd h
      subst hlast
      exact shorter

@[simp] theorem Outcome.reading_map {m n : Nat} {α β : Type} (f : α → β) (h : m ≤ n)
    (o : Outcome m α) : (o.map f h).reading = o.reading.map f := by
  cases o <;> rfl

namespace Cursor

/-! ## One equation for each reader -/

/-- What reading a value gives. -/
theorem value_reading (c : Cursor) :
    c.value.reading = match c.symbol? with
      | none => (.error ⟨c.line, .valueExpected c.found⟩, c.advance)
      | some s => match s.literal? with
        | some v => (.ok v, c.advance)
        | none =>
          if s = .mark .bracketOpen then c.advance.items.reading.map .list
          else if s = .mark .braceOpen then
            (c.advance.body .dictionary true).reading.map .dictionary
          else (.error ⟨c.line, .valueExpected c.found⟩, c.advance) := by
  rw [value]
  split
  · next s hs =>
    simp only [hs]
    cases s.literal? with
    | some v => rfl
    | none =>
        dsimp only
        split
        · rw [Outcome.reading_map]
        · split
          · rw [Outcome.reading_map]
          · rfl
  · next hs =>
    simp only [hs]
    rfl

/-- What reading the values of a list gives. -/
theorem items_reading (c : Cursor) :
    c.items.reading =
      if c.pastNewlines.atMark .bracketClose then (.ok [], c.pastNewlines.advance)
      else match c.pastNewlines.value.reading with
        | (.error e, stop) => (.error e, stop)
        | (.ok v, next) =>
          if next.pastNewlines.atMark .comma then
            next.pastNewlines.advance.items.reading.map (v :: ·)
          else if next.pastNewlines.atMark .bracketClose then
            (.ok [v], next.pastNewlines.advance)
          else (.error ⟨next.pastNewlines.line, .commaExpected next.pastNewlines.found⟩,
            next.pastNewlines) := by
  rw [items]
  dsimp only
  split
  · rfl
  · cases hv : c.pastNewlines.value with
    | failed e stop => rfl
    | parsed v next shorter =>
        simp only [Outcome.reading_parsed]
        split
        · rw [Outcome.reading_map]
        · split <;> rfl

/-- What reading a statement gives. -/
theorem statement_reading (m : Mode) (c : Cursor) :
    (c.statement m).reading = match c.symbol?.bind Symbol.name? with
      | none => (.error ⟨c.line, .nameExpected c.found⟩, c.advance)
      | some name =>
        if c.advance.atSeparator m then
          c.advance.advance.value.reading.map fun v => m.ofAttribute ⟨name, v, c.line⟩
        else match m with
          | .dictionary => (.error ⟨c.line, .separatorExpected name⟩, c.advance)
          | .block =>
            if c.advance.pastStrings.atMark .braceOpen then
              (c.advance.pastStrings.advance.body .block true).reading.map fun children =>
                .block ⟨name, c.advance.strings.map Text.inner, children, c.line⟩
            else (.error ⟨c.advance.pastStrings.line,
              .kindExpected [Mark.braceOpen.char] c.advance.pastStrings.found⟩,
              c.advance.pastStrings.advance) := by
  rw [statement]
  split
  · next hs =>
    simp only [hs]
    rfl
  · next s hs =>
    simp only [hs, Option.bind_some]
    cases s.name? with
    | none => rfl
    | some name =>
        dsimp only
        split
        · rw [Outcome.reading_map]
        · cases m with
          | dictionary => rfl
          | block =>
              dsimp only
              split
              · rw [Outcome.reading_map]
              · rfl

/-- What reading goes on with behind a statement of a body. -/
def afterStatement (m : Mode) (nested : Bool) (c : Cursor) : Reading (List m.Item) :=
  if m = .dictionary ∧ c.atMark .comma then (c.advance.body m nested).reading
  else if c.atStatementEnd then (c.body m nested).reading
  else (.error ⟨c.line, .lineEndExpected ((c.symbol?.map Symbol.text).getD [])⟩, c)

/-- What reading a body gives. -/
theorem body_reading (m : Mode) (nested : Bool) (c : Cursor) :
    (c.body m nested).reading =
      if c.pastNewlines.symbol? = none then
        if nested then (.error ⟨c.pastNewlines.line, .unexpectedEnd⟩, c.pastNewlines)
        else (.ok [], c.pastNewlines)
      else if c.pastNewlines.atMark .braceClose then
        if nested then (.ok [], c.pastNewlines.advance)
        else (.error ⟨c.pastNewlines.line, .unexpectedClose⟩, c.pastNewlines)
      else match (c.pastNewlines.statement m).reading with
        | (.error e, stop) => (.error e, stop)
        | (.ok s, next) => (next.afterStatement m nested).map (s :: ·) := by
  rw [body]
  split
  · next hnone =>
    rw [if_pos hnone]
    split <;> rfl
  · next hclose =>
    have hsome : ¬c.pastNewlines.symbol? = none := by simp [hclose]
    rw [if_neg hsome, if_pos (atMark_iff.mpr hclose)]
    split <;> rfl
  · next s hs hsome =>
    have hclose : ¬c.pastNewlines.atMark .braceClose = true := by
      rw [atMark_iff, hsome]
      simpa using hs
    rw [if_neg (by simp [hsome]), if_neg hclose]
    cases c.pastNewlines.statement m with
    | failed e stop => rfl
    | parsed s next shorter =>
        simp only [Outcome.reading_parsed, afterStatement]
        split
        · rw [Outcome.reading_map]
        · split
          · rw [Outcome.reading_map]
          · rfl

/-- A body does not see a line end in front of it. -/
theorem body_reading_of_newline {m : Mode} {nested : Bool} {c : Cursor}
    (h : c.symbol? = some .newline) :
    (c.body m nested).reading = (c.advance.body m nested).reading := by
  rw [body_reading, body_reading, pastNewlines_of_newline h]

end Cursor

end Ocl

end DeployGate
