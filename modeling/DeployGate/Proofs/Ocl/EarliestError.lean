import DeployGate.Proofs.Ocl.FailedReading
import DeployGate.Proofs.Ocl.LineNumbers

/-!
# Errors at the earliest token

Statements and bodies fail at the first token that does not fit, as values and lists do, so
every reader does.  Since reading decides the grammar, no document starts with the tokens up
to the blamed one.  An entry of a dictionary without a separator is blamed on the line of its
name, and what follows a name stands on the same line.

Main results:

- Theorem `earliest`: every failed reading fails at the first token that does not fit.
- Theorem `document_error_earliest`: the error of a whole text.
-/

namespace DeployGate

namespace Ocl

/-! ## Statements -/

variable {c stop : Cursor} {e : Error} {m : Mode} {nested : Bool}

/-- A statement fails at a symbol that names nothing. -/
theorem failsBehind_statement_nil (hname : c.symbol?.bind Symbol.name? = none) :
    FailsBehind (.statement m) (fun d => (d.statement m).reading) c
      ⟨c.line, .nameExpected c.found⟩ c.advance [] := by
  refine ⟨List.nil_prefix, .inl rfl, .inr (Cursor.advance_eq_skip c),
    completable_statement_nil m, ?_⟩
  intro t hc d hd
  have hnext : d.symbol? = c.symbol? := Cursor.symbol?_eq_of_isPrefix _ hc hd
  rw [← hnext] at hname
  rw [Cursor.statement_reading, hname]
  exact ⟨_, _, rfl⟩

/-- A name and a separator are read in front of a value. -/
theorem statement_reading_of_separator {d : Cursor} {s : Symbol} {name : Text} {q : Mark}
    (hs : d.symbol? = some s) (hname : Named s name) (hq : d.advance.symbol? = some (.mark q))
    (hmode : m.isSeparator q = true) :
    (d.statement m).reading =
      d.advance.advance.value.reading.map fun v => m.ofAttribute ⟨name, v, d.line⟩ := by
  rw [Cursor.statement_reading, hs, Option.bind_some, named_iff.mp hname]
  simp only
  rw [if_pos (Cursor.atSeparator_iff.mpr ⟨q, hq, hmode⟩)]

/-- A statement fails behind a separator where the value does. -/
theorem failsBehind_statement_of_value {s : Symbol} {name : Text} {q : Mark} {us : List Token}
    (hs : c.symbol? = some s) (hname : Named s name) (hq : c.advance.symbol? = some (.mark q))
    (hmode : m.isSeparator q = true)
    (h : FailsBehind .value (fun d => d.value.reading) c.advance.advance e stop us) :
    FailsBehind (.statement m) (fun d => (d.statement m).reading) c e stop
      ([⟨s, c.line⟩, ⟨.mark q, c.advance.line⟩] ++ us) := by
  have hfirst := isPrefix_ahead_of_symbol? hs
  have hsecond := isPrefix_ahead_of_symbol? hq
  generalize c.advance.line = l at hsecond ⊢
  rw [Cursor.advance_eq_skip] at hsecond
  rw [Cursor.advance_eq_skip, Cursor.advance_eq_skip, Cursor.skip_skip] at h
  apply FailsBehind.behind [⟨s, c.line⟩, ⟨.mark q, l⟩] h
  · exact Cursor.append_isPrefix_ahead [⟨s, c.line⟩] hfirst hsecond
  · intro _ hcomplete
    rcases hcomplete with ⟨ws, v, hv⟩
    cases m with
    | block =>
        have hequals := isSeparator_block_iff.mp hmode
        subst hequals
        exact ⟨ws, _, .assignment hname hv⟩
    | dictionary => exact ⟨ws, _, .entry hname (isSeparator_dictionary_iff.mp hmode) hv⟩
  · intro t _ d hd hrefuses
    have hds : d.symbol? = some s := Cursor.symbol?_of_isPrefix hd
    have hdq : d.advance.symbol? = some (.mark q) := by
      rw [Cursor.advance_eq_skip]
      exact Cursor.symbol?_of_isPrefix (Cursor.isPrefix_ahead_skip [⟨s, c.line⟩] hd)
    rw [statement_reading_of_separator hds hname hdq hmode, Cursor.advance_eq_skip,
      Cursor.advance_eq_skip, Cursor.skip_skip]
    exact hrefuses.map _

/-- An entry of a dictionary fails behind a name without a separator, and the line of the
name is blamed. -/
theorem failsBehind_entry_of_name {s : Symbol} {name : Text} (hs : c.symbol? = some s)
    (hname : Named s name) (hsep : ¬c.advance.atSeparator .dictionary = true) :
    FailsBehind (.statement .dictionary) (fun d => (d.statement .dictionary).reading) c
      ⟨c.line, .separatorExpected name⟩ c.advance [⟨s, c.line⟩] := by
  refine ⟨isPrefix_ahead_of_symbol? hs, .inr ⟨[], ⟨s, c.line⟩, name, rfl, hname, rfl⟩,
    .inl (Cursor.advance_eq_skip c), completable_statement_name _ hname, ?_⟩
  intro t hc d hd
  have hds : d.symbol? = some s := Cursor.symbol?_of_isPrefix hd
  have hsame : (d.skip 1).symbol? = (c.skip 1).symbol? :=
    Cursor.symbol?_skip_eq_of_isPrefix [⟨s, c.line⟩] [] hc hd
  rw [← Cursor.advance_eq_skip, ← Cursor.advance_eq_skip] at hsame
  rw [← Cursor.atSeparator_congr hsame] at hsep
  rw [Cursor.statement_reading, hds, Option.bind_some, named_iff.mp hname]
  simp only
  rw [if_neg hsep]
  exact ⟨_, _, rfl⟩

/-- Cursors in front of the same name and the same labels read them the same way. -/
theorem labels_of_isPrefix {d : Cursor} {u t : Token} {ls : List (Text × Int)}
    (vs : List Token)
    (hpast : c.advance.pastStrings = c.skip (u :: ls.map Cursor.stringToken).length)
    (hc : u :: ls.map Cursor.stringToken ++ (vs ++ [t]) <+: c.ahead)
    (hd : u :: ls.map Cursor.stringToken ++ (vs ++ [t]) <+: d.ahead) :
    d.advance.symbol? = c.advance.symbol? ∧
      d.advance.pastStrings = d.skip (u :: ls.map Cursor.stringToken).length ∧
      d.advance.pastStrings.symbol? = c.advance.pastStrings.symbol? := by
  have hnext : (d.skip 1).symbol? = (c.skip 1).symbol? :=
    Cursor.symbol?_skip_eq_of_isPrefix [u] (ls.map Cursor.stringToken ++ vs) (by simpa using hc)
      (by simpa using hd)
  have hsame := Cursor.symbol?_skip_eq_of_isPrefix (u :: ls.map Cursor.stringToken) vs hc hd
  rcases (List.prefix_append _ (vs ++ [t])).trans hd with ⟨rest, hrest⟩
  have hbehind := Cursor.ahead_skip_of_ahead hrest.symm
  have hadvance : d.advance.ahead = ls.map Cursor.stringToken ++ rest := by simp [← hrest]
  have hstrings := Cursor.strings_of_ahead hadvance (by
    intro v x hv hx
    apply c.advance.symbol?_pastStrings_ne x
    rw [hpast, ← hsame, Cursor.symbol?, hbehind, hv, ← hx]
    rfl)
  have hdpast : d.advance.pastStrings = d.skip (u :: ls.map Cursor.stringToken).length := by
    rw [Cursor.pastStrings_eq_skip, hstrings, Cursor.skip_length_cons, List.length_map,
      List.length_map]
  refine ⟨?_, hdpast, ?_⟩
  · rw [Cursor.advance_eq_skip, Cursor.advance_eq_skip, hnext]
  · rw [hdpast, hpast, hsame]

/-- What reading a statement of a block goes on with behind its name and labels. -/
theorem statement_reading_of_labels {d : Cursor} {s : Symbol} {name : Text}
    (hs : d.symbol? = some s) (hname : Named s name)
    (hsep : ¬d.advance.atSeparator .block = true) :
    (d.statement .block).reading =
      if d.advance.pastStrings.atMark .braceOpen then
        (d.advance.pastStrings.advance.body .block true).reading.map fun children =>
          .block ⟨name, d.advance.strings.map Text.inner, children, d.line⟩
      else (.error ⟨d.advance.pastStrings.line,
        .kindExpected [Mark.braceOpen.char] d.advance.pastStrings.found⟩,
        d.advance.pastStrings.advance) := by
  rw [Cursor.statement_reading, hs, Option.bind_some, named_iff.mp hname]
  simp only
  rw [if_neg hsep]

/-- A name and labels are what is passed up to something else. -/
theorem exists_labels {s : Symbol} (hs : c.symbol? = some s) :
    ∃ ls : List (Text × Int), ⟨s, c.line⟩ :: ls.map Cursor.stringToken <+: c.ahead ∧
      c.advance.pastStrings = c.skip (⟨s, c.line⟩ :: ls.map Cursor.stringToken).length := by
  rcases c.advance.begins_pastStrings with ⟨ls, ⟨_, hfront, rfl, hpast⟩, -⟩
  refine ⟨ls, ?_, ?_⟩
  · rw [Cursor.advance_eq_skip] at hfront
    exact Cursor.append_isPrefix_ahead [⟨s, c.line⟩] (isPrefix_ahead_of_symbol? hs) hfront
  · rw [hpast, Cursor.skip_length_cons]

/-- A block fails behind its opening brace where its body does. -/
theorem failsBehind_block_of_body {s : Symbol} {name : Text} {ls : List (Text × Int)}
    {l : Int} {us : List Token} (hname : Named s name)
    (hsep : ¬c.advance.atSeparator .block = true)
    (hpast : c.advance.pastStrings = c.skip (⟨s, c.line⟩ :: ls.map Cursor.stringToken).length)
    (hfront : ⟨s, c.line⟩ :: ls.map Cursor.stringToken ++ [⟨.mark .braceOpen, l⟩] <+: c.ahead)
    (h : FailsBehind (.body .block) (fun d => (d.body .block true).reading)
      c.advance.pastStrings.advance e stop us) :
    FailsBehind (.statement .block) (fun d => (d.statement .block).reading) c e stop
      (⟨s, c.line⟩ :: ls.map Cursor.stringToken ++ [⟨.mark .braceOpen, l⟩] ++ us) := by
  rw [hpast, Cursor.advance_skip_length c _ ⟨.mark .braceOpen, l⟩] at h
  apply FailsBehind.behind _ h hfront
  · intro _ hcomplete
    exact completable_block ls c.line l hname hcomplete
  · intro t hc d hd hrefuses
    have hcsplit : ⟨s, c.line⟩ :: ls.map Cursor.stringToken ++
        (⟨.mark .braceOpen, l⟩ :: us ++ [t]) <+: c.ahead := by simpa using hc
    have hdsplit : ⟨s, c.line⟩ :: ls.map Cursor.stringToken ++
        (⟨.mark .braceOpen, l⟩ :: us ++ [t]) <+: d.ahead := by simpa using hd
    rcases labels_of_isPrefix _ hpast hcsplit hdsplit with ⟨hnext, hdpast, -⟩
    have hds : d.symbol? = some s := Cursor.symbol?_of_isPrefix hdsplit
    rw [← Cursor.atSeparator_congr hnext] at hsep
    have hopen : d.advance.pastStrings.atMark .braceOpen = true := by
      rw [Cursor.atMark_iff, hdpast]
      exact Cursor.symbol?_of_isPrefix (Cursor.isPrefix_ahead_skip _ hdsplit)
    rw [statement_reading_of_labels hds hname hsep, if_pos hopen, hdpast,
      Cursor.advance_skip_length d _ ⟨.mark .braceOpen, l⟩]
    exact hrefuses.map _

/-- A block fails behind its name and labels where no opening brace is next. -/
theorem failsBehind_block_of_labels {s : Symbol} {name : Text} {ls : List (Text × Int)}
    (hname : Named s name) (hsep : ¬c.advance.atSeparator .block = true)
    (hpast : c.advance.pastStrings = c.skip (⟨s, c.line⟩ :: ls.map Cursor.stringToken).length)
    (hfront : ⟨s, c.line⟩ :: ls.map Cursor.stringToken <+: c.ahead)
    (hopen : ¬c.advance.pastStrings.atMark .braceOpen = true) :
    FailsBehind (.statement .block) (fun d => (d.statement .block).reading) c
      ⟨c.advance.pastStrings.line,
        .kindExpected [Mark.braceOpen.char] c.advance.pastStrings.found⟩
      c.advance.pastStrings.advance (⟨s, c.line⟩ :: ls.map Cursor.stringToken) := by
  have hnone : Completable (.body .block) [] := completable_body_of_lineEnds (by simp [LineEnds])
  have hcomplete := completable_block ls c.line 0 hname hnone
  rw [List.append_nil] at hcomplete
  refine ⟨hfront, .inl (by rw [hpast]), .inr ?_, hcomplete.of_append, ?_⟩
  · rw [hpast, Cursor.advance_eq_skip, Cursor.skip_skip]
  · intro t hc d hd
    rcases labels_of_isPrefix [] hpast hc hd with ⟨hnext, hdpast, hsame⟩
    have hds : d.symbol? = some s := Cursor.symbol?_of_isPrefix hd
    rw [← Cursor.atSeparator_congr hnext] at hsep
    rw [← Cursor.atMark_congr hsame] at hopen
    rw [statement_reading_of_labels hds hname hsep, if_neg hopen]
    exact ⟨_, _, rfl⟩

/-- A statement fails at its first token, behind its name, or behind its name and labels,
or in its value or body. -/
theorem failsBehind_of_statement_reading
    (ih : ∀ d : Cursor, d.ahead.length < c.ahead.length → Earliest d)
    (he : (c.statement m).reading = (.error e, stop)) :
    ∃ us, FailsBehind (.statement m) (fun d => (d.statement m).reading) c e stop us := by
  have hread := he
  rw [Cursor.statement_reading] at hread
  cases hsome : c.symbol?.bind Symbol.name? with
  | none =>
      simp only [hsome] at hread
      cases hread
      exact ⟨_, failsBehind_statement_nil hsome⟩
  | some name =>
      rcases Option.bind_eq_some_iff.mp hsome with ⟨s, hs, hsname⟩
      have hname := named_iff.mpr hsname
      have hpos := Cursor.length_ahead_pos hs
      simp only [hsome] at hread
      split at hread
      · next hsep =>
        rw [Reading.map_eq_error_iff] at hread
        rcases Cursor.atSeparator_iff.mp hsep with ⟨q, hq, hmode⟩
        have hvalue := ih c.advance.advance (by simp; omega)
        rcases hvalue.value e stop hread with ⟨us, hus⟩
        exact ⟨_, failsBehind_statement_of_value hs hname hq hmode hus⟩
      · next hsep =>
        cases m with
        | dictionary =>
            cases hread
            exact ⟨_, failsBehind_entry_of_name hs hname hsep⟩
        | block =>
            rcases exists_labels hs with ⟨ls, hfront, hpast⟩
            rw [statement_reading_of_labels hs hname hsep] at he
            split at he
            · next hopen =>
              rw [Reading.map_eq_error_iff] at he
              have hle := Cursor.length_ahead_pastStrings_le c.advance
              have hbody := ih c.advance.pastStrings.advance (by simp at hle ⊢; omega)
              rcases hbody.body .block true e stop he with ⟨us, hus⟩
              rw [hpast] at hopen
              have hbrace := isPrefix_ahead_of_symbol? (Cursor.atMark_iff.mp hopen)
              have hlabels := Cursor.append_isPrefix_ahead _ hfront hbrace
              exact ⟨_, failsBehind_block_of_body hname hsep hpast hlabels hus⟩
            · next hopen =>
              cases he
              exact ⟨_, failsBehind_block_of_labels hname hsep hpast hfront hopen⟩

/-! ## Bodies -/

/-- A nested body fails at the end of the tokens. -/
theorem failsBehind_body_of_end {ns : List Token} (hns : LineEnds ns) (hfront : ns <+: c.ahead)
    (hpast : c.pastNewlines = c.skip ns.length) (hend : c.pastNewlines.symbol? = none) :
    FailsBehind (.body m) (fun d => (d.body m true).reading) c
      ⟨c.pastNewlines.line, .unexpectedEnd⟩ c.pastNewlines ns := by
  refine ⟨hfront, .inl (by rw [hpast]), .inl hpast, completable_body_of_lineEnds hns, ?_⟩
  intro t hc
  have hnext := Cursor.symbol?_of_isPrefix (Cursor.isPrefix_ahead_skip _ hc)
  rw [← hpast, hend] at hnext
  contradiction

/-- A body that is not nested fails at a closing brace. -/
theorem failsBehind_body_of_close {ns : List Token} (hns : LineEnds ns) (hfront : ns <+: c.ahead)
    (hpast : c.pastNewlines = c.skip ns.length)
    (hclose : c.pastNewlines.atMark .braceClose = true) :
    FailsBehind (.body m) (fun d => (d.body m false).reading) c
      ⟨c.pastNewlines.line, .unexpectedClose⟩ c.pastNewlines ns := by
  refine ⟨hfront, .inl (by rw [hpast]), .inl hpast, completable_body_of_lineEnds hns, ?_⟩
  intro t hc d hd
  rcases pastNewlines_of_isPrefix [] hns hpast hc hd with ⟨-, hsame⟩
  have hsymbol := Cursor.atMark_iff.mp hclose
  rw [← hsame] at hsymbol
  rw [Cursor.body_reading, if_neg (by simp [hsymbol]), if_pos (Cursor.atMark_iff.mpr hsymbol)]
  exact ⟨_, _, rfl⟩

/-- A body fails where its first statement does. -/
theorem failsBehind_body_of_statement {ns us : List Token} (hns : LineEnds ns)
    (hfront : ns <+: c.ahead) (hpast : c.pastNewlines = c.skip ns.length)
    (hsome : ¬c.pastNewlines.symbol? = none)
    (hopen : ¬c.pastNewlines.atMark .braceClose = true)
    (h : FailsBehind (.statement m) (fun d => (d.statement m).reading) c.pastNewlines e stop us) :
    FailsBehind (.body m) (fun d => (d.body m nested).reading) c e stop (ns ++ us) := by
  rw [hpast] at h
  apply FailsBehind.behind _ h hfront
  · intro _ hcomplete
    rcases hcomplete with ⟨ws, s, hs⟩
    exact ⟨ws, [s], by simpa using Derives.statements hns hs .noRest⟩
  · intro t hc d hd hrefuses
    rcases pastNewlines_of_isPrefix _ hns hpast hc hd with ⟨hdpast, hsame⟩
    rcases hrefuses with ⟨f, last, hf⟩
    refine ⟨f, last, ?_⟩
    rw [← hsame] at hsome
    rw [← Cursor.atMark_congr hsame] at hopen
    rw [Cursor.body_reading, if_neg hsome, if_neg hopen, hdpast, hf]

/-- A body that starts with a statement is read as what follows the statement says. -/
theorem body_reading_of_statement {d : Cursor} {ns us : List Token} {s : m.Item}
    (hns : LineEnds ns) (hus : Derives (.statement m) us s) (hfront : ns ++ us <+: d.ahead) :
    (d.body m nested).reading =
      ((d.skip (ns ++ us).length).afterStatement m nested).map (s :: ·) := by
  rcases hfront with ⟨rest, hrest⟩
  have hread := hus.reads
  rcases hus.statement_head with ⟨t, ts, name, rfl, hnamed⟩
  have hfirst : ∀ u, (t :: ts ++ rest).head? = some u → u.symbol ≠ .newline := by
    simpa using hnamed.ne.1
  have hsplit : d.ahead = ns ++ (t :: ts ++ rest) := by rw [← hrest, List.append_assoc]
  rcases pastNewlines_of_ahead _ hns hfirst hsplit with ⟨hpast, hahead⟩
  have hnext := Cursor.symbol?_of_ahead hahead
  have hsome : ¬d.pastNewlines.symbol? = none := by simp [hnext]
  have hopen : ¬d.pastNewlines.atMark .braceClose = true := by
    rw [Cursor.atMark_iff, hnext]
    simpa using hnamed.ne.2
  rw [Cursor.body_reading, if_neg hsome, if_neg hopen, hread _ _ hahead]
  simp only
  rw [hpast, ← Cursor.skip_length_append]

/-- A body fails behind its first statement where what follows it does. -/
theorem failsBehind_body_of_rest {ns us vs : List Token} {s : m.Item} (hns : LineEnds ns)
    (hus : Derives (.statement m) us s) (hfront : ns ++ us <+: c.ahead)
    (h : FailsBehind (.rest m) (fun d => d.afterStatement m nested) (c.skip (ns ++ us).length)
      e stop vs) :
    FailsBehind (.body m) (fun d => (d.body m nested).reading) c e stop (ns ++ us ++ vs) := by
  apply FailsBehind.behind _ h hfront
  · intro _ hcomplete
    rcases hcomplete with ⟨ws, ss, hss⟩
    exact ⟨ws, s :: ss, by simpa using Derives.statements hns hus hss⟩
  · intro t _ d hd hrefuses
    rw [body_reading_of_statement hns hus ((List.prefix_append _ _).trans hd)]
    exact hrefuses.map (s :: ·)

/-- Where a statement may be over, what can be completed to a body can be completed to what
may follow the statement. -/
theorem completable_rest_of_body {us : List Token} (hend : c.atStatementEnd = true)
    (hus : us <+: c.ahead) (h : Completable (.body m) us) : Completable (.rest m) us := by
  cases us with
  | nil => exact ⟨[], [], .noRest⟩
  | cons u us =>
      rcases h with ⟨ws, ss, hss⟩
      have hnext := Cursor.symbol?_of_isPrefix hus
      rcases hss.body_cases with ⟨hnil, -⟩ | ⟨l, vs, hvs, hbody⟩ | ⟨t, vs, name, hvs, hname⟩
      · simp at hnil
      · refine ⟨ws, ss, ?_⟩
        rw [hvs]
        exact .lineEnd hbody
      · rcases List.cons.inj hvs with ⟨rfl, -⟩
        rw [Cursor.atStatementEnd_eq_false hnext hname] at hend
        contradiction

/-- What reading goes on with behind a statement depends on what is next. -/
theorem afterStatement_of_comma {d : Cursor} (hnext : d.symbol? = some (.mark .comma)) :
    d.afterStatement .dictionary nested = (d.advance.body .dictionary nested).reading :=
  if_pos ⟨rfl, Cursor.atMark_iff.mpr hnext⟩

/-- What follows a statement fails behind a comma or a line end, or at what does not fit. -/
theorem failsBehind_of_afterStatement (hbehind : 0 < c.ahead.length → Earliest c.advance)
    (hhere : Earliest c) (he : c.afterStatement m nested = (.error e, stop)) :
    ∃ us, FailsBehind (.rest m) (fun d => d.afterStatement m nested) c e stop us := by
  rw [Cursor.afterStatement] at he
  split at he
  · next hcomma =>
    rcases hcomma with ⟨rfl, hmark⟩
    have hsymbol := Cursor.atMark_iff.mp hmark
    rcases (hbehind (Cursor.length_ahead_pos hsymbol)).body .dictionary nested e stop he with
      ⟨us, hus⟩
    rw [Cursor.advance_eq_skip] at hus
    refine ⟨_, FailsBehind.behind [⟨.mark .comma, c.line⟩] hus
      (isPrefix_ahead_of_symbol? hsymbol) ?_ ?_⟩
    · intro _ hcomplete
      rcases hcomplete with ⟨ws, es, hes⟩
      exact ⟨ws, es, .comma hes⟩
    · intro t _ d hd hrefuses
      rw [afterStatement_of_comma (Cursor.symbol?_of_isPrefix hd), Cursor.advance_eq_skip]
      exact hrefuses
  · next hcomma =>
    split at he
    · next hend =>
      rcases hhere.body m nested e stop he with ⟨us, hus⟩
      refine ⟨us, hus.isPrefix, hus.blames, hus.stops,
        completable_rest_of_body hend hus.isPrefix hus.completable, ?_⟩
      intro t hc d hd
      have hsame : d.symbol? = c.symbol? := Cursor.symbol?_eq_of_isPrefix _ hc hd
      rw [← Cursor.atMark_congr hsame] at hcomma
      rw [← Cursor.atStatementEnd_congr hsame] at hend
      rw [Cursor.afterStatement, if_neg hcomma, if_pos hend]
      exact hus.refuses t hc d hd
    · next hend =>
      cases he
      refine ⟨[], List.nil_prefix, .inl rfl, .inl rfl, ⟨[], [], .noRest⟩, ?_⟩
      intro t hc d hd
      have hsame : d.symbol? = c.symbol? := Cursor.symbol?_eq_of_isPrefix _ hc hd
      rw [← Cursor.atMark_congr hsame] at hcomma
      rw [← Cursor.atStatementEnd_congr hsame] at hend
      rw [Cursor.afterStatement, if_neg hcomma, if_neg hend]
      exact ⟨_, _, rfl⟩

/-- A body fails where it may not end, in a statement, or behind one. -/
theorem failsBehind_of_body_reading
    (ih : ∀ d : Cursor, d.ahead.length < c.ahead.length → Earliest d)
    (he : (c.body m nested).reading = (.error e, stop)) :
    ∃ us, FailsBehind (.body m) (fun d => (d.body m nested).reading) c e stop us := by
  have hle := Cursor.length_ahead_pastNewlines_le c
  have hbelow : ∀ d : Cursor, d.ahead.length < c.pastNewlines.ahead.length → Earliest d := by
    intro d hd
    exact ih d (by omega)
  rcases c.begins_pastNewlines with ⟨ns, hfront, hns, hpast⟩
  rw [Cursor.body_reading] at he
  split at he
  · next hend =>
    cases nested with
    | false => simp at he
    | true =>
        cases he
        exact ⟨_, failsBehind_body_of_end hns hfront hpast hend⟩
  · next hsome =>
    split at he
    · next hclose =>
      cases nested with
      | true => simp at he
      | false =>
          cases he
          exact ⟨_, failsBehind_body_of_close hns hfront hpast hclose⟩
    · next hopen =>
      split at he
      · next f last hread =>
        cases he
        rcases failsBehind_of_statement_reading hbelow hread with ⟨us, hus⟩
        exact ⟨_, failsBehind_body_of_statement hns hfront hpast hsome hopen hus⟩
      · next s next hread =>
        rw [Reading.map_eq_error_iff] at he
        have hshort := Outcome.length_lt_of_reading hread
        rcases statement_reading_iff.mp hread with ⟨us, hus, hderives, hnext⟩
        rw [hpast] at hus
        have hall := Cursor.append_isPrefix_ahead _ hfront hus
        have hbehind : 0 < next.ahead.length → Earliest next.advance := by
          intro _
          exact ih _ (by simp; omega)
        rcases failsBehind_of_afterStatement hbehind (ih next (by omega)) he with ⟨vs, hvs⟩
        rw [hnext, hpast, ← Cursor.skip_length_append] at hvs
        exact ⟨_, failsBehind_body_of_rest hns hderives hall hvs⟩

/-- Every failed reading fails at the first token that does not fit, from every cursor. -/
theorem earliest (c : Cursor) : Earliest c := by
  -- Every reader calls others only where fewer tokens are ahead, or moves on first.
  have hbelow : ∀ d : Cursor, d.ahead.length < c.ahead.length → Earliest d := fun d _ => earliest d
  exact {
    value := fun e stop he => failsBehind_of_value_reading hbelow he
    items := fun e stop he => failsBehind_of_items_reading hbelow he
    statement := fun m e stop he => failsBehind_of_statement_reading hbelow he
    body := fun m nested e stop he => failsBehind_of_body_reading hbelow he }
termination_by c.ahead.length

/-! ## Lines behind names -/

/-- A lexeme without a symbol, and one that names something, leaves the line as it is. -/
theorem linesPassed_eq_zero {l : Lexeme}
    (h : l.symbol? = none ∨ ∃ s name, l.symbol? = some s ∧ Named s name) : l.linesPassed = 0 := by
  cases l with
  | lineEnd t =>
      rcases h with h | ⟨s, name, h, hname⟩
      · contradiction
      · rcases Option.some.inj h with rfl
        cases hname
  | heredoc =>
      rcases h with h | ⟨s, name, h, hname⟩
      · contradiction
      · rcases Option.some.inj h with rfl
        cases hname
  | _ => rfl

/-- The tokens of lexemes start on the line of the first lexeme. -/
theorem line_start_tokensFrom (line : Int) (ls : List Lexeme) :
    (tokensFrom line ls).start.line = line := by
  induction ls generalizing line with
  | nil => rfl
  | cons l ls ih =>
      rw [tokensFrom]
      cases hs : l.symbol? with
      | some s => rfl
      | none =>
          -- Space and comments stand in front of the first token, on the same line.
          have hzero := linesPassed_eq_zero (.inl hs)
          simp only [hzero]
          simpa using ih line

/-- What follows a name stands on the line of the name. -/
theorem line_behind_name {line : Int} {ls : List Lexeme} {ws rest : List Token} {u : Token}
    {name : Text} (h : (tokensFrom line ls).tokens = ws ++ u :: rest)
    (hname : Named u.symbol name) :
    ((tokensFrom line ls).start.skip (ws ++ [u]).length).line = u.line := by
  induction ls generalizing line ws with
  | nil => simp [tokensFrom] at h
  | cons l ls ih =>
      rw [tokensFrom] at h ⊢
      cases hs : l.symbol? with
      | none =>
          simp only [hs] at h
          exact ih h
      | some s =>
          simp only [hs] at h
          cases ws with
          | nil =>
              rcases List.cons.inj h with ⟨rfl, -⟩
              have hzero := linesPassed_eq_zero (.inr ⟨s, name, hs, hname⟩)
              have hstart := line_start_tokensFrom (line + l.linesPassed) ls
              rw [hzero, Nat.cast_zero, add_zero] at hstart
              simp only [hzero, Nat.cast_zero, add_zero]
              exact hstart
          | cons w ws =>
              rcases List.cons.inj h with ⟨-, hrest⟩
              exact ih hrest

/-- The lines of the tokens and of the end are those of the cursors in front of them. -/
theorem getElem?_lines {ts : TokenList} {i : Nat} (hi : i ≤ ts.tokens.length) :
    (ts.tokens.map Token.line ++ [ts.endLine])[i]? = some (ts.start.skip i).line := by
  rcases Nat.lt_or_eq_of_le hi with hlt | rfl
  · have hahead : (ts.start.skip i).ahead.head? = some ts.tokens[i] := by
      simp [TokenList.start, List.head?_drop, hlt]
    rw [List.getElem?_append_left (by simpa using hlt), Cursor.line, hahead]
    simp [hlt]
  · simp [Cursor.line, TokenList.start]

/-! ## Whole texts -/

/-- The error of a text that has tokens is on the line of the first token that does not fit:
the tokens in front of it start some document, and no document starts with them and that
token.  If it is the end of the text, the tokens are no document themselves.  The reader has
stopped there or passed one token more. -/
theorem document_error_earliest {t : Text} {ts : TokenList} {e : Error}
    (hts : tokens t = .ok ts) (he : ts.document.result = .error e) :
    ∃ i, (ts.tokens.map Token.line ++ [ts.endLine])[i]? = some e.line ∧
      Completable (.body .block) (ts.tokens.take i) ∧
      ((i = ts.tokens.length ∧ ∀ d, ¬Derives (.body .block) ts.tokens d) ∨
        (i < ts.tokens.length ∧ ¬Completable (.body .block) (ts.tokens.take (i + 1)))) ∧
      (ts.document.cursor.position = i ∨ ts.document.cursor.position = i + 1) := by
  have hread : (ts.start.body .block false).reading = (.error e, ts.document.cursor) := by
    rw [← he]
    rfl
  rcases (earliest ts.start).body .block false e _ hread with ⟨us, hus⟩
  have htake : ts.tokens.take us.length = us := (List.prefix_iff_eq_take.mp hus.isPrefix).symm
  have hle : us.length ≤ ts.tokens.length := hus.isPrefix.length_le
  refine ⟨us.length, ?_, ?_, ?_, ?_⟩
  · rw [getElem?_lines hle]
    rcases hus.blames with hline | ⟨ws, u, name, rfl, hname, hline⟩
    · rw [hline]
    · rcases tokens_eq_ok_iff.mp hts with ⟨-, rfl⟩
      rcases hus.isPrefix with ⟨rest, hrest⟩
      rw [List.append_assoc] at hrest
      rw [line_behind_name hrest.symm hname, hline]
  · rw [htake]
    exact hus.completable
  · rcases Nat.lt_or_eq_of_le hle with hlt | heq
    · right
      refine ⟨hlt, ?_⟩
      intro hcomplete
      rcases hcomplete with ⟨ws, d, hd⟩
      have hfirst : ts.tokens.take (us.length + 1) = us ++ [ts.tokens[us.length]] := by
        rw [List.take_succ_eq_append_getElem hlt, htake]
      rw [hfirst] at hd
      have hfront : us ++ [ts.tokens[us.length]] <+: ts.start.ahead := by
        rw [← hfirst]
        exact List.take_prefix _ _
      rcases hus.refuses _ hfront ⟨_, 0, 0⟩ (List.prefix_append _ ws) with ⟨f, last, hf⟩
      -- A cursor in front of such a document reads it, but all readers fail on what it starts with.
      have hparsed := (whole_body_reading_iff (c := ⟨_, 0, 0⟩) (m := .block)).mpr ⟨hd, rfl⟩
      rw [hf] at hparsed
      cases hparsed
    · left
      refine ⟨heq, ?_⟩
      intro d hd
      rw [document_result_iff.mpr hd] at he
      contradiction
  · rcases hus.stops with hstop | hstop
    · left
      rw [hstop]
      simp [TokenList.start]
    · right
      rw [hstop]
      simp [TokenList.start]

/-- A dictionary with a name that no separator follows. -/
def loneName : Text :=
  "a = \x7b\n k\n\x7d".toList

/-- The tokens of that dictionary. -/
def loneNameTokens : TokenList :=
  ⟨[⟨.name ['a'], 1⟩, ⟨.mark .equals, 1⟩, ⟨.mark .braceOpen, 1⟩, ⟨.newline, 1⟩,
    ⟨.name ['k'], 2⟩, ⟨.newline, 2⟩, ⟨.mark .braceClose, 3⟩], 3⟩

/-- A name without a separator is blamed where the separator is missing, on the line of the
name. -/
theorem document_error_earliest_loneName :
    tokens loneName = .ok loneNameTokens ∧
      loneNameTokens.document.result = .error ⟨2, .separatorExpected ['k']⟩ ∧
      ∃ i, (loneNameTokens.tokens.map Token.line ++ [loneNameTokens.endLine])[i]? = some 2 ∧
        Completable (.body .block) (loneNameTokens.tokens.take i) ∧
        ((i = loneNameTokens.tokens.length ∧
            ∀ d, ¬Derives (.body .block) loneNameTokens.tokens d) ∨
          (i < loneNameTokens.tokens.length ∧
            ¬Completable (.body .block) (loneNameTokens.tokens.take (i + 1)))) ∧
        (loneNameTokens.document.cursor.position = i ∨
          loneNameTokens.document.cursor.position = i + 1) := by
  have htokens : tokens loneName = .ok loneNameTokens := by cbv
  have hresult : loneNameTokens.document.result = .error ⟨2, .separatorExpected ['k']⟩ := by cbv
  exact ⟨htokens, hresult, document_error_earliest htokens hresult⟩

end Ocl

end DeployGate
