import DeployGate.Proofs.Ocl.Acceptance

/-!
# Failed readings

A reader that fails blames the first token with which the tokens read so far can no longer
be completed.  What stands in front of that token can be completed from every place where a
reader stops, and the reader has looked no further: it fails on all tokens that start the
same way.

Main results:

- Definition `FailsBehind`: a reading that fails at the first token that does not fit.
- Theorem `FailsBehind.behind`: a reading that fails where a reading behind it does.
- Theorem `failsBehind_of_value_reading`: how a value fails.
- Theorem `failsBehind_of_items_reading`: how the inside of a list fails.
-/

namespace DeployGate

namespace Ocl

/-! ## Tokens that start the same way -/

namespace Cursor

variable {c d : Cursor} {us vs : List Token}

/-- What lies behind the tokens that are passed is ahead then. -/
theorem isPrefix_ahead_skip (us : List Token) (h : us ++ vs <+: c.ahead) :
    vs <+: (c.skip us.length).ahead := by
  rcases h with ⟨rest, hrest⟩
  have hahead : c.ahead = us ++ (vs ++ rest) := by rw [← hrest, List.append_assoc]
  rw [ahead_skip_of_ahead hahead]
  exact List.prefix_append vs rest

/-- Tokens ahead behind others that are passed are ahead behind them. -/
theorem append_isPrefix_ahead (us : List Token) (hus : us <+: c.ahead)
    (hvs : vs <+: (c.skip us.length).ahead) : us ++ vs <+: c.ahead := by
  rcases hus with ⟨rest, hrest⟩
  rw [ahead_skip_of_ahead hrest.symm] at hvs
  rw [← hrest]
  exact (List.prefix_append_right_inj us).mpr hvs

/-- Passing one token behind others passes them all. -/
theorem advance_skip_length (c : Cursor) (us : List Token) (t : Token) :
    (c.skip us.length).advance = c.skip (us ++ [t]).length := by
  rw [skip_length_append, advance_eq_skip]
  rfl

/-- The first of the tokens ahead is next. -/
theorem symbol?_of_isPrefix {t : Token} (h : t :: us <+: c.ahead) :
    c.symbol? = some t.symbol := by
  rcases h with ⟨rest, hrest⟩
  exact symbol?_of_ahead hrest.symm

/-- Cursors in front of the same tokens have the same symbol next. -/
theorem symbol?_eq_of_isPrefix {t : Token} (vs : List Token) (hc : vs ++ [t] <+: c.ahead)
    (hd : vs ++ [t] <+: d.ahead) : d.symbol? = c.symbol? := by
  cases vs with
  | nil => rw [symbol?_of_isPrefix hc, symbol?_of_isPrefix hd]
  | cons v vs => rw [symbol?_of_isPrefix hc, symbol?_of_isPrefix hd]

/-- Behind the same tokens, cursors in front of the same tokens have the same symbol next. -/
theorem symbol?_skip_eq_of_isPrefix {t : Token} (us vs : List Token)
    (hc : us ++ (vs ++ [t]) <+: c.ahead) (hd : us ++ (vs ++ [t]) <+: d.ahead) :
    (d.skip us.length).symbol? = (c.skip us.length).symbol? :=
  symbol?_eq_of_isPrefix vs (isPrefix_ahead_skip us hc) (isPrefix_ahead_skip us hd)

/-- Cursors with the same symbol next are at the same marks. -/
theorem atMark_congr (h : d.symbol? = c.symbol?) (k : Mark) : d.atMark k = c.atMark k := by
  rw [atMark, atMark, h]

/-- Cursors with the same symbol next are at the same separators. -/
theorem atSeparator_congr (h : d.symbol? = c.symbol?) (m : Mode) :
    d.atSeparator m = c.atSeparator m := by
  rw [atSeparator, atSeparator, h]

/-- Statements may be over in front of the same symbols. -/
theorem atStatementEnd_congr (h : d.symbol? = c.symbol?) :
    d.atStatementEnd = c.atStatementEnd := by
  rw [atStatementEnd, atStatementEnd, h]

/-- Behind line ends no line end is next. -/
theorem symbol?_pastNewlines_ne (c : Cursor) : c.pastNewlines.symbol? ≠ some .newline := by
  intro hnext
  rcases symbol?_eq_some_iff.mp hnext with ⟨ts, hts⟩
  have hdrop : c.pastNewlines.ahead = c.ahead.dropWhile fun t => t.symbol == .newline :=
    Span.drop_length_takeWhile _ _
  rw [hdrop] at hts
  have hno := Span.head?_dropWhile_eq_false (by rw [hts]; rfl)
  simp at hno

/-- The strings that some tokens start with reach up to something else. -/
theorem drop_length_strings_ne (us ts : List Token) (s : Text) (l : Int) :
    us.drop (strings.go us).length ≠ ⟨.string s, l⟩ :: ts := by
  fun_induction strings.go us with
  | case1 t k us ih => exact ih
  | case2 us hno => exact hno s l ts

/-- Behind strings no string is next. -/
theorem symbol?_pastStrings_ne (c : Cursor) (s : Text) :
    c.pastStrings.symbol? ≠ some (.string s) := by
  intro hnext
  rcases symbol?_eq_some_iff.mp hnext with ⟨ts, hts⟩
  exact drop_length_strings_ne c.ahead ts s _ hts

end Cursor

/-! ## Failed readings -/

variable {α β : Type}

/-- A reading is an error. -/
def Refuses (r : Reading α) : Prop :=
  ∃ e stop, r = (.error e, stop)

/-- Some tokens behind the given ones make them derive from a nonterminal. -/
def Completable (X : Nonterminal) (us : List Token) : Prop :=
  ∃ ws a, Derives X (us ++ ws) a

/-- A line is the one of what comes behind some tokens ahead, or of the last of them if
that one is a name. -/
def Blames (c : Cursor) (us : List Token) (line : Int) : Prop :=
  line = (c.skip us.length).line ∨
    ∃ ws t name, us = ws ++ [t] ∧ Named t.symbol name ∧ line = t.line

/-- A reading fails behind some of the tokens ahead.  They can be completed, the error
blames what comes behind them, and the reader stops there or one token later.  From
wherever the same tokens are ahead, with the blamed one behind them, the reader fails. -/
structure FailsBehind (X : Nonterminal) (read : Cursor → Reading α) (c : Cursor) (e : Error)
    (stop : Cursor) (us : List Token) : Prop where
  isPrefix : us <+: c.ahead
  blames : Blames c us e.line
  stops : stop = c.skip us.length ∨ stop = c.skip (us.length + 1)
  completable : Completable X us
  refuses : ∀ t, us ++ [t] <+: c.ahead → ∀ d : Cursor, us ++ [t] <+: d.ahead → Refuses (read d)

/-- A reading that fails where another one does, behind some tokens, fails behind these and
those of the other one. -/
theorem FailsBehind.behind {X Y : Nonterminal} {read : Cursor → Reading α}
    {inner : Cursor → Reading β} {c stop : Cursor} {e : Error} {vs : List Token}
    (us : List Token) (h : FailsBehind Y inner (c.skip us.length) e stop vs) (hus : us <+: c.ahead)
    (hcompletable : vs <+: (c.skip us.length).ahead → Completable Y vs → Completable X (us ++ vs))
    (hrefuses : ∀ t, us ++ (vs ++ [t]) <+: c.ahead → ∀ d : Cursor,
      us ++ (vs ++ [t]) <+: d.ahead → Refuses (inner (d.skip us.length)) → Refuses (read d)) :
    FailsBehind X read c e stop (us ++ vs) where
  isPrefix := Cursor.append_isPrefix_ahead _ hus h.isPrefix
  blames := by
    rcases h.blames with hline | ⟨ws, t, name, rfl, hname, hline⟩
    · left
      rw [Cursor.skip_length_append, hline]
    · right
      exact ⟨us ++ ws, t, name, (List.append_assoc ..).symm, hname, hline⟩
  stops := by
    rcases h.stops with hstop | hstop
    · left
      rw [Cursor.skip_length_append, hstop]
    · right
      rw [hstop, Cursor.skip_skip, List.length_append, Nat.add_assoc]
  completable := hcompletable h.isPrefix h.completable
  refuses := by
    intro t hc d hd
    rw [List.append_assoc] at hc hd
    apply hrefuses t hc d hd
    exact h.refuses t (Cursor.isPrefix_ahead_skip _ hc) _ (Cursor.isPrefix_ahead_skip _ hd)

/-- Changing the result of a reading makes no difference to whether it fails. -/
theorem Refuses.map {r : Reading α} (h : Refuses r) (f : α → β) : Refuses (r.map f) := by
  rcases h with ⟨e, stop, rfl⟩
  exact ⟨e, stop, rfl⟩

/-- A changed reading fails as the reading it was made from. -/
theorem Reading.map_eq_error_iff {f : α → β} {r : Reading α} {e : Error} {c : Cursor} :
    r.map f = (.error e, c) ↔ r = (.error e, c) := by
  rcases r with ⟨e' | a, d⟩ <;> simp [Reading.map, Except.map]

/-- Every failed reading from a cursor fails behind some of the tokens ahead. -/
structure Earliest (c : Cursor) : Prop where
  value : ∀ e stop, c.value.reading = (.error e, stop) →
    ∃ us, FailsBehind .value (fun d => d.value.reading) c e stop us
  items : ∀ e stop, c.items.reading = (.error e, stop) →
    ∃ us, FailsBehind .items (fun d => d.items.reading) c e stop us
  statement : ∀ m e stop, (c.statement m).reading = (.error e, stop) →
    ∃ us, FailsBehind (.statement m) (fun d => (d.statement m).reading) c e stop us
  body : ∀ m nested e stop, (c.body m nested).reading = (.error e, stop) →
    ∃ us, FailsBehind (.body m) (fun d => (d.body m nested).reading) c e stop us

/-! ## Completions -/

/-- A token that denotes a value. -/
theorem derives_someValue :
    Derives .value [⟨.name "true".toList, 0⟩] (.literal .boolean "true".toList) :=
  .scalar .true

/-- Nothing can be completed to a value. -/
theorem completable_value_nil : Completable .value [] :=
  ⟨_, _, derives_someValue⟩

/-- A name can be completed to a statement. -/
theorem completable_statement_name {m : Mode} {s : Symbol} {name : Text} (l : Int)
    (hs : Named s name) : Completable (.statement m) [⟨s, l⟩] := by
  cases m with
  | block => exact ⟨⟨.mark .equals, 0⟩ :: _, _, .assignment hs derives_someValue⟩
  | dictionary => exact ⟨⟨.mark .equals, 0⟩ :: _, _, .entry hs (.inl rfl) derives_someValue⟩

/-- A name, labels and an opening brace can be completed to a block where what follows can
be completed to a body. -/
theorem completable_block {s : Symbol} {name : Text} {us : List Token} (ls : List (Text × Int))
    (k l : Int) (hs : Named s name) (hus : Completable (.body .block) us) :
    Completable (.statement .block)
      (⟨s, k⟩ :: ls.map Cursor.stringToken ++ [⟨.mark .braceOpen, l⟩] ++ us) := by
  rcases hus with ⟨ws, ns, hns⟩
  have hblock : Derives (.statement .block)
      (⟨s, k⟩ :: ls.map Cursor.stringToken ++ ⟨.mark .braceOpen, l⟩ :: (us ++ ws) ++
        [⟨.mark .braceClose, 0⟩]) _ := .block hs hns
  exact ⟨ws ++ [⟨.mark .braceClose, 0⟩], _, by simpa using hblock⟩

/-- Tokens can be completed where more of them can. -/
theorem Completable.of_append {X : Nonterminal} {us vs : List Token}
    (h : Completable X (us ++ vs)) : Completable X us := by
  rcases h with ⟨ws, a, ha⟩
  exact ⟨vs ++ ws, a, by rwa [← List.append_assoc]⟩

/-- Line ends can be completed to a body. -/
theorem completable_body_of_lineEnds {m : Mode} {ns : List Token} (hns : LineEnds ns) :
    Completable (.body m) ns :=
  ⟨[], [], by simpa using Derives.noStatement (m := m) hns⟩

/-- Nothing can be completed to a statement. -/
theorem completable_statement_nil (m : Mode) : Completable (.statement m) [] := by
  rcases completable_statement_name (m := m) 0 (.name []) with ⟨ws, a, h⟩
  exact ⟨_, a, h⟩

/-! ## Values -/

variable {c stop : Cursor} {e : Error}

/-- The next token is the first of the tokens ahead. -/
theorem isPrefix_ahead_of_symbol? {s : Symbol} (hs : c.symbol? = some s) :
    [⟨s, c.line⟩] <+: c.ahead := by
  rcases Cursor.symbol?_eq_some_iff.mp hs with ⟨ts, hts⟩
  exact ⟨ts, hts.symm⟩

/-- A value fails at a symbol that no value starts with. -/
theorem failsBehind_value_nil (hscalar : ∀ s, c.symbol? = some s → s.literal? = none)
    (hlist : c.symbol? ≠ some (.mark .bracketOpen))
    (hdictionary : c.symbol? ≠ some (.mark .braceOpen)) :
    FailsBehind .value (fun d => d.value.reading) c ⟨c.line, .valueExpected c.found⟩ c.advance
      [] := by
  refine ⟨List.nil_prefix, .inl rfl, .inr (Cursor.advance_eq_skip c), completable_value_nil, ?_⟩
  intro t hc d hd
  have hnext : d.symbol? = c.symbol? := Cursor.symbol?_eq_of_isPrefix _ hc hd
  have hfirst : c.symbol? = some t.symbol := Cursor.symbol?_of_isPrefix hc
  refine ⟨⟨d.line, .valueExpected d.found⟩, d.advance, ?_⟩
  rw [hfirst] at hlist hdictionary hnext
  rw [Cursor.value_reading, hnext]
  simp only [hscalar _ hfirst]
  rw [if_neg (mt (congrArg some) hlist), if_neg (mt (congrArg some) hdictionary)]

/-- A value that starts with an opening mark fails where its inside does. -/
theorem failsBehind_value_of_mark {X : Nonterminal} {inside : Cursor → Reading β}
    {f : β → Value} {k : Mark} {us : List Token} (hk : c.symbol? = some (.mark k))
    (hread : ∀ d : Cursor, d.symbol? = some (.mark k) →
      d.value.reading = (inside (d.skip 1)).map f)
    (hcompletable : Completable X us → Completable .value (⟨.mark k, c.line⟩ :: us))
    (h : FailsBehind X inside (c.skip 1) e stop us) :
    FailsBehind .value (fun d => d.value.reading) c e stop (⟨.mark k, c.line⟩ :: us) := by
  apply FailsBehind.behind [⟨.mark k, c.line⟩] h (isPrefix_ahead_of_symbol? hk)
  · intro _ hus
    exact hcompletable hus
  · intro t _ d hd hrefuses
    rw [hread d (Cursor.symbol?_of_isPrefix hd)]
    exact hrefuses.map f

/-- A value fails at its first token, or behind an opening mark. -/
theorem failsBehind_of_value_reading
    (ih : ∀ d : Cursor, d.ahead.length < c.ahead.length → Earliest d)
    (he : c.value.reading = (.error e, stop)) :
    ∃ us, FailsBehind .value (fun d => d.value.reading) c e stop us := by
  have hinside (hpos : 0 < c.ahead.length) : Earliest (c.skip 1) := ih _ (by simp; omega)
  rw [Cursor.value_reading] at he
  cases hs : c.symbol? with
  | none =>
      simp only [hs] at he
      cases he
      exact ⟨[], failsBehind_value_nil (by simp [hs]) (by simp [hs]) (by simp [hs])⟩
  | some s =>
      have hpos := Cursor.length_ahead_pos hs
      simp only [hs] at he
      cases hscalar : s.literal? with
      | some v => simp [hscalar] at he
      | none =>
          simp only [hscalar] at he
          split at he
          · next hopen =>
            subst hopen
            rw [Reading.map_eq_error_iff, Cursor.advance_eq_skip] at he
            rcases (hinside hpos).items e stop he with ⟨us, hus⟩
            refine ⟨_, failsBehind_value_of_mark (f := .list) hs ?_ ?_ hus⟩
            · intro d hd
              rw [Cursor.value_reading, hd, Cursor.advance_eq_skip]
              simp [Symbol.literal?]
            · intro hcomplete
              rcases hcomplete with ⟨ws, vs, hvs⟩
              exact ⟨ws ++ [⟨.mark .bracketClose, 0⟩], .list vs, by simpa using Derives.list hvs⟩
          · next hlist =>
            split at he
            · next hopen =>
              subst hopen
              rw [Reading.map_eq_error_iff, Cursor.advance_eq_skip] at he
              rcases (hinside hpos).body .dictionary true e stop he with ⟨us, hus⟩
              refine ⟨_, failsBehind_value_of_mark (f := .dictionary) hs ?_ ?_ hus⟩
              · intro d hd
                rw [Cursor.value_reading, hd, Cursor.advance_eq_skip]
                simp [Symbol.literal?]
              · intro hcomplete
                rcases hcomplete with ⟨ws, es, hes⟩
                exact ⟨ws ++ [⟨.mark .braceClose, 0⟩], .dictionary es,
                  by simpa using Derives.dictionary hes⟩
            · next hdictionary =>
              cases he
              exact ⟨[], failsBehind_value_nil (by simpa [hs] using hscalar)
                (by simpa [hs] using hlist) (by simpa [hs] using hdictionary)⟩

/-! ## Lists -/

/-- Cursors in front of the same tokens pass the same line ends. -/
theorem pastNewlines_of_isPrefix {d : Cursor} {ns : List Token} {t : Token} (vs : List Token)
    (hns : LineEnds ns) (hpast : c.pastNewlines = c.skip ns.length)
    (hc : ns ++ (vs ++ [t]) <+: c.ahead) (hd : ns ++ (vs ++ [t]) <+: d.ahead) :
    d.pastNewlines = d.skip ns.length ∧ d.pastNewlines.symbol? = c.pastNewlines.symbol? := by
  have hsame := Cursor.symbol?_skip_eq_of_isPrefix ns vs hc hd
  rcases (List.prefix_append ns (vs ++ [t])).trans hd with ⟨rest, hrest⟩
  have hbehind := Cursor.ahead_skip_of_ahead hrest.symm
  have hfeed : ∀ u, rest.head? = some u → u.symbol ≠ .newline := by
    intro u hu hnewline
    apply c.symbol?_pastNewlines_ne
    rw [hpast, ← hsame, Cursor.symbol?, hbehind, hu, ← hnewline]
    rfl
  rcases pastNewlines_of_ahead rest hns hfeed hrest.symm with ⟨hdpast, -⟩
  refine ⟨hdpast, ?_⟩
  rw [hdpast, hpast, hsame]

/-- What reading goes on with behind a value of a list and the line ends that follow it. -/
def Cursor.afterItem (v : Value) (c : Cursor) : Reading (List Value) :=
  if c.atMark .comma then c.advance.items.reading.map (v :: ·)
  else if c.atMark .bracketClose then (.ok [v], c.advance)
  else (.error ⟨c.line, .commaExpected c.found⟩, c)

/-- The inside of a list that starts with a value is read as what follows the value
says. -/
theorem items_reading_of_value {d : Cursor} {ns us ms : List Token} {v : Value}
    (hns : LineEnds ns) (hus : Derives .value us v) (hms : LineEnds ms)
    (hfront : ns ++ us ++ ms <+: d.ahead)
    (hnext : (d.skip (ns ++ us ++ ms).length).symbol? ≠ some .newline) :
    d.items.reading = (d.skip (ns ++ us ++ ms).length).afterItem v := by
  rcases hfront with ⟨rest, hrest⟩
  have hfeed : ∀ u, rest.head? = some u → u.symbol ≠ .newline := by
    intro u hu hnewline
    rw [Cursor.symbol?, Cursor.ahead_skip_of_ahead hrest.symm, hu] at hnext
    exact hnext (congrArg some hnewline)
  rcases value_reading_of_items rest hns hus hus.reads hms hfeed hrest.symm with
    ⟨hopen, next, hread, hpast, -⟩
  rw [Cursor.items_reading, if_neg hopen, hread]
  simp only
  rw [hpast]
  rfl

/-- The inside of a list fails where its first value does. -/
theorem failsBehind_items_of_value {us : List Token}
    (hclose : ¬c.pastNewlines.atMark .bracketClose = true)
    (h : FailsBehind .value (fun d => d.value.reading) c.pastNewlines e stop us) :
    ∃ us, FailsBehind .items (fun d => d.items.reading) c e stop us := by
  rcases c.begins_pastNewlines with ⟨ns, hfront, hns, hpast⟩
  rw [hpast] at h
  refine ⟨ns ++ us, FailsBehind.behind _ h hfront ?_ ?_⟩
  · intro _ hcomplete
    rcases hcomplete with ⟨ws, v, hv⟩
    have hnone : LineEnds [] := by simp [LineEnds]
    exact ⟨ws, [v], by simpa using Derives.lastItem hns hv hnone⟩
  · intro t hc d hd hrefuses
    rcases pastNewlines_of_isPrefix _ hns hpast hc hd with ⟨hdpast, hsame⟩
    rcases hrefuses with ⟨f, last, hf⟩
    refine ⟨f, last, ?_⟩
    have hopen : ¬d.pastNewlines.atMark .bracketClose = true := by
      rwa [Cursor.atMark_congr hsame]
    rw [Cursor.items_reading, if_neg hopen, hdpast, hf]

/-- The inside of a list fails behind a comma where the rest of it does. -/
theorem failsBehind_items_of_comma {ns us ms ws : List Token} {v : Value} {l : Int}
    (hns : LineEnds ns) (hus : Derives .value us v) (hms : LineEnds ms)
    (hfront : ns ++ us ++ ms ++ [⟨.mark .comma, l⟩] <+: c.ahead)
    (h : FailsBehind .items (fun d => d.items.reading)
      (c.skip (ns ++ us ++ ms).length).advance e stop ws) :
    FailsBehind .items (fun d => d.items.reading) c e stop
      (ns ++ us ++ ms ++ [⟨.mark .comma, l⟩] ++ ws) := by
  rw [Cursor.advance_skip_length c _ ⟨.mark .comma, l⟩] at h
  apply FailsBehind.behind _ h hfront
  · intro _ hcomplete
    rcases hcomplete with ⟨xs, vs, hvs⟩
    exact ⟨xs, v :: vs, by simpa using Derives.item hns hus hms hvs⟩
  · intro t _ d hd hrefuses
    have hsplit : ns ++ us ++ ms ++ (⟨.mark .comma, l⟩ :: (ws ++ [t])) <+: d.ahead := by
      simpa using hd
    have hcomma := Cursor.symbol?_of_isPrefix (Cursor.isPrefix_ahead_skip _ hsplit)
    have hread := items_reading_of_value hns hus hms ((List.prefix_append _ _).trans hsplit)
      (by rw [hcomma]; simp)
    rw [hread, Cursor.afterItem, if_pos (Cursor.atMark_iff.mpr hcomma),
      Cursor.advance_skip_length d _ ⟨.mark .comma, l⟩]
    exact hrefuses.map (v :: ·)

/-- The inside of a list fails behind a value where neither a comma nor the closing bracket
is next. -/
theorem failsBehind_items_of_next {ns us ms : List Token} {v : Value} (hns : LineEnds ns)
    (hus : Derives .value us v) (hms : LineEnds ms) (hfront : ns ++ us ++ ms <+: c.ahead)
    (hnext : (c.skip (ns ++ us ++ ms).length).symbol? ≠ some .newline)
    (he : (c.skip (ns ++ us ++ ms).length).afterItem v = (.error e, stop))
    (hcomma : ¬(c.skip (ns ++ us ++ ms).length).atMark .comma = true) :
    FailsBehind .items (fun d => d.items.reading) c e stop (ns ++ us ++ ms) := by
  rw [Cursor.afterItem, if_neg hcomma] at he
  split at he
  · simp at he
  · next hclose =>
    cases he
    refine ⟨hfront, .inl rfl, .inl rfl, ⟨[], [v], ?_⟩, ?_⟩
    · simpa using Derives.lastItem hns hus hms
    · intro t hc d hd
      have hsame := Cursor.symbol?_skip_eq_of_isPrefix (ns ++ us ++ ms) [] hc hd
      have hread := items_reading_of_value hns hus hms ((List.prefix_append _ _).trans hd)
        (by rwa [hsame])
      rw [← Cursor.atMark_congr hsame] at hcomma hclose
      rw [hread, Cursor.afterItem, if_neg hcomma, if_neg hclose]
      exact ⟨_, _, rfl⟩

/-- The inside of a list fails in a value, behind a value, or behind a comma. -/
theorem failsBehind_of_items_reading
    (ih : ∀ d : Cursor, d.ahead.length < c.ahead.length → Earliest d)
    (he : c.items.reading = (.error e, stop)) :
    ∃ us, FailsBehind .items (fun d => d.items.reading) c e stop us := by
  have hle := Cursor.length_ahead_pastNewlines_le c
  have hbelow : ∀ d : Cursor, d.ahead.length < c.pastNewlines.ahead.length → Earliest d := by
    intro d hd
    exact ih d (by omega)
  have hread := he
  rw [Cursor.items_reading] at hread
  split at hread
  · simp at hread
  · next hclose =>
    split at hread
    · next f last hvalue =>
      cases hread
      rcases failsBehind_of_value_reading hbelow hvalue with ⟨us, hus⟩
      exact failsBehind_items_of_value hclose hus
    · next v next hvalue =>
      -- The first value is there, so the symbol behind it and its line ends decides.
      clear hread
      have hfirst := value_reading_iff.mp hvalue
      rcases (c.begins_pastNewlines.chain hfirst).chain next.begins_pastNewlines with
        ⟨_, hfront, ⟨_, ms, rfl, ⟨ns, us, rfl, hns, hus⟩, hms⟩, hpast⟩
      have hnext : (c.skip (ns ++ us ++ ms).length).symbol? ≠ some .newline := by
        rw [← hpast]
        exact next.symbol?_pastNewlines_ne
      rw [items_reading_of_value hns hus hms hfront hnext] at he
      by_cases hmark : (c.skip (ns ++ us ++ ms).length).atMark .comma = true
      · rw [Cursor.afterItem, if_pos hmark, Reading.map_eq_error_iff] at he
        have hsymbol := Cursor.atMark_iff.mp hmark
        have hpos := Cursor.length_ahead_pos hsymbol
        have hcomma := Cursor.append_isPrefix_ahead _ hfront (isPrefix_ahead_of_symbol? hsymbol)
        have hrest := ih (c.skip (ns ++ us ++ ms).length).advance (by simp at hpos ⊢; omega)
        rcases hrest.items e stop he with ⟨ws, hws⟩
        exact ⟨_, failsBehind_items_of_comma hns hus hms hcomma hws⟩
      · exact ⟨_, failsBehind_items_of_next hns hus hms hfront hnext he hmark⟩

end Ocl

end DeployGate
