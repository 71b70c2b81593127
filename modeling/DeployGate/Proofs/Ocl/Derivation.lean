import DeployGate.Proofs.Ocl.Grammar

/-!
# Reading follows the grammar

The readers of documents accept exactly what the grammar derives, and build what the
derivation denotes.  Soundness goes by induction on the recursion of the readers,
completeness by induction on the derivation.

Main results:

- Theorem `sound`: what is read derives, from every cursor.
- Theorem `Derives.reads`: what derives is read, from every cursor.
-/

namespace DeployGate

namespace Ocl

/-! ## Beginnings of the tokens ahead -/

/-- Some beginning of the tokens ahead has a property, and the next cursor lies behind
it. -/
def Cursor.Begins (c : Cursor) (P : List Token → Prop) (next : Cursor) : Prop :=
  ∃ us, us <+: c.ahead ∧ P us ∧ next = c.skip us.length

/-- Tokens with a property and tokens with another one behind them. -/
def Chain (P Q : List Token → Prop) (us : List Token) : Prop :=
  ∃ vs ws, us = vs ++ ws ∧ P vs ∧ Q ws

/-- A mark alone. -/
def Alone (k : Mark) (us : List Token) : Prop :=
  ∃ l, us = [⟨.mark k, l⟩]

/-- The tokens that end a body: its closing brace if it is nested, and nothing if it is
not. -/
def Ends : (nested : Bool) → List Token → Prop
  | true, es => Alone .braceClose es
  | false, es => es = []

namespace Cursor

variable {c d e : Cursor} {P Q : List Token → Prop}

/-- A beginning that ends where another one starts makes a longer one with it. -/
theorem Begins.chain (hcd : c.Begins P d) (hde : d.Begins Q e) : c.Begins (Chain P Q) e := by
  rcases hcd with ⟨us, ⟨rest, hus⟩, hP, rfl⟩
  rcases hde with ⟨ws, hws, hQ, rfl⟩
  rw [ahead_skip_of_ahead hus.symm] at hws
  refine ⟨us ++ ws, ?_, ⟨us, ws, rfl, hP, hQ⟩, (c.skip_length_append us ws).symm⟩
  rw [← hus]
  exact (List.prefix_append_right_inj us).mpr hws

/-- A weaker property holds of the same beginning. -/
theorem Begins.imp (hcd : c.Begins P d) (hPQ : ∀ us, P us → Q us) : c.Begins Q d := by
  rcases hcd with ⟨us, hus, hP, hd⟩
  exact ⟨us, hus, hPQ us hP, hd⟩

/-- Line ends are passed as such. -/
theorem begins_pastNewlines (c : Cursor) : c.Begins LineEnds c.pastNewlines := by
  refine ⟨c.ahead.take c.newlines, List.take_prefix _ _, ?_, ?_⟩
  · intro t ht
    exact symbol_of_mem_take_newlines ht
  · have hle : c.newlines ≤ c.ahead.length := (List.takeWhile_sublist _).length_le
    rw [pastNewlines_eq_skip, List.length_take, Nat.min_eq_left hle]

/-- The next token is passed alone. -/
theorem begins_advance {s : Symbol} (h : c.symbol? = some s) :
    c.Begins (· = [⟨s, c.line⟩]) c.advance := by
  rcases symbol?_eq_some_iff.mp h with ⟨ts, hts⟩
  exact ⟨_, ⟨ts, hts.symm⟩, rfl, advance_eq_skip c⟩

/-- A mark that is next is passed alone. -/
theorem begins_advance_of_atMark {k : Mark} (h : c.atMark k = true) :
    c.Begins (Alone k) c.advance := by
  refine (begins_advance (atMark_iff.mp h)).imp ?_
  rintro _ rfl
  exact ⟨c.line, rfl⟩

/-- Strings are passed as such. -/
theorem begins_pastStrings (c : Cursor) :
    ∃ ls : List (Text × Int), c.Begins (· = ls.map stringToken) c.pastStrings ∧
      c.strings = ls.map Prod.fst := by
  rcases exists_ahead_eq_strings c with ⟨ls, hahead, hls⟩
  refine ⟨ls, ⟨ls.map stringToken, ⟨_, hahead.symm⟩, rfl, ?_⟩, hls⟩
  rw [pastStrings_eq_skip, hls, List.length_map, List.length_map]

end Cursor

/-! ## Soundness -/

/-- The tokens of a body are none, start with a line end in front of a body with the
same parts, or start with a name. -/
theorem Derives.body_cases {m : Mode} {us : List Token} {ss : List m.Item}
    (h : Derives (.body m) us ss) :
    (us = [] ∧ ss = []) ∨
      (∃ l ws, us = ⟨.newline, l⟩ :: ws ∧ Derives (.body m) ws ss) ∨
      ∃ t ws name, us = t :: ws ∧ Named t.symbol name := by
  cases h with
  | noStatement hns =>
      rcases us with - | ⟨⟨s, l⟩, us⟩
      · left
        exact ⟨rfl, rfl⟩
      · have hnewline : s = .newline := hns _ (List.mem_cons_self ..)
        subst hnewline
        right
        left
        refine ⟨l, us, rfl, .noStatement ?_⟩
        intro t ht
        exact hns t (List.mem_cons_of_mem _ ht)
  | @statements m ns us ws s ss hns hus hws =>
      rcases ns with - | ⟨⟨s, l⟩, ns⟩
      · rcases hus.statement_head with ⟨t, ts, name, rfl, hname⟩
        right
        right
        exact ⟨t, ts ++ ws, name, rfl, hname⟩
      · have hnewline : s = .newline := hns _ (List.mem_cons_self ..)
        subst hnewline
        right
        left
        refine ⟨l, ns ++ us ++ ws, rfl, .statements ?_ hus hws⟩
        intro t ht
        exact hns t (List.mem_cons_of_mem _ ht)

/-- Where a statement may be over, no name is next. -/
theorem Cursor.atStatementEnd_eq_false {c : Cursor} {s : Symbol} {name : Text}
    (h : c.symbol? = some s) (hs : Named s name) : c.atStatementEnd = false := by
  cases hs <;> simp [atStatementEnd, h]

/-- A body behind a place where a statement may be over is what may follow it. -/
theorem Cursor.begins_rest_of_body {m : Mode} {nested : Bool} {ss : List m.Item}
    {c next : Cursor} (hend : c.atStatementEnd = true)
    (h : c.Begins (Chain (Derives (.body m) · ss) (Ends nested)) next) :
    c.Begins (Chain (Derives (.rest m) · ss) (Ends nested)) next := by
  rcases h with ⟨us, ⟨rest, hus⟩, ⟨ws, es, rfl, hws, hes⟩, rfl⟩
  refine ⟨ws ++ es, ⟨rest, hus⟩, ⟨ws, es, rfl, ?_, hes⟩, rfl⟩
  rcases hws.body_cases with ⟨rfl, rfl⟩ | ⟨l, vs, rfl, hvs⟩ | ⟨t, vs, name, rfl, hname⟩
  · exact .noRest
  · exact .lineEnd hvs
  · have hnext := Cursor.symbol?_of_ahead (c := c) (t := t) (by rw [← hus]; rfl)
    rw [Cursor.atStatementEnd_eq_false hnext hname] at hend
    contradiction

/-- What the readers give from a cursor derives.  A body that is not nested reaches the
end of the tokens. -/
structure Sound (c : Cursor) : Prop where
  value : ∀ v next, c.value.reading = (.ok v, next) → c.Begins (Derives .value · v) next
  items : ∀ vs next, c.items.reading = (.ok vs, next) →
    c.Begins (Chain (Derives .items · vs) (Alone .bracketClose)) next
  statement : ∀ m s next, (c.statement m).reading = (.ok s, next) →
    c.Begins (Derives (.statement m) · s) next
  body : ∀ m nested ss next, (c.body m nested).reading = (.ok ss, next) →
    c.Begins (Chain (Derives (.body m) · ss) (Ends nested)) next ∧
      (nested = false → next.ahead = [])

variable {c : Cursor} {m : Mode} {nested : Bool}

/-- A value derives where the lists and dictionaries inside it do. -/
theorem begins_of_value_reading
    (ih : ∀ d : Cursor, d.ahead.length < c.ahead.length → Sound d) {v : Value}
    {next : Cursor} (hv : c.value.reading = (.ok v, next)) :
    c.Begins (Derives .value · v) next := by
  rw [Cursor.value_reading] at hv
  cases hs : c.symbol? with
  | none => simp [hs] at hv
  | some s =>
      have hfirst := Cursor.begins_advance hs
      have hpos := Cursor.length_ahead_pos hs
      have hadv : Sound c.advance := ih c.advance (by simp; omega)
      simp only [hs] at hv
      cases hl : s.literal? with
      | some w =>
          have hresult : w = v ∧ c.advance = next := by simpa [hl] using hv
          rcases hresult with ⟨rfl, rfl⟩
          have hscalar := scalar_iff.mpr hl
          apply hfirst.imp
          intro us hus
          rw [hus]
          exact .scalar hscalar
      | none =>
          simp only [hl] at hv
          split at hv
          · next hopen =>
            subst hopen
            rcases Reading.map_eq_ok_iff.mp hv with ⟨vs, hvs, rfl⟩
            have hchain := hfirst.chain (hadv.items vs next hvs)
            apply hchain.imp
            rintro _ ⟨_, _, rfl, rfl, ws, _, rfl, hws, l, rfl⟩
            exact .list hws
          · split at hv
            · next hopen =>
              subst hopen
              rcases Reading.map_eq_ok_iff.mp hv with ⟨es, hes, rfl⟩
              have hchain := hfirst.chain (hadv.body .dictionary true es next hes).1
              apply hchain.imp
              rintro _ ⟨_, _, rfl, rfl, ws, _, rfl, hws, l, rfl⟩
              exact .dictionary hws
            · simp at hv

/-- The inside of a list derives where its values do. -/
theorem begins_of_items_reading
    (ih : ∀ d : Cursor, d.ahead.length < c.ahead.length → Sound d) {vs : List Value}
    {last : Cursor} (hvs : c.items.reading = (.ok vs, last)) :
    c.Begins (Chain (Derives .items · vs) (Alone .bracketClose)) last := by
  have hle := Cursor.length_ahead_pastNewlines_le c
  rw [Cursor.items_reading] at hvs
  split at hvs
  · next hclose =>
    have hresult : [] = vs ∧ c.pastNewlines.advance = last := by simpa using hvs
    rcases hresult with ⟨rfl, rfl⟩
    have hchain := c.begins_pastNewlines.chain (Cursor.begins_advance_of_atMark hclose)
    apply hchain.imp
    rintro _ ⟨ns, es, rfl, hns, hes⟩
    exact ⟨ns, es, rfl, .noItem hns, hes⟩
  · split at hvs
    · simp at hvs
    · next v next hread =>
      have hbelow : ∀ d : Cursor, d.ahead.length < c.pastNewlines.ahead.length → Sound d := by
        intro d hd
        exact ih d (by omega)
      have hfirst := begins_of_value_reading hbelow hread
      have hvalue := (c.begins_pastNewlines.chain hfirst).chain next.begins_pastNewlines
      split at hvs
      · next hcomma =>
        rcases Reading.map_eq_ok_iff.mp hvs with ⟨ws, hws, rfl⟩
        have hshort := Outcome.length_lt_of_reading hread
        have hnext := Cursor.length_ahead_pastNewlines_le next
        have hrest := ih next.pastNewlines.advance (by simp; omega)
        have hcomma := Cursor.begins_advance_of_atMark hcomma
        have hchain := (hvalue.chain hcomma).chain (hrest.items ws last hws)
        apply hchain.imp
        rintro _ ⟨_, _, rfl, ⟨_, _, rfl, ⟨_, ms, rfl, ⟨ns, us, rfl, hns, hus⟩, hms⟩, l, rfl⟩,
          ws, es, rfl, hws, hes⟩
        exact ⟨ns ++ us ++ ms ++ ⟨.mark .comma, l⟩ :: ws, es, by simp,
          .item hns hus hms hws, hes⟩
      · split at hvs
        · next hclose =>
          have hresult : [v] = vs ∧ next.pastNewlines.advance = last := by simpa using hvs
          rcases hresult with ⟨rfl, rfl⟩
          have hchain := hvalue.chain (Cursor.begins_advance_of_atMark hclose)
          apply hchain.imp
          rintro _ ⟨_, es, rfl, ⟨_, ms, rfl, ⟨ns, us, rfl, hns, hus⟩, hms⟩, hes⟩
          exact ⟨_, es, rfl, .lastItem hns hus hms, hes⟩
        · simp at hvs

/-- A statement derives where its value or its body does. -/
theorem begins_of_statement_reading
    (ih : ∀ d : Cursor, d.ahead.length < c.ahead.length → Sound d) {s : m.Item}
    {next : Cursor} (hs : (c.statement m).reading = (.ok s, next)) :
    c.Begins (Derives (.statement m) · s) next := by
  rw [Cursor.statement_reading] at hs
  cases hname : c.symbol?.bind Symbol.name? with
  | none => simp [hname] at hs
  | some name =>
      rcases Option.bind_eq_some_iff.mp hname with ⟨t, ht, htname⟩
      have hfirst := Cursor.begins_advance ht
      have hpos := Cursor.length_ahead_pos ht
      have hnamed := named_iff.mpr htname
      simp only [hname] at hs
      split at hs
      · next hsep =>
        rcases Reading.map_eq_ok_iff.mp hs with ⟨v, hread, rfl⟩
        rcases Cursor.atSeparator_iff.mp hsep with ⟨q, hq, hmode⟩
        have hvalue := ih c.advance.advance (by simp; omega)
        have hsign := hfirst.chain (Cursor.begins_advance hq)
        have hchain := hsign.chain (hvalue.value v next hread)
        apply hchain.imp
        rintro _ ⟨_, us, rfl, ⟨_, _, rfl, rfl, rfl⟩, hus⟩
        cases m with
        | block =>
            have hequals : q = .equals := isSeparator_block_iff.mp hmode
            subst hequals
            exact .assignment hnamed hus
        | dictionary => exact .entry hnamed (isSeparator_dictionary_iff.mp hmode) hus
      · cases m with
        | dictionary => simp at hs
        | block =>
            dsimp only at hs
            split at hs
            · next hopen =>
              rcases Reading.map_eq_ok_iff.mp hs with ⟨ns, hread, rfl⟩
              rcases c.advance.begins_pastStrings with ⟨ls, hls, hlabels⟩
              have hstrings := Cursor.length_ahead_pastStrings_le c.advance
              have hbody := ih c.advance.pastStrings.advance (by simp at hstrings ⊢; omega)
              have hhead := (hfirst.chain hls).chain (Cursor.begins_advance_of_atMark hopen)
              have hchain := hhead.chain (hbody.body .block true ns next hread).1
              apply hchain.imp
              rintro _ ⟨_, _, rfl, ⟨_, _, rfl, ⟨_, _, rfl, rfl, rfl⟩, k, rfl⟩,
                us, _, rfl, hus, l, rfl⟩
              have hblock : Derives (.statement .block)
                  (⟨t, c.line⟩ :: ls.map Cursor.stringToken ++ ⟨.mark .braceOpen, k⟩ :: us ++
                    [⟨.mark .braceClose, l⟩])
                  (.block ⟨name, (ls.map Prod.fst).map Text.inner, ns, c.line⟩) :=
                .block hnamed hus
              simpa [hlabels] using hblock
            · simp at hs

/-- What follows a statement derives where the body behind it does. -/
theorem begins_of_afterStatement (hcomma : Sound c.advance) (hend : Sound c)
    {ss : List m.Item} {next : Cursor} (h : c.afterStatement m nested = (.ok ss, next)) :
    c.Begins (Chain (Derives (.rest m) · ss) (Ends nested)) next ∧
      (nested = false → next.ahead = []) := by
  unfold Cursor.afterStatement at h
  split at h
  · next hsep =>
    rcases hcomma.body m nested ss next h with ⟨hbody, hahead⟩
    rcases hsep with ⟨rfl, hmark⟩
    have hchain := (Cursor.begins_advance_of_atMark hmark).chain hbody
    refine ⟨hchain.imp ?_, hahead⟩
    rintro _ ⟨_, _, rfl, ⟨l, rfl⟩, ws, es, rfl, hws, hes⟩
    exact ⟨⟨.mark .comma, l⟩ :: ws, es, rfl, .comma hws, hes⟩
  · split at h
    · next hover =>
      rcases hend.body m nested ss next h with ⟨hbody, hahead⟩
      exact ⟨Cursor.begins_rest_of_body hover hbody, hahead⟩
    · simp at h

/-- A body derives where its statements do. -/
theorem begins_of_body_reading
    (ih : ∀ d : Cursor, d.ahead.length < c.ahead.length → Sound d) {ss : List m.Item}
    {last : Cursor} (hss : (c.body m nested).reading = (.ok ss, last)) :
    c.Begins (Chain (Derives (.body m) · ss) (Ends nested)) last ∧
      (nested = false → last.ahead = []) := by
  have hle := Cursor.length_ahead_pastNewlines_le c
  rw [Cursor.body_reading] at hss
  split at hss
  · next hnone =>
    cases nested with
    | true => simp at hss
    | false =>
        have hresult : [] = ss ∧ c.pastNewlines = last := by simpa using hss
        rcases hresult with ⟨rfl, rfl⟩
        have hahead := Cursor.symbol?_eq_none_iff.mp hnone
        refine ⟨c.begins_pastNewlines.imp ?_, fun _ => hahead⟩
        intro ns hns
        exact ⟨ns, [], by simp, .noStatement hns, rfl⟩
  · split at hss
    · next hclose =>
      cases nested with
      | false => simp at hss
      | true =>
          have hresult : [] = ss ∧ c.pastNewlines.advance = last := by simpa using hss
          rcases hresult with ⟨rfl, rfl⟩
          have hchain := c.begins_pastNewlines.chain (Cursor.begins_advance_of_atMark hclose)
          refine ⟨hchain.imp ?_, by simp⟩
          rintro _ ⟨ns, es, rfl, hns, hes⟩
          exact ⟨ns, es, rfl, .noStatement hns, hes⟩
    · split at hss
      · simp at hss
      · next s next hread =>
        rcases Reading.map_eq_ok_iff.mp hss with ⟨ws, hws, rfl⟩
        have hbelow : ∀ d : Cursor, d.ahead.length < c.pastNewlines.ahead.length → Sound d := by
          intro d hd
          exact ih d (by omega)
        have hfirst := begins_of_statement_reading hbelow hread
        have hshort := Outcome.length_lt_of_reading hread
        have hcomma : Sound next.advance := ih next.advance (by simp; omega)
        have hend : Sound next := ih next (by omega)
        rcases begins_of_afterStatement hcomma hend hws with ⟨hrest, hahead⟩
        have hchain := (c.begins_pastNewlines.chain hfirst).chain hrest
        refine ⟨hchain.imp ?_, hahead⟩
        rintro _ ⟨_, _, rfl, ⟨ns, us, rfl, hns, hus⟩, ws, es, rfl, hws, hes⟩
        exact ⟨ns ++ us ++ ws, es, by simp, .statements hns hus hws, hes⟩

/-- What the readers give derives, from every cursor. -/
theorem sound (c : Cursor) : Sound c := by
  -- Every reader calls others only where fewer tokens are ahead, or moves on first.
  have hbelow : ∀ d : Cursor, d.ahead.length < c.ahead.length → Sound d := fun d _ => sound d
  exact {
    value := fun v next hv => begins_of_value_reading hbelow hv
    items := fun vs next hvs => begins_of_items_reading hbelow hvs
    statement := fun m s next hs => begins_of_statement_reading hbelow hs
    body := fun m nested ss next hss => begins_of_body_reading hbelow hss }
termination_by c.ahead.length

/-! ## Completeness -/

/-- The readers give what tokens of a nonterminal denote, with what may follow them
behind them: anything behind values and statements, a closing bracket behind the inside
of a list, and the end of the body behind a body and its parts. -/
def Reads : (X : Nonterminal) → List Token → X.Meaning → Prop
  | .value, us, v => ∀ (c : Cursor) rest, c.ahead = us ++ rest →
      c.value.reading = (.ok v, c.skip us.length)
  | .items, us, vs => ∀ (c : Cursor) es rest, Alone .bracketClose es →
      c.ahead = us ++ es ++ rest → c.items.reading = (.ok vs, c.skip (us ++ es).length)
  | .body m, us, ss => ∀ nested (c : Cursor) es rest, Ends nested es →
      (nested = false → rest = []) → c.ahead = us ++ es ++ rest →
      (c.body m nested).reading = (.ok ss, c.skip (us ++ es).length)
  | .rest m, us, ss => ∀ nested (c : Cursor) es rest, Ends nested es →
      (nested = false → rest = []) → c.ahead = us ++ es ++ rest →
      c.afterStatement m nested = (.ok ss, c.skip (us ++ es).length)
  | .statement m, us, s => ∀ (c : Cursor) rest, c.ahead = us ++ rest →
      (c.statement m).reading = (.ok s, c.skip us.length)

/-- Behind line ends lies what follows them, if that is no line end. -/
theorem pastNewlines_of_ahead {ns : List Token} (rest : List Token) (hns : LineEnds ns)
    (hrest : ∀ t, rest.head? = some t → t.symbol ≠ .newline) (h : c.ahead = ns ++ rest) :
    c.pastNewlines = c.skip ns.length ∧ c.pastNewlines.ahead = rest := by
  have hpast : c.pastNewlines = c.skip ns.length := by
    rw [Cursor.pastNewlines_eq_skip, Cursor.newlines_of_ahead h hns hrest]
  refine ⟨hpast, ?_⟩
  rw [hpast]
  exact Cursor.ahead_skip_of_ahead h

/-- A body that ends behind line ends is read as empty. -/
theorem body_reading_of_ends {ns es rest : List Token} (hns : LineEnds ns)
    (hes : Ends nested es) (hrest : nested = false → rest = [])
    (h : c.ahead = ns ++ es ++ rest) :
    (c.body m nested).reading = (.ok [], c.skip (ns ++ es).length) := by
  cases nested with
  | true =>
      rcases hes with ⟨l, rfl⟩
      have hsplit : c.ahead = ns ++ ⟨.mark .braceClose, l⟩ :: rest := by simpa using h
      rcases pastNewlines_of_ahead _ hns (by simp) hsplit with ⟨hpast, hahead⟩
      have hnext := Cursor.symbol?_of_ahead hahead
      have hsome : ¬c.pastNewlines.symbol? = none := by simp [hnext]
      have hclose : c.pastNewlines.atMark .braceClose = true := Cursor.atMark_iff.mpr hnext
      rw [Cursor.body_reading, if_neg hsome, if_pos hclose, if_pos rfl, hpast,
        Cursor.skip_length_append, Cursor.skip_length_cons]
      rfl
  | false =>
      have hempty : es = [] := hes
      subst hempty
      have hnil : rest = [] := hrest rfl
      subst hnil
      have hsplit : c.ahead = ns ++ [] := by simpa using h
      rcases pastNewlines_of_ahead [] hns (by simp) hsplit with ⟨hpast, hahead⟩
      have hnone := Cursor.symbol?_eq_none_iff.mpr hahead
      rw [Cursor.body_reading, if_pos hnone, if_neg (by simp), hpast, List.append_nil]

/-- A statement may be over where the body ends, and no comma is next there. -/
theorem atStatementEnd_of_ends {es rest : List Token} (hes : Ends nested es)
    (hrest : nested = false → rest = []) (h : c.ahead = es ++ rest) :
    c.atStatementEnd = true ∧ ¬c.atMark .comma = true := by
  cases nested with
  | true =>
      rcases hes with ⟨l, rfl⟩
      have hnext := Cursor.symbol?_of_ahead h
      simp [Cursor.atStatementEnd, Cursor.atMark_iff, hnext]
  | false =>
      have hempty : es = [] := hes
      subst hempty
      have hnil : rest = [] := hrest rfl
      subst hnil
      have hnext := Cursor.symbol?_eq_none_iff.mpr h
      simp [Cursor.atStatementEnd, Cursor.atMark_iff, hnext]

/-- A list is read where its inside is. -/
theorem reads_list {us : List Token} {vs : List Value} {k l : Int} (ih : Reads .items us vs) :
    Reads .value (⟨.mark .bracketOpen, k⟩ :: us ++ [⟨.mark .bracketClose, l⟩])
      (.list vs) := by
  intro c rest h
  have hnext := Cursor.symbol?_of_ahead h
  have hahead : c.advance.ahead = us ++ [⟨.mark .bracketClose, l⟩] ++ rest := by simp [h]
  have hinside := ih c.advance _ rest ⟨l, rfl⟩ hahead
  rw [Cursor.value_reading, hnext]
  simp only [Symbol.literal?, if_true, hinside, Reading.map_ok]
  rw [List.cons_append, Cursor.skip_length_cons]

/-- A dictionary is read where its body is. -/
theorem reads_dictionary {us : List Token} {es : List Attribute} {k l : Int}
    (ih : Reads (.body .dictionary) us es) :
    Reads .value (⟨.mark .braceOpen, k⟩ :: us ++ [⟨.mark .braceClose, l⟩])
      (.dictionary es) := by
  intro c rest h
  have hnext := Cursor.symbol?_of_ahead h
  have hahead : c.advance.ahead = us ++ [⟨.mark .braceClose, l⟩] ++ rest := by simp [h]
  have hinside := ih true c.advance _ rest ⟨l, rfl⟩ (by simp) hahead
  rw [Cursor.value_reading, hnext]
  simp only [Symbol.literal?, if_true, hinside, Reading.map_ok]
  rw [List.cons_append, Cursor.skip_length_cons]
  rfl

/-- A value in front of the inside of a list is read first. -/
theorem value_reading_of_items {ns us ms : List Token} (rest : List Token) {v : Value}
    (hns : LineEnds ns) (hus : Derives .value us v) (ihus : Reads .value us v)
    (hms : LineEnds ms) (hrest : ∀ t, rest.head? = some t → t.symbol ≠ .newline)
    (h : c.ahead = ns ++ us ++ ms ++ rest) :
    ¬c.pastNewlines.atMark .bracketClose = true ∧
      ∃ next, c.pastNewlines.value.reading = (.ok v, next) ∧
        next.pastNewlines = c.skip (ns ++ us ++ ms).length ∧
        next.pastNewlines.ahead = rest := by
  rcases hus.value_head with ⟨t, ts, rfl, hstart⟩
  have hfirst : ∀ u, (t :: ts ++ (ms ++ rest)).head? = some u → u.symbol ≠ .newline := by
    simpa using hstart.ne.1
  have hsplit : c.ahead = ns ++ (t :: ts ++ (ms ++ rest)) := by simpa using h
  rcases pastNewlines_of_ahead _ hns hfirst hsplit with ⟨hpast, hahead⟩
  have hread := ihus c.pastNewlines (ms ++ rest) hahead
  have hbehind := Cursor.ahead_skip_of_ahead hahead
  rcases pastNewlines_of_ahead rest hms hrest hbehind with ⟨hpast', hahead'⟩
  refine ⟨?_, _, hread, ?_, hahead'⟩
  · rw [Cursor.atMark_iff, Cursor.symbol?_of_ahead hahead]
    simpa using hstart.ne.2
  · rw [hpast', hpast, Cursor.skip_length_append, Cursor.skip_length_append]

/-- Line ends alone are read as the inside of an empty list. -/
theorem reads_noItem {ns : List Token} (hns : LineEnds ns) : Reads .items ns [] := by
  rintro c _ rest ⟨l, rfl⟩ h
  have hsplit : c.ahead = ns ++ ⟨.mark .bracketClose, l⟩ :: rest := by simpa using h
  rcases pastNewlines_of_ahead _ hns (by simp) hsplit with ⟨hpast, hahead⟩
  have hclose : c.pastNewlines.atMark .bracketClose = true :=
    Cursor.atMark_iff.mpr (Cursor.symbol?_of_ahead hahead)
  rw [Cursor.items_reading, if_pos hclose, hpast, Cursor.skip_length_append,
    Cursor.skip_length_cons]
  rfl

/-- A value without a comma behind it is read as the last one of a list. -/
theorem reads_lastItem {ns us ms : List Token} {v : Value} (hns : LineEnds ns)
    (hus : Derives .value us v) (ihus : Reads .value us v) (hms : LineEnds ms) :
    Reads .items (ns ++ us ++ ms) [v] := by
  rintro c _ rest ⟨l, rfl⟩ h
  have hsplit : c.ahead = ns ++ us ++ ms ++ ⟨.mark .bracketClose, l⟩ :: rest := by simpa using h
  rcases value_reading_of_items _ hns hus ihus hms (by simp) hsplit with
    ⟨hopen, next, hread, hpast, hahead⟩
  have hnext := Cursor.symbol?_of_ahead hahead
  have hcomma : ¬next.pastNewlines.atMark .comma = true := by simp [Cursor.atMark_iff, hnext]
  have hclose : next.pastNewlines.atMark .bracketClose = true := Cursor.atMark_iff.mpr hnext
  rw [Cursor.items_reading, if_neg hopen, hread]
  simp only
  rw [if_neg hcomma, if_pos hclose, hpast, Cursor.skip_length_append _ [_],
    Cursor.skip_length_cons]
  rfl

/-- A value with a comma behind it is read in front of the rest of a list. -/
theorem reads_item {ns us ms ws : List Token} {v : Value} {vs : List Value} {k : Int}
    (hns : LineEnds ns) (hus : Derives .value us v) (ihus : Reads .value us v)
    (hms : LineEnds ms) (ihws : Reads .items ws vs) :
    Reads .items (ns ++ us ++ ms ++ ⟨.mark .comma, k⟩ :: ws) (v :: vs) := by
  intro c es rest hes h
  have hsplit : c.ahead = ns ++ us ++ ms ++ ⟨.mark .comma, k⟩ :: (ws ++ es ++ rest) := by
    simpa using h
  rcases value_reading_of_items _ hns hus ihus hms (by simp) hsplit with
    ⟨hopen, next, hread, hpast, hahead⟩
  have hcomma : next.pastNewlines.atMark .comma = true :=
    Cursor.atMark_iff.mpr (Cursor.symbol?_of_ahead hahead)
  have hbehind : next.pastNewlines.advance.ahead = ws ++ es ++ rest := by simp [hahead]
  have hrest := ihws next.pastNewlines.advance es rest hes hbehind
  rw [Cursor.items_reading, if_neg hopen, hread]
  simp only
  rw [if_pos hcomma, hrest, hpast, Reading.map_ok]
  simp only [Cursor.skip_length_append, Cursor.skip_length_cons]

/-- A statement is read in front of the rest of a body. -/
theorem reads_statements {ns us ws : List Token} {s : m.Item} {ss : List m.Item}
    (hns : LineEnds ns) (hus : Derives (.statement m) us s) (ihus : Reads (.statement m) us s)
    (ihws : Reads (.rest m) ws ss) : Reads (.body m) (ns ++ us ++ ws) (s :: ss) := by
  intro nested c es rest hes hrest h
  rcases hus.statement_head with ⟨t, ts, name, rfl, hnamed⟩
  have hfirst : ∀ u, (t :: ts ++ (ws ++ es ++ rest)).head? = some u → u.symbol ≠ .newline := by
    simpa using hnamed.ne.1
  have hsplit : c.ahead = ns ++ (t :: ts ++ (ws ++ es ++ rest)) := by simpa using h
  rcases pastNewlines_of_ahead _ hns hfirst hsplit with ⟨hpast, hahead⟩
  have hnext := Cursor.symbol?_of_ahead hahead
  have hsome : ¬c.pastNewlines.symbol? = none := by simp [hnext]
  have hopen : ¬c.pastNewlines.atMark .braceClose = true := by
    rw [Cursor.atMark_iff, hnext]
    simpa using hnamed.ne.2
  have hstatement := ihus c.pastNewlines _ hahead
  have hlater := ihws nested _ es rest hes hrest (Cursor.ahead_skip_of_ahead hahead)
  rw [Cursor.body_reading, if_neg hsome, if_neg hopen, hstatement]
  simp only
  rw [hlater, hpast, Reading.map_ok]
  simp only [Cursor.skip_length_append]

/-- Where a body is over nothing follows a statement. -/
theorem reads_noRest : Reads (.rest m) [] [] := by
  intro nested c es rest hes hrest h
  have hns : LineEnds [] := by simp [LineEnds]
  have hbody := body_reading_of_ends (m := m) hns hes hrest h
  rcases atStatementEnd_of_ends hes hrest h with ⟨hend, hcomma⟩
  rw [Cursor.afterStatement, if_neg fun hsep => hcomma hsep.2, if_pos hend, hbody]

/-- Behind a line end a body may follow a statement. -/
theorem reads_lineEnd {us : List Token} {ss : List m.Item} {l : Int}
    (ih : Reads (.body m) us ss) : Reads (.rest m) (⟨.newline, l⟩ :: us) ss := by
  intro nested c es rest hes hrest h
  have hnext := Cursor.symbol?_of_ahead h
  have hcomma : ¬(m = .dictionary ∧ c.atMark .comma = true) := by
    simp [Cursor.atMark_iff, hnext]
  have hend : c.atStatementEnd = true := by simp [Cursor.atStatementEnd, hnext]
  have hbody := ih nested c.advance es rest hes hrest (by simp [h])
  rw [Cursor.afterStatement, if_neg hcomma, if_pos hend, Cursor.body_reading_of_newline hnext,
    hbody, List.cons_append, Cursor.skip_length_cons]

/-- Behind a comma a body may follow a statement of a dictionary. -/
theorem reads_comma {us : List Token} {es : List Attribute} {l : Int}
    (ih : Reads (.body .dictionary) us es) :
    Reads (.rest .dictionary) (⟨.mark .comma, l⟩ :: us) es := by
  intro nested c ends rest hends hrest h
  have hcomma : c.atMark .comma = true := Cursor.atMark_iff.mpr (Cursor.symbol?_of_ahead h)
  have hbody := ih nested c.advance ends rest hends hrest (by simp [h])
  rw [Cursor.afterStatement, if_pos ⟨rfl, hcomma⟩, hbody, List.cons_append,
    Cursor.skip_length_cons]

/-- A name, a separator and a value are read as an attribute. -/
theorem reads_binding {s : Symbol} {name : Text} {q : Mark} {us rest : List Token} {v : Value}
    {k l : Int} (hs : Named s name) (hq : m.isSeparator q = true) (ih : Reads .value us v)
    (h : c.ahead = ⟨s, k⟩ :: ⟨.mark q, l⟩ :: us ++ rest) :
    (c.statement m).reading = (.ok (m.ofAttribute ⟨name, v, k⟩),
      c.skip (⟨s, k⟩ :: ⟨.mark q, l⟩ :: us : List Token).length) := by
  have hnext := Cursor.symbol?_of_ahead h
  have hahead : c.advance.ahead = ⟨.mark q, l⟩ :: (us ++ rest) := by simp [h]
  have hsign := Cursor.symbol?_of_ahead hahead
  have hsep : c.advance.atSeparator m = true := Cursor.atSeparator_iff.mpr ⟨q, hsign, hq⟩
  have hread := ih c.advance.advance rest (by simp [h])
  rw [Cursor.statement_reading, hnext, Option.bind_some, named_iff.mp hs]
  simp only
  rw [if_pos hsep, hread, Reading.map_ok, Cursor.line_of_ahead h, Cursor.skip_length_cons,
    Cursor.skip_length_cons]

/-- A name, labels and a body in braces are read as a block. -/
theorem reads_block {s : Symbol} {name : Text} {labels : List (Text × Int)}
    {us : List Token} {ns : List Node} {k l e : Int} (hs : Named s name)
    (ih : Reads (.body .block) us ns) :
    Reads (.statement .block)
      (⟨s, k⟩ :: labels.map Cursor.stringToken ++ ⟨.mark .braceOpen, l⟩ :: us ++
        [⟨.mark .braceClose, e⟩])
      (.block ⟨name, (labels.map Prod.fst).map Text.inner, ns, k⟩) := by
  intro c rest h
  have hnext := Cursor.symbol?_of_ahead h
  have hahead : c.advance.ahead = labels.map Cursor.stringToken ++
      ⟨.mark .braceOpen, l⟩ :: (us ++ [⟨.mark .braceClose, e⟩] ++ rest) := by simp [h]
  have hbrace : ∀ t s, (⟨.mark .braceOpen, l⟩ ::
      (us ++ [⟨.mark .braceClose, e⟩] ++ rest) : List Token).head? = some t →
      t.symbol ≠ .string s := by
    intro t s ht
    cases ht
    simp
  have hstrings := Cursor.strings_of_ahead hahead hbrace
  have hpast : c.advance.pastStrings = c.advance.skip (labels.map Cursor.stringToken).length := by
    rw [Cursor.pastStrings_eq_skip, hstrings, List.length_map, List.length_map]
  have hbehind : c.advance.pastStrings.ahead =
      ⟨.mark .braceOpen, l⟩ :: (us ++ [⟨.mark .braceClose, e⟩] ++ rest) := by
    rw [hpast]
    exact Cursor.ahead_skip_of_ahead hahead
  have hopen : c.advance.pastStrings.atMark .braceOpen = true :=
    Cursor.atMark_iff.mpr (Cursor.symbol?_of_ahead hbehind)
  have hsep : ¬c.advance.atSeparator .block = true := by
    rw [Cursor.atSeparator_iff]
    intro h
    rcases h with ⟨q, hq, hmode⟩
    have hequals : q = .equals := isSeparator_block_iff.mp hmode
    subst hequals
    rcases Cursor.symbol?_eq_some_iff.mp hq with ⟨ts, hts⟩
    rw [hts] at hahead
    cases labels <;> simp [Cursor.stringToken] at hahead
  have hinside : c.advance.pastStrings.advance.ahead =
      us ++ [⟨.mark .braceClose, e⟩] ++ rest := by
    rw [Cursor.ahead_advance, hbehind, List.tail_cons]
  have hbody := ih true c.advance.pastStrings.advance _ rest ⟨e, rfl⟩ (by simp) hinside
  rw [Cursor.statement_reading, hnext, Option.bind_some, named_iff.mp hs]
  simp only
  rw [if_neg hsep, if_pos hopen, hbody, Reading.map_ok, hstrings, Cursor.line_of_ahead h, hpast]
  simp only [List.cons_append, List.append_assoc, Cursor.skip_length_cons,
    Cursor.skip_length_append]

/-- What derives is read, from every cursor. -/
theorem Derives.reads {X : Nonterminal} {us : List Token} {a : X.Meaning}
    (h : Derives X us a) : Reads X us a := by
  induction h with
  | scalar hs =>
      intro c rest h
      rw [Cursor.value_reading, Cursor.symbol?_of_ahead h]
      simp only [scalar_iff.mp hs]
      rw [Cursor.skip_length_cons]
      rfl
  | list hus ih => exact reads_list ih
  | dictionary hus ih => exact reads_dictionary ih
  | noItem hns => exact reads_noItem hns
  | lastItem hns hus hms ihus => exact reads_lastItem hns hus ihus hms
  | item hns hus hms hws ihus ihws => exact reads_item hns hus ihus hms ihws
  | noStatement hns =>
      intro nested c es rest hes hrest h
      exact body_reading_of_ends hns hes hrest h
  | statements hns hus hws ihus ihws => exact reads_statements hns hus ihus ihws
  | noRest => exact reads_noRest
  | lineEnd hus ih => exact reads_lineEnd ih
  | comma hus ih => exact reads_comma ih
  | assignment hs hus ih =>
      intro c rest h
      exact reads_binding (m := .block) hs rfl ih h
  | block hs hus ih => exact reads_block hs ih
  | entry hs hq hus ih =>
      intro c rest h
      exact reads_binding (m := .dictionary) hs (isSeparator_dictionary_iff.mpr hq) ih h

end Ocl

end DeployGate
