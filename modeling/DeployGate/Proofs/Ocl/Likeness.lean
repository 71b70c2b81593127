import DeployGate.Proofs.Ocl.TreeForm

/-!
# Tokens that read alike

The readers of documents see of a heredoc only that it is one, and of line ends in a row only
that there are some.  Tokens that differ in nothing else are read alike.  Both are refused, and
on the same line, or both are read, and the trees differ in the texts of heredocs only.

Main results:

- Definitions `Value.mapHeredocs` and `Node.mapHeredocs`: trees with the texts of heredocs changed.
- Definition `squeeze`: tokens with one line end in place of several in a row.
- Definition `Cursor.Like`: cursors that see the same, heredocs and line ends in a row apart.
- Theorem `alike`: every reader gives the like from cursors that see the like.
- Theorem `document_result_like`: token lists that differ so are read alike.
-/

namespace DeployGate

namespace Ocl

/-! ## Trees with other heredocs -/

mutual

/-- A value with the texts of its heredocs changed. -/
def Value.mapHeredocs (g : Text → Text) : Value → Value
  | .literal .heredoc t => .literal .heredoc (g t)
  | .literal k t => .literal k t
  | .list vs => .list (mapHeredocsItems g vs)
  | .dictionary es => .dictionary (mapHeredocsEntries g es)

/-- Values with the texts of their heredocs changed. -/
def Value.mapHeredocsItems (g : Text → Text) : List Value → List Value
  | [] => []
  | v :: vs => v.mapHeredocs g :: mapHeredocsItems g vs

/-- Entries with the texts of their heredocs changed. -/
def Value.mapHeredocsEntries (g : Text → Text) : List Attribute → List Attribute
  | [] => []
  | ⟨n, v, l⟩ :: es => ⟨n, v.mapHeredocs g, l⟩ :: mapHeredocsEntries g es

end

/-- An attribute with the texts of its heredocs changed. -/
def Attribute.mapHeredocs (g : Text → Text) (a : Attribute) : Attribute :=
  ⟨a.name, a.value.mapHeredocs g, a.line⟩

mutual

/-- A part of a document with the texts of its heredocs changed. -/
def Node.mapHeredocs (g : Text → Text) : Node → Node
  | .attribute a => .attribute (Attribute.mapHeredocs g a)
  | .block ⟨n, ls, cs, l⟩ => .block ⟨n, ls, mapHeredocsChildren g cs, l⟩

/-- Parts of a document with the texts of their heredocs changed. -/
def Node.mapHeredocsChildren (g : Text → Text) : List Node → List Node
  | [] => []
  | n :: ns => n.mapHeredocs g :: mapHeredocsChildren g ns

end

/-- The heredocs of values change one by one. -/
@[simp] theorem Value.mapHeredocsItems_eq (g : Text → Text) (vs : List Value) :
    mapHeredocsItems g vs = vs.map (mapHeredocs g) := by
  induction vs with
  | nil => rfl
  | cons v vs ih => rw [mapHeredocsItems, ih, List.map_cons]

/-- The heredocs of entries change one by one. -/
@[simp] theorem Value.mapHeredocsEntries_eq (g : Text → Text) (es : List Attribute) :
    mapHeredocsEntries g es = es.map (Attribute.mapHeredocs g) := by
  induction es with
  | nil => rfl
  | cons e es ih =>
      rw [mapHeredocsEntries, ih, List.map_cons]
      rfl

/-- The heredocs of the parts of a document change one by one. -/
@[simp] theorem Node.mapHeredocsChildren_eq (g : Text → Text) (ns : List Node) :
    mapHeredocsChildren g ns = ns.map (mapHeredocs g) := by
  induction ns with
  | nil => rfl
  | cons n ns ih => rw [mapHeredocsChildren, ih, List.map_cons]

mutual

/-- A value whose heredocs keep their texts stays as it is. -/
theorem Value.mapHeredocs_id : (v : Value) → v.mapHeredocs id = v
  | .literal k _ => by cases k <;> rfl
  | .list vs => by rw [mapHeredocs, Value.mapHeredocsItems_id vs]
  | .dictionary es => by rw [mapHeredocs, Value.mapHeredocsEntries_id es]

/-- Values whose heredocs keep their texts stay as they are. -/
theorem Value.mapHeredocsItems_id : (vs : List Value) → mapHeredocsItems id vs = vs
  | [] => rfl
  | v :: vs => by rw [mapHeredocsItems, Value.mapHeredocs_id v, Value.mapHeredocsItems_id vs]

/-- Entries whose heredocs keep their texts stay as they are. -/
theorem Value.mapHeredocsEntries_id : (es : List Attribute) → mapHeredocsEntries id es = es
  | [] => rfl
  | ⟨_, v, _⟩ :: es => by
      rw [mapHeredocsEntries, Value.mapHeredocs_id v, Value.mapHeredocsEntries_id es]

end

mutual

/-- A part of a document whose heredocs keep their texts stays as it is. -/
theorem Node.mapHeredocs_id : (n : Node) → n.mapHeredocs id = n
  | .attribute a => by rw [mapHeredocs, Attribute.mapHeredocs, Value.mapHeredocs_id]
  | .block ⟨_, _, cs, _⟩ => by rw [mapHeredocs, Node.mapHeredocsChildren_id cs]

/-- Parts of a document whose heredocs keep their texts stay as they are. -/
theorem Node.mapHeredocsChildren_id : (ns : List Node) → mapHeredocsChildren id ns = ns
  | [] => rfl
  | n :: ns => by rw [mapHeredocsChildren, Node.mapHeredocs_id n, Node.mapHeredocsChildren_id ns]

end

/-- A statement of a body with the texts of its heredocs changed. -/
def Mode.mapHeredocs (g : Text → Text) : (m : Mode) → m.Item → m.Item
  | .block, n => n.mapHeredocs g
  | .dictionary, a => Attribute.mapHeredocs g a

/-- The heredocs of an attribute are those of its value. -/
theorem Mode.mapHeredocs_ofAttribute (g : Text → Text) (m : Mode) (a : Attribute) :
    m.mapHeredocs g (m.ofAttribute a) = m.ofAttribute (Attribute.mapHeredocs g a) := by
  cases m with
  | block => simp [ofAttribute, mapHeredocs, Node.mapHeredocs]
  | dictionary => rfl

/-! ## Tokens with other heredocs -/

/-- A symbol with its text changed if it is a heredoc. -/
def Symbol.mapHeredoc (g : Text → Text) : Symbol → Symbol
  | .heredoc t => .heredoc (g t)
  | s => s

/-- A token with its text changed if it is a heredoc. -/
def Token.mapHeredoc (g : Text → Text) (t : Token) : Token :=
  ⟨t.symbol.mapHeredoc g, t.line⟩

/-- A token list with the texts of its heredocs changed. -/
def TokenList.mapHeredocs (g : Text → Text) (ts : TokenList) : TokenList :=
  ⟨ts.tokens.map (Token.mapHeredoc g), ts.endLine⟩

variable {g : Text → Text}

/-- A heredoc with another text is the scalar with that text. -/
theorem Symbol.literal?_mapHeredoc (s : Symbol) :
    (s.mapHeredoc g).literal? = s.literal?.map (Value.mapHeredocs g) := by
  cases s with
  | name t =>
      simp only [mapHeredoc, literal?]
      split <;> rfl
  | _ => rfl

/-- No heredoc is a name. -/
@[simp] theorem Symbol.name?_mapHeredoc (s : Symbol) : (s.mapHeredoc g).name? = s.name? := by
  cases s <;> rfl

@[simp] theorem Symbol.mapHeredoc_eq_mark_iff {s : Symbol} {k : Mark} :
    s.mapHeredoc g = .mark k ↔ s = .mark k := by
  cases s <;> simp [mapHeredoc]

@[simp] theorem Symbol.mapHeredoc_eq_newline_iff {s : Symbol} :
    s.mapHeredoc g = .newline ↔ s = .newline := by
  cases s <;> simp [mapHeredoc]

@[simp] theorem Symbol.mapHeredoc_eq_string_iff {s : Symbol} {t : Text} :
    s.mapHeredoc g = .string t ↔ s = .string t := by
  cases s <;> simp [mapHeredoc]

/-! ## Line ends in a row -/

/-- A token is a line end. -/
def Token.isNewline (t : Token) : Bool :=
  t.symbol == .newline

/-- Tokens with one line end, the first, in place of several in a row. -/
def squeeze : List Token → List Token
  | [] => []
  | t :: ts => t :: if t.isNewline then (squeeze ts).dropWhile Token.isNewline else squeeze ts

/-- The first token stays. -/
@[simp] theorem head?_squeeze (ts : List Token) : (squeeze ts).head? = ts.head? := by
  cases ts <;> rfl

/-- Behind a token that is no line end nothing changes. -/
theorem squeeze_tail {ts : List Token} (h : ∀ t, ts.head? = some t → t.isNewline = false) :
    squeeze ts.tail = (squeeze ts).tail := by
  cases ts with
  | nil => rfl
  | cons t ts => simp [squeeze, h t rfl]

/-- Behind the line ends that come first there are the same tokens. -/
theorem squeeze_dropWhile (ts : List Token) :
    squeeze (ts.dropWhile Token.isNewline) = (squeeze ts).dropWhile Token.isNewline := by
  induction ts with
  | nil => rfl
  | cons t ts ih =>
      cases ht : t.isNewline with
      | true => simp [squeeze, ht, ih, List.dropWhile_idempotent]
      | false => simp [squeeze, ht]

/-- Tokens in front of others stay in front. -/
theorem squeeze_append_congr {us ws : List Token} (h : squeeze us = squeeze ws)
    (ts : List Token) : squeeze (ts ++ us) = squeeze (ts ++ ws) := by
  induction ts with
  | nil => exact h
  | cons t ts ih => rw [List.cons_append, List.cons_append, squeeze, squeeze, ih]

/-- More line ends behind a line end make no difference. -/
theorem squeeze_lineEnds {ns : List Token} (hns : LineEnds ns) (ts us : List Token) (l : Int) :
    squeeze (ts ++ ⟨.newline, l⟩ :: (ns ++ us)) = squeeze (ts ++ ⟨.newline, l⟩ :: us) := by
  have hall : ∀ t ∈ ns, t.isNewline = true := by
    intro t ht
    simp [Token.isNewline, hns t ht]
  have hnewline : Token.isNewline ⟨.newline, l⟩ = true := rfl
  apply squeeze_append_congr
  rw [squeeze, squeeze, if_pos hnewline, if_pos hnewline, ← squeeze_dropWhile, ← squeeze_dropWhile,
    List.dropWhile_append_of_pos hall]

/-! ## Cursors -/

/-- Two cursors see the same, but for the texts of heredocs, which the second sees changed, and
for line ends in a row. -/
structure Cursor.Like (g : Text → Text) (c d : Cursor) : Prop where
  tokens : squeeze (c.ahead.map (Token.mapHeredoc g)) = squeeze d.ahead
  endLine : c.endLine = d.endLine

namespace Cursor

variable {c d : Cursor}

/-- Line ends are passed up to the first other token. -/
theorem ahead_pastNewlines (c : Cursor) :
    c.pastNewlines.ahead = c.ahead.dropWhile Token.isNewline :=
  Span.drop_length_takeWhile _ _

/-- A string that is next is one of the strings ahead. -/
theorem strings_of_string {s : Text} (h : c.symbol? = some (.string s)) :
    c.strings = s :: c.advance.strings ∧ c.pastStrings = c.advance.pastStrings := by
  rcases symbol?_eq_some_iff.mp h with ⟨ts, hts⟩
  have hstrings : c.strings = s :: c.advance.strings := by
    simp [strings, hts, strings.go]
  refine ⟨hstrings, ?_⟩
  rw [pastStrings_eq_skip, pastStrings_eq_skip, hstrings, advance_eq_skip, skip_skip,
    List.length_cons, Nat.add_comm]

/-- Where no string is next, none are ahead. -/
theorem strings_of_ne (h : ∀ s, c.symbol? ≠ some (.string s)) :
    c.strings = [] ∧ c.pastStrings = c := by
  have hnone : c.strings = ([] : List (Text × Int)).map Prod.fst :=
    strings_of_ahead rfl fun t s ht hs => h s (by rw [symbol?, ht, Option.map_some, hs])
  refine ⟨hnone, ?_⟩
  rw [pastStrings_eq_skip, hnone]
  rfl

namespace Like

/-- The same token is next, but for the text of a heredoc. -/
theorem head? (h : c.Like g d) : d.ahead.head? = c.ahead.head?.map (Token.mapHeredoc g) := by
  have hheads := congrArg List.head? h.tokens
  rw [head?_squeeze, head?_squeeze, List.head?_map] at hheads
  exact hheads.symm

/-- The same symbol is next, but for the text of a heredoc. -/
theorem symbol? (h : c.Like g d) : d.symbol? = c.symbol?.map (Symbol.mapHeredoc g) := by
  rw [Cursor.symbol?, Cursor.symbol?, h.head?]
  cases c.ahead.head? <;> rfl

/-- Both are on the same line. -/
theorem line (h : c.Like g d) : c.line = d.line := by
  rw [Cursor.line, Cursor.line, h.head?, h.endLine]
  cases c.ahead.head? <;> rfl

/-- The same marks are next. -/
theorem atMark (h : c.Like g d) (k : Mark) : d.atMark k = c.atMark k := by
  rw [Bool.eq_iff_iff, atMark_iff, atMark_iff, h.symbol?]
  simp

/-- The same separators are next. -/
theorem atSeparator (h : c.Like g d) (m : Mode) : d.atSeparator m = c.atSeparator m := by
  rw [Bool.eq_iff_iff, atSeparator_iff, atSeparator_iff, h.symbol?]
  simp

/-- A statement may be over for both or for none. -/
theorem atStatementEnd (h : c.Like g d) : d.atStatementEnd = c.atStatementEnd := by
  rw [Cursor.atStatementEnd, Cursor.atStatementEnd, h.symbol?]
  cases c.symbol? with
  | none => rfl
  | some s => cases s <;> rfl

/-- Both see the like behind a token that is no line end. -/
theorem advance (h : c.Like g d) (hc : c.symbol? ≠ some .newline) :
    c.advance.Like g d.advance := by
  refine ⟨?_, h.endLine⟩
  have hleft : ∀ t, (c.ahead.map (Token.mapHeredoc g)).head? = some t → t.isNewline = false := by
    intro t ht
    rw [List.head?_map] at ht
    rcases Option.map_eq_some_iff.mp ht with ⟨u, hu, rfl⟩
    have hne : u.symbol ≠ .newline := by
      intro hs
      exact hc (by rw [Cursor.symbol?, hu, Option.map_some, hs])
    simpa [Token.isNewline, Token.mapHeredoc] using hne
  have hright : ∀ t, d.ahead.head? = some t → t.isNewline = false := by
    intro t ht
    rw [h.head?, ← List.head?_map] at ht
    exact hleft t ht
  rw [ahead_advance, ahead_advance, List.map_tail, squeeze_tail hleft, squeeze_tail hright,
    h.tokens]

/-- Both see the like behind a token that is the same for both and no line end. -/
theorem advance_of_symbol? (h : c.Like g d) {s : Symbol} (hs : c.symbol? = some s)
    (hne : s ≠ .newline) : c.advance.Like g d.advance :=
  h.advance fun hc => hne (Option.some.inj (hs.symm.trans hc))

/-- Both see the like behind a mark. -/
theorem advance_of_atMark (h : c.Like g d) {k : Mark} (hk : c.atMark k = true) :
    c.advance.Like g d.advance :=
  h.advance_of_symbol? (atMark_iff.mp hk) (by simp)

/-- Both see the like behind line ends. -/
theorem pastNewlines (h : c.Like g d) : c.pastNewlines.Like g d.pastNewlines := by
  refine ⟨?_, h.endLine⟩
  have hsame : Token.isNewline ∘ Token.mapHeredoc g = Token.isNewline := by
    funext t
    rw [Function.comp_apply, Bool.eq_iff_iff]
    simp [Token.isNewline, Token.mapHeredoc]
  have hmap : (c.ahead.dropWhile Token.isNewline).map (Token.mapHeredoc g) =
      (c.ahead.map (Token.mapHeredoc g)).dropWhile Token.isNewline := by
    rw [List.dropWhile_map, hsame]
  rw [ahead_pastNewlines, ahead_pastNewlines, hmap, squeeze_dropWhile, squeeze_dropWhile, h.tokens]

/-- Both see the same strings ahead, and the like behind them. -/
theorem pastStrings {c d : Cursor} (h : c.Like g d) :
    c.strings = d.strings ∧ c.pastStrings.Like g d.pastStrings := by
  by_cases hstring : ∃ s, c.symbol? = some (.string s)
  · rcases hstring with ⟨s, hs⟩
    have hd : d.symbol? = some (.string s) := by rw [h.symbol?, hs]; rfl
    have hpos := length_ahead_pos hs
    rcases strings_of_string hs with ⟨hstrings, hpast⟩
    rcases strings_of_string hd with ⟨hstrings', hpast'⟩
    rcases pastStrings (h.advance_of_symbol? hs (by simp)) with ⟨hlater, hlike⟩
    rw [hstrings, hstrings', hpast, hpast', hlater]
    exact ⟨rfl, hlike⟩
  · have hc : ∀ s, c.symbol? ≠ some (.string s) := not_exists.mp hstring
    have hd : ∀ s, d.symbol? ≠ some (.string s) := by
      intro s hs
      rw [h.symbol?] at hs
      rcases Option.map_eq_some_iff.mp hs with ⟨u, hu, hmap⟩
      rw [Symbol.mapHeredoc_eq_string_iff.mp hmap] at hu
      exact hc s hu
    rcases strings_of_ne hc with ⟨hstrings, hpast⟩
    rcases strings_of_ne hd with ⟨hstrings', hpast'⟩
    rw [hstrings, hstrings', hpast, hpast']
    exact ⟨rfl, h⟩
termination_by c.ahead.length
decreasing_by
  rw [length_ahead_advance]
  omega

end Like

end Cursor

/-! ## Readings -/

/-- Two readings fail on the same line, or both have a result, the second with the heredocs
changed, and cursors behind it that see the like. -/
inductive Reading.Like {α : Type} (g : Text → Text) (k : α → α) : Reading α → Reading α → Prop
  | ok {a : α} {c d : Cursor} (hnext : c.Like g d) : Like g k (.ok a, c) (.ok (k a), d)
  | error {e e' : Error} {c d : Cursor} (hline : e.line = e'.line) :
      Like g k (.error e, c) (.error e', d)

/-- What is made of readings that are alike is alike. -/
theorem Reading.Like.map {α β : Type} {k : α → α} {l : β → β} {f f' : α → β}
    {r s : Reading α} (h : r.Like g k s) (hf : ∀ a, f' (k a) = l (f a)) :
    (r.map f).Like g l (s.map f') := by
  cases h with
  | ok hnext =>
      rw [Reading.map_ok, Reading.map_ok, hf]
      exact .ok hnext
  | error hline => exact .error hline

/-! ## Readers -/

variable {c d : Cursor} {m : Mode} {nested : Bool}

/-- Every reader gives the like from two cursors. -/
structure Alike (g : Text → Text) (c d : Cursor) : Prop where
  value : c.value.reading.Like g (Value.mapHeredocs g) d.value.reading
  items : c.items.reading.Like g (List.map (Value.mapHeredocs g)) d.items.reading
  statement : ∀ m, (c.statement m).reading.Like g (m.mapHeredocs g) (d.statement m).reading
  body : ∀ m nested, (c.body m nested).reading.Like g (List.map (m.mapHeredocs g))
    (d.body m nested).reading

/-- The readers do so from all cursors that see the like, the first with fewer tokens ahead. -/
def AlikeBelow (g : Text → Text) (c : Cursor) : Prop :=
  ∀ c' d' : Cursor, c'.ahead.length < c.ahead.length → c'.Like g d' → Alike g c' d'

/-- Behind line ends no more tokens are ahead. -/
theorem AlikeBelow.pastNewlines (ih : AlikeBelow g c) : AlikeBelow g c.pastNewlines :=
  fun c' d' hc => ih c' d' (hc.trans_le (Cursor.length_ahead_pastNewlines_le c))

/-- Values are read alike where lists and dictionaries are. -/
theorem value_reading_like (h : c.Like g d) (ih : AlikeBelow g c) :
    c.value.reading.Like g (Value.mapHeredocs g) d.value.reading := by
  rw [Cursor.value_reading, Cursor.value_reading, h.symbol?]
  cases hs : c.symbol? with
  | none => exact .error h.line
  | some s =>
      have hpos := Cursor.length_ahead_pos hs
      simp only [Option.map_some, Symbol.literal?_mapHeredoc]
      cases hl : s.literal? with
      | some v =>
          refine .ok (h.advance_of_symbol? hs ?_)
          rintro rfl
          contradiction
      | none =>
          simp only [Option.map_none, Symbol.mapHeredoc_eq_mark_iff]
          split
          · next hopen =>
            have hbehind := ih c.advance d.advance (by simp; omega)
              (h.advance_of_symbol? hs (by simp [hopen]))
            exact hbehind.items.map fun vs => by simp [Value.mapHeredocs]
          · split
            · next hopen =>
              have hbehind := ih c.advance d.advance (by simp; omega)
                (h.advance_of_symbol? hs (by simp [hopen]))
              refine (hbehind.body .dictionary true).map fun es => ?_
              simp [Value.mapHeredocs, Mode.mapHeredocs]
            · exact .error h.line

/-- The insides of lists are read alike where their values are. -/
theorem items_reading_like (h : c.Like g d) (ih : AlikeBelow g c) :
    c.items.reading.Like g (List.map (Value.mapHeredocs g)) d.items.reading := by
  have hle := Cursor.length_ahead_pastNewlines_le c
  have hpast := h.pastNewlines
  rw [Cursor.items_reading, Cursor.items_reading, hpast.atMark]
  split
  · next hclose => exact .ok (hpast.advance_of_atMark hclose)
  · have hvalue := value_reading_like hpast ih.pastNewlines
    cases hread : c.pastNewlines.value.reading with
    | mk result next =>
        rw [hread] at hvalue
        generalize d.pastNewlines.value.reading = r at hvalue
        cases hvalue with
        | error hline => exact .error hline
        | @ok v _ next' hnext =>
            have hshort := Outcome.length_lt_of_reading hread
            have hle' := Cursor.length_ahead_pastNewlines_le next
            simp only [hnext.pastNewlines.atMark]
            split
            · next hcomma =>
              have hrest := ih next.pastNewlines.advance next'.pastNewlines.advance
                (by simp; omega) (hnext.pastNewlines.advance_of_atMark hcomma)
              exact hrest.items.map fun vs => rfl
            · split
              · next hclose => exact .ok (hnext.pastNewlines.advance_of_atMark hclose)
              · exact .error hnext.pastNewlines.line

/-- Statements are read alike where their values and bodies are. -/
theorem statement_reading_like (h : c.Like g d) (ih : AlikeBelow g c) :
    (c.statement m).reading.Like g (m.mapHeredocs g) (d.statement m).reading := by
  have hnames : d.symbol?.bind Symbol.name? = c.symbol?.bind Symbol.name? := by
    rw [h.symbol?]
    cases c.symbol? <;> simp
  rw [Cursor.statement_reading, Cursor.statement_reading, hnames]
  cases hname : c.symbol?.bind Symbol.name? with
  | none => exact .error h.line
  | some name =>
      rcases Option.bind_eq_some_iff.mp hname with ⟨s, hs, hsname⟩
      have hpos := Cursor.length_ahead_pos hs
      have hbehind : c.advance.Like g d.advance :=
        h.advance_of_symbol? hs (named_iff.mpr hsname).ne.1
      simp only [hbehind.atSeparator]
      split
      · next hseparator =>
        rcases Cursor.atSeparator_iff.mp hseparator with ⟨q, hq, -⟩
        have hvalue := ih c.advance.advance d.advance.advance (by simp; omega)
          (hbehind.advance_of_symbol? hq (by simp))
        refine hvalue.value.map fun v => ?_
        rw [Mode.mapHeredocs_ofAttribute, ← h.line]
        rfl
      · cases m with
        | dictionary => exact .error h.line
        | block =>
            have hlength := Cursor.length_ahead_pastStrings_le c.advance
            rcases hbehind.pastStrings with ⟨hstrings, hpast⟩
            simp only [hpast.atMark]
            split
            · next hopen =>
              have hbody := ih c.advance.pastStrings.advance d.advance.pastStrings.advance
                (by simp at hlength ⊢; omega) (hpast.advance_of_atMark hopen)
              refine (hbody.body .block true).map fun ns => ?_
              rw [Mode.mapHeredocs, Node.mapHeredocs, Node.mapHeredocsChildren_eq, hstrings, h.line]
              rfl
            · exact .error hpast.line

/-- What follows a statement is read alike where bodies are. -/
theorem afterStatement_like (h : c.Like g d)
    (hbehind : c.atMark .comma = true → Alike g c.advance d.advance) (hhere : Alike g c d) :
    (c.afterStatement m nested).Like g (List.map (m.mapHeredocs g))
      (d.afterStatement m nested) := by
  simp only [Cursor.afterStatement, h.atMark, h.atStatementEnd]
  split
  · next hcomma => exact (hbehind hcomma.2).body m nested
  · split
    · exact hhere.body m nested
    · exact .error h.line

/-- Bodies are read alike where their statements are. -/
theorem body_reading_like (h : c.Like g d) (ih : AlikeBelow g c) :
    (c.body m nested).reading.Like g (List.map (m.mapHeredocs g)) (d.body m nested).reading := by
  have hle := Cursor.length_ahead_pastNewlines_le c
  have hpast := h.pastNewlines
  have hend : d.pastNewlines.symbol? = none ↔ c.pastNewlines.symbol? = none := by
    rw [hpast.symbol?, Option.map_eq_none_iff]
  rw [Cursor.body_reading, Cursor.body_reading, hpast.atMark]
  simp only [hend]
  split
  · split
    · exact .error hpast.line
    · exact .ok hpast
  · split
    · next hclose =>
      split
      · exact .ok (hpast.advance_of_atMark hclose)
      · exact .error hpast.line
    · have hstatement := statement_reading_like (m := m) hpast ih.pastNewlines
      cases hread : (c.pastNewlines.statement m).reading with
      | mk result next =>
          rw [hread] at hstatement
          generalize (d.pastNewlines.statement m).reading = r at hstatement
          cases hstatement with
          | error hline => exact .error hline
          | @ok s _ next' hnext =>
              have hshort := Outcome.length_lt_of_reading hread
              have hbehind (hcomma : next.atMark .comma = true) :
                  Alike g next.advance next'.advance :=
                ih _ _ (by simp; omega) (hnext.advance_of_atMark hcomma)
              have hhere : Alike g next next' := ih _ _ (by omega) hnext
              exact (afterStatement_like hnext hbehind hhere).map fun ss => rfl

/-- Every reader gives the like from cursors that see the like. -/
theorem alike {c d : Cursor} (h : c.Like g d) : Alike g c d := by
  -- Every reader calls others only where fewer tokens are ahead, or moves on first.
  have hbelow : AlikeBelow g c := fun _ _ _ hlike => alike hlike
  exact {
    value := value_reading_like h hbelow
    items := items_reading_like h hbelow
    statement := fun m => statement_reading_like h hbelow
    body := fun m nested => body_reading_like h hbelow }
termination_by c.ahead.length

/-! ## Documents -/

/-- Token lists that differ in the texts of heredocs and in line ends in a row only are read
alike. -/
theorem document_result_like {ts us : TokenList}
    (htokens : squeeze (ts.tokens.map (Token.mapHeredoc g)) = squeeze us.tokens)
    (hend : ts.endLine = us.endLine) :
    (∀ d, ts.document.result = .ok d →
      us.document.result = .ok (d.map (Node.mapHeredocs g))) ∧
    (∀ e, ts.document.result = .error e →
      ∃ e', us.document.result = .error e' ∧ e'.line = e.line) := by
  have hread := (alike (g := g) (c := ts.start) (d := us.start) ⟨htokens, hend⟩).body .block false
  have hts : (ts.start.body .block false).reading =
      (ts.document.result, ts.document.cursor) := rfl
  have hus : (us.start.body .block false).reading =
      (us.document.result, us.document.cursor) := rfl
  rw [hts, hus] at hread
  constructor
  · intro e he
    rw [he] at hread
    generalize us.document.result = r at hread
    cases hread with
    | ok => rfl
  · intro e he
    rw [he] at hread
    generalize us.document.result = r at hread
    cases hread with
    | @error _ e' _ _ hline => exact ⟨e', rfl, hline.symm⟩

end Ocl

end DeployGate
