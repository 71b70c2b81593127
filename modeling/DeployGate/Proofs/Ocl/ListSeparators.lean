import DeployGate.Proofs.Ocl.FailedReading

/-!
# What separates the items of a list

The items of a list stand apart if a comma or a line end is between any two of them.  Only a comma
counts: line ends are passed before the next token is looked at, and a line end that has been
passed is forgotten.  So a list is read exactly if there is a comma between any two of its items,
and otherwise the first item that has no comma in front of it is blamed.

Main results:

- Definition `SeparatedList`: items with separators of both kinds, as tokens.
- Theorem `SeparatedList.reading_iff_commas`: what such a list is read as.
- Theorem `list_on_two_lines`: a line end alone does not separate.
-/

namespace DeployGate

namespace Ocl

/-! ## Separated items -/

/-- The tokens of line ends on some lines. -/
def lineEndTokens (ls : List Int) : List Token :=
  ls.map (Token.mk .newline)

/-- The token of a comma on a line. -/
def commaToken (l : Int) : Token :=
  ⟨.mark .comma, l⟩

/-- What stands between two items of a list: a comma with line ends on both sides, or line ends
alone and then at least one. -/
inductive Separator where
  | comma (front : List Int) (line : Int) (back : List Int)
  | lineEnds (line : Int) (more : List Int)

namespace Separator

/-- The tokens of a separator. -/
def tokens : Separator → List Token
  | comma front line back => lineEndTokens front ++ commaToken line :: lineEndTokens back
  | lineEnds line more => lineEndTokens (line :: more)

/-- Whether there is a comma in a separator. -/
def HasComma : Separator → Prop
  | comma _ _ _ => True
  | lineEnds _ _ => False

end Separator

/-- An item of a list: the tokens of a value, and what they denote. -/
structure ListItem where
  tokens : List Token
  value : Value
  derives : Derives .value tokens value

/-- Items that each have a separator in front, as tokens. -/
def separatedTokens (more : List (Separator × ListItem)) : List Token :=
  more.flatMap fun p => p.1.tokens ++ p.2.tokens

/-- What may stand behind the last item of a list: a comma with line ends in front, or nothing. -/
def trailingTokens : Option (List Int × Int) → List Token
  | none => []
  | some (front, line) => lineEndTokens front ++ [commaToken line]

/-- A list in brackets whose items stand apart: line ends behind the opening bracket, items with
separators between them, perhaps a comma, and line ends in front of the closing bracket. -/
structure SeparatedList where
  openLine : Int
  opening : List Int
  first : ListItem
  more : List (Separator × ListItem)
  trailing : Option (List Int × Int)
  closing : List Int
  closeLine : Int

namespace SeparatedList

/-- The tokens of a list between its brackets. -/
def inside (b : SeparatedList) : List Token :=
  lineEndTokens b.opening ++ b.first.tokens ++ separatedTokens b.more ++
    trailingTokens b.trailing ++ lineEndTokens b.closing

/-- The tokens of a list. -/
def tokens (b : SeparatedList) : List Token :=
  ⟨.mark .bracketOpen, b.openLine⟩ :: b.inside ++ [⟨.mark .bracketClose, b.closeLine⟩]

/-- The values of a list. -/
def values (b : SeparatedList) : List Value :=
  b.first.value :: b.more.map fun p => p.2.value

/-- The tokens of a list up to an item, the separators of some items in front of it being given. -/
def upTo (b : SeparatedList) (before : List (Separator × ListItem)) (s : Separator) :
    List Token :=
  ⟨.mark .bracketOpen, b.openLine⟩ :: lineEndTokens b.opening ++ b.first.tokens ++
    separatedTokens before ++ s.tokens

end SeparatedList

/-- Line ends are line ends. -/
theorem lineEnds_lineEndTokens (ls : List Int) : LineEnds (lineEndTokens ls) := by
  intro t ht
  rcases List.mem_map.mp ht with ⟨l, -, rfl⟩
  rfl

/-- The items behind the first one have their own separator each. -/
theorem separatedTokens_cons (s : Separator) (i : ListItem) (more : List (Separator × ListItem)) :
    separatedTokens ((s, i) :: more) = s.tokens ++ i.tokens ++ separatedTokens more := by
  rw [separatedTokens, List.flatMap_cons]
  rfl

/-- A separator without a comma is line ends. -/
theorem Separator.lineEnds_tokens {s : Separator} (h : ¬s.HasComma) : LineEnds s.tokens := by
  cases s with
  | comma front line back => exact absurd trivial h
  | lineEnds line more => exact lineEnds_lineEndTokens (line :: more)

/-! ## Lists with commas -/

/-- One item is the inside of a list, also with a comma behind it. -/
theorem derives_items_of_last {ns us : List Token} {v : Value} (hns : LineEnds ns)
    (hus : Derives .value us v) (trailing : Option (List Int × Int)) (closing : List Int) :
    Derives .items (ns ++ us ++ trailingTokens trailing ++ lineEndTokens closing) [v] := by
  have hclosing := lineEnds_lineEndTokens closing
  rcases trailing with - | ⟨front, line⟩
  · simpa [trailingTokens] using Derives.lastItem hns hus hclosing
  · have hitem := Derives.item (l := line) hns hus (lineEnds_lineEndTokens front)
      (.noItem hclosing)
    simpa [trailingTokens, commaToken] using hitem

/-- Items with a comma between any two of them are the inside of a list. -/
theorem derives_items_of_commas {ns : List Token} (hns : LineEnds ns) (i : ListItem)
    {more : List (Separator × ListItem)} (hcommas : ∀ p ∈ more, p.1.HasComma)
    (trailing : Option (List Int × Int)) (closing : List Int) :
    Derives .items (ns ++ i.tokens ++ separatedTokens more ++ trailingTokens trailing ++
      lineEndTokens closing) (i.value :: more.map fun p => p.2.value) := by
  induction more generalizing ns i with
  | nil => simpa [separatedTokens] using derives_items_of_last hns i.derives trailing closing
  | cons p more ih =>
      rcases p with ⟨s, j⟩
      have hcomma := hcommas (s, j) List.mem_cons_self
      cases s with
      | lineEnds line ends => exact hcomma.elim
      | comma front line back =>
          have hrest := ih (lineEnds_lineEndTokens back) j
            (fun p hp => hcommas p (List.mem_cons_of_mem _ hp))
          have hitem := Derives.item (l := line) hns i.derives (lineEnds_lineEndTokens front) hrest
          simpa [separatedTokens_cons, Separator.tokens, commaToken] using hitem

/-! ## Lists without a comma somewhere -/

/-- What starts a value is no comma. -/
theorem Symbol.StartsValue.ne_comma {s : Symbol} (h : s.StartsValue) : s ≠ .mark .comma := by
  rcases h with h | rfl | rfl
  · rintro rfl
    simp [Symbol.literal?] at h
  · simp
  · simp

variable {c : Cursor} {rest ns : List Token}

/-- Items with a comma behind the first one are read from behind that comma on. -/
theorem items_reading_of_comma (hns : LineEnds ns) (i : ListItem) {ms : List Token} {l : Int}
    (hms : LineEnds ms) (h : c.ahead = ns ++ i.tokens ++ ms ++ [commaToken l] ++ rest) :
    c.items.reading =
      (c.skip (ns ++ i.tokens ++ ms ++ [commaToken l]).length).items.reading.map
        (i.value :: ·) := by
  rw [List.append_assoc _ [commaToken l]] at h
  have hsymbol : (c.skip (ns ++ i.tokens ++ ms).length).symbol? = some (.mark .comma) :=
    Cursor.symbol?_of_ahead (Cursor.ahead_skip_of_ahead h)
  have hnext : (c.skip (ns ++ i.tokens ++ ms).length).symbol? ≠ some .newline := by
    rw [hsymbol]
    simp
  rw [items_reading_of_value hns i.derives hms ⟨_, h.symm⟩ hnext, Cursor.afterItem,
    if_pos (Cursor.atMark_iff.mpr hsymbol), Cursor.advance_skip_length c _ (commaToken l)]

/-- The second item is blamed if line ends alone are in front of it. -/
theorem items_reading_of_no_comma (hns : LineEnds ns) (i : ListItem) {s : Separator}
    (hs : ¬s.HasComma) {t : Token}
    (hstart : t.symbol.StartsValue) (h : c.ahead = ns ++ i.tokens ++ s.tokens ++ t :: rest) :
    c.items.reading = (.error ⟨t.line, .commaExpected t.symbol.description⟩,
      c.skip (ns ++ i.tokens ++ s.tokens).length) := by
  have hahead := Cursor.ahead_skip_of_ahead h
  have hsymbol := Cursor.symbol?_of_ahead hahead
  have hnext : (c.skip (ns ++ i.tokens ++ s.tokens).length).symbol? ≠ some .newline := by
    rw [hsymbol]
    simpa using hstart.ne.1
  have hcomma : ¬(c.skip (ns ++ i.tokens ++ s.tokens).length).atMark .comma = true := by
    rw [Cursor.atMark_iff, hsymbol]
    simpa using hstart.ne_comma
  have hclose : ¬(c.skip (ns ++ i.tokens ++ s.tokens).length).atMark .bracketClose = true := by
    rw [Cursor.atMark_iff, hsymbol]
    simpa using hstart.ne.2
  rw [items_reading_of_value hns i.derives (s.lineEnds_tokens hs) ⟨_, h.symm⟩ hnext,
    Cursor.afterItem, if_neg hcomma, if_neg hclose, Cursor.line_of_ahead hahead, Cursor.found,
    hsymbol]
  rfl

/-- The first item with line ends alone in front of it is blamed. -/
theorem items_reading_of_first_no_comma (hns : LineEnds ns) (i : ListItem)
    {before : List (Separator × ListItem)} (hcommas : ∀ p ∈ before, p.1.HasComma)
    {s : Separator} (hs : ¬s.HasComma) {t : Token} (hstart : t.symbol.StartsValue)
    (h : c.ahead = ns ++ i.tokens ++ separatedTokens before ++ s.tokens ++ t :: rest) :
    c.items.reading = (.error ⟨t.line, .commaExpected t.symbol.description⟩,
      c.skip (ns ++ i.tokens ++ separatedTokens before ++ s.tokens).length) := by
  induction before generalizing c ns i with
  | nil =>
      have hnil : separatedTokens [] = [] := rfl
      rw [hnil, List.append_nil] at h ⊢
      exact items_reading_of_no_comma hns i hs hstart h
  | cons p before ih =>
      rcases p with ⟨q, j⟩
      have hcomma := hcommas (q, j) List.mem_cons_self
      cases q with
      | lineEnds line ends => exact hcomma.elim
      | comma front line back =>
          have hfront : c.ahead = ns ++ i.tokens ++ lineEndTokens front ++ [commaToken line] ++
              (lineEndTokens back ++ j.tokens ++ separatedTokens before ++ s.tokens ++
                t :: rest) := by
            simpa [separatedTokens_cons, Separator.tokens] using h
          have hrest := ih (lineEnds_lineEndTokens back) j
            (fun p hp => hcommas p (List.mem_cons_of_mem _ hp))
            (Cursor.ahead_skip_of_ahead hfront)
          rw [items_reading_of_comma hns i (lineEnds_lineEndTokens front) hfront, hrest,
            Reading.map_error, ← Cursor.skip_length_append]
          simp [separatedTokens_cons, Separator.tokens]

/-! ## Lists -/

namespace SeparatedList

variable {b : SeparatedList}

/-- A list with a comma between any two of its items is read. -/
theorem reading_of_commas (hcommas : ∀ p ∈ b.more, p.1.HasComma)
    (h : c.ahead = b.tokens ++ rest) :
    c.value.reading = (.ok (.list b.values), c.skip b.tokens.length) := by
  have hinside : Derives .items b.inside b.values :=
    derives_items_of_commas (lineEnds_lineEndTokens b.opening) b.first hcommas b.trailing
      b.closing
  exact (Derives.list hinside).reads c rest h

/-- A list is not read if line ends alone are between two of its items.  The first item that has
no comma in front of it is blamed, and nothing of it is passed. -/
theorem reading_of_no_comma {before after : List (Separator × ListItem)} {s : Separator}
    {i : ListItem} (hmore : b.more = before ++ (s, i) :: after)
    (hcommas : ∀ p ∈ before, p.1.HasComma) (hs : ¬s.HasComma) (h : c.ahead = b.tokens ++ rest) :
    ∃ t ts, i.tokens = t :: ts ∧ c.value.reading =
      (.error ⟨t.line, .commaExpected t.symbol.description⟩, c.skip (b.upTo before s).length) := by
  rcases i.derives.value_head with ⟨t, ts, hi, hstart⟩
  refine ⟨t, ts, hi, ?_⟩
  have hopen : c.symbol? = some (.mark .bracketOpen) := Cursor.symbol?_of_ahead h
  have hsplit : separatedTokens b.more =
      separatedTokens before ++ s.tokens ++ t :: (ts ++ separatedTokens after) := by
    rw [hmore, separatedTokens, List.flatMap_append]
    simp [separatedTokens, hi]
  have hahead : c.advance.ahead = lineEndTokens b.opening ++ b.first.tokens ++
      separatedTokens before ++ s.tokens ++ t :: (ts ++ separatedTokens after ++
        trailingTokens b.trailing ++ lineEndTokens b.closing ++
          [⟨.mark .bracketClose, b.closeLine⟩] ++ rest) := by
    simp [h, tokens, inside, hsplit]
  have hitems := items_reading_of_first_no_comma (lineEnds_lineEndTokens b.opening) b.first
    hcommas hs hstart hahead
  rw [Cursor.value_reading, hopen]
  simp only [Symbol.literal?, if_true, hitems, Reading.map_error]
  rw [upTo, List.cons_append, List.cons_append, List.cons_append, Cursor.skip_length_cons]

/-- Between the items of a list commas are everywhere, or there is a first place without one. -/
theorem commas_or_first_no_comma (more : List (Separator × ListItem)) :
    (∀ p ∈ more, p.1.HasComma) ∨
      ∃ before s i after, more = before ++ (s, i) :: after ∧
        (∀ p ∈ before, p.1.HasComma) ∧ ¬s.HasComma := by
  induction more with
  | nil => exact .inl (by simp)
  | cons p more ih =>
      by_cases hp : p.1.HasComma
      · rcases ih with hall | ⟨before, s, i, after, rfl, hcommas, hs⟩
        · exact .inl (List.forall_mem_cons.mpr ⟨hp, hall⟩)
        · exact .inr ⟨p :: before, s, i, after, rfl, List.forall_mem_cons.mpr ⟨hp, hcommas⟩, hs⟩
      · exact .inr ⟨[], p.1, p.2, more, rfl, by simp, hp⟩

/-- A list whose items stand apart is read exactly if there is a comma between any two of them,
and then as its values, in order.  Otherwise the first item with line ends alone in front of it is
blamed, with its line. -/
theorem reading_iff_commas (h : c.ahead = b.tokens ++ rest) :
    ((∃ next, c.value.reading = (.ok (.list b.values), next)) ↔ ∀ p ∈ b.more, p.1.HasComma) ∧
      ((∀ p ∈ b.more, p.1.HasComma) →
        c.value.reading = (.ok (.list b.values), c.skip b.tokens.length)) ∧
      ∀ before s i after, b.more = before ++ (s, i) :: after →
        (∀ p ∈ before, p.1.HasComma) → ¬s.HasComma →
        ∃ t ts, i.tokens = t :: ts ∧ c.value.reading =
          (.error ⟨t.line, .commaExpected t.symbol.description⟩,
            c.skip (b.upTo before s).length) := by
  refine ⟨⟨?_, ?_⟩, fun hcommas => reading_of_commas hcommas h,
    fun before s i after hmore hcommas hs => reading_of_no_comma hmore hcommas hs h⟩
  · rintro ⟨next, hread⟩
    rcases commas_or_first_no_comma b.more with hall | ⟨before, s, i, after, hmore, hcommas, hs⟩
    · exact hall
    · rcases reading_of_no_comma hmore hcommas hs h with ⟨t, ts, -, hfails⟩
      rw [hread] at hfails
      cases hfails
  · intro hcommas
    exact ⟨_, reading_of_commas hcommas h⟩

/-- A number as an item of a list. -/
def numberItem (t : Text) (l : Int) : ListItem :=
  ⟨[⟨.number t, l⟩], .literal .number t, .scalar (.number t)⟩

/-- Three numbers on lines of their own, with a comma at the end of the first and the last line. -/
def oneCommaShort : SeparatedList where
  openLine := 1
  opening := [1]
  first := numberItem ['1'] 2
  more := [(.comma [] 2 [2], numberItem ['2'] 3), (.lineEnds 3 [], numberItem ['3'] 4)]
  trailing := some ([], 4)
  closing := [4]
  closeLine := 5

/-- Two numbers on lines of their own. -/
def twoLines : SeparatedList where
  openLine := 1
  opening := []
  first := numberItem ['1'] 1
  more := [(.lineEnds 1 [], numberItem ['2'] 2)]
  trailing := none
  closing := []
  closeLine := 2

/-- The third number is blamed, since there is no comma in front of it. -/
theorem reading_iff_commas_oneCommaShort :
    (Cursor.mk oneCommaShort.tokens 5 0).value.reading =
      (.error ⟨4, .commaExpected ['3']⟩,
        (Cursor.mk oneCommaShort.tokens 5 0).skip 7) := by
  have hahead : (Cursor.mk oneCommaShort.tokens 5 0).ahead = oneCommaShort.tokens ++ [] := by
    rw [List.append_nil]
  rcases reading_iff_commas hahead with ⟨-, -, hblamed⟩
  have hcommas : ∀ p ∈ [(Separator.comma [] 2 [2], numberItem ['2'] 3)], p.1.HasComma := by
    intro p hp
    rcases List.mem_singleton.mp hp with rfl
    trivial
  rcases hblamed [(.comma [] 2 [2], numberItem ['2'] 3)] (.lineEnds 3 []) (numberItem ['3'] 4) []
    rfl hcommas id with ⟨t, ts, hitem, hread⟩
  cases hitem
  exact hread

end SeparatedList

/-- Two numbers on lines of their own are the tokens of a list whose items stand apart, and no
list. -/
theorem list_on_two_lines :
    tokens "x = [1\n2]".toList =
        .ok ⟨⟨.name ['x'], 1⟩ :: ⟨.mark .equals, 1⟩ :: SeparatedList.twoLines.tokens, 2⟩ ∧
      SeparatedList.twoLines.values = [.literal .number ['1'], .literal .number ['2']] ∧
      Document.read "x = [1\n2]".toList = .error ⟨2, .commaExpected ['2']⟩ := by
  have htokens : tokens "x = [1\n2]".toList =
      .ok ⟨⟨.name ['x'], 1⟩ :: ⟨.mark .equals, 1⟩ :: SeparatedList.twoLines.tokens, 2⟩ := by cbv
  have hread : Document.read "x = [1\n2]".toList = .error ⟨2, .commaExpected ['2']⟩ := by cbv
  exact ⟨htokens, rfl, hread⟩

end Ocl

end DeployGate
