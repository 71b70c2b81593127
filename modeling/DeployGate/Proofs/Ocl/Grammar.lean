import DeployGate.Proofs.Ocl.Reading

/-!
# The grammar of documents

The grammar says which tokens make up a document, and what they denote.  It knows
nothing of cursors: it is a relation between tokens and what is built from them.

With `NL` for a line end, `N` for a name and `m` for the kind of a body, the rules are

    V        ::=  string | heredoc | number | name | '[' L ']' | '{' B(dictionary) '}'
    L        ::=  NL*  |  NL* V NL*  |  NL* V NL* ',' L
    B(m)     ::=  NL*  |  NL* S(m) T(m)
    T(m)     ::=  nothing  |  NL B(m)  |  ',' B(dictionary)  in a dictionary
    S(block) ::=  N '=' V  |  N string* '{' B(block) '}'
    S(dictionary)  ::=  N '=' V  |  N ':' V
    N        ::=  name | string

Main results:

- Definition `Derives`: the rules, one constructor for each alternative.
- Theorems `Derives.value_head` and `Derives.statement_head` say what values and
  statements start with.
-/

namespace DeployGate

namespace Ocl

/-! ## Leaves -/

/-- A name denotes itself, and a string what stands between its quotation marks. -/
inductive Named : Symbol → Text → Prop
  | name (t : Text) : Named (.name t) t
  | string (t : Text) : Named (.string t) t.inner

/-- A scalar denotes its text as written.  The names `true` and `false` are truth
values, all other names are identifiers. -/
inductive Scalar : Symbol → Value → Prop
  | string (t : Text) : Scalar (.string t) (.literal .string t)
  | heredoc (t : Text) : Scalar (.heredoc t) (.literal .heredoc t)
  | number (t : Text) : Scalar (.number t) (.literal .number t)
  | true : Scalar (.name "true".toList) (.literal .boolean "true".toList)
  | false : Scalar (.name "false".toList) (.literal .boolean "false".toList)
  | identifier (t : Text) (htrue : t ≠ "true".toList) (hfalse : t ≠ "false".toList) :
      Scalar (.name t) (.literal .identifier t)

/-- Tokens that are line ends and nothing else. -/
def LineEnds (ts : List Token) : Prop :=
  ∀ t ∈ ts, t.symbol = .newline

/-! ## Rules -/

/-- What the rules of the grammar are about: values, the insides of lists, bodies,
what may follow a statement of a body, and statements. -/
inductive Nonterminal where
  | value
  | items
  | body (m : Mode)
  | rest (m : Mode)
  | statement (m : Mode)

/-- What is built from the tokens of a nonterminal. -/
abbrev Nonterminal.Meaning : Nonterminal → Type
  | .value => Value
  | .items => List Value
  | .body m => List m.Item
  | .rest m => List m.Item
  | .statement m => m.Item

/-- Tokens derive from a nonterminal, and denote something. -/
inductive Derives : (X : Nonterminal) → List Token → X.Meaning → Prop
  | scalar {s : Symbol} {v : Value} {l : Int} (hs : Scalar s v) :
      Derives .value [⟨s, l⟩] v
  | list {us : List Token} {vs : List Value} {k l : Int} (hus : Derives .items us vs) :
      Derives .value (⟨.mark .bracketOpen, k⟩ :: us ++ [⟨.mark .bracketClose, l⟩]) (.list vs)
  | dictionary {us : List Token} {es : List Attribute} {k l : Int}
      (hus : Derives (.body .dictionary) us es) :
      Derives .value (⟨.mark .braceOpen, k⟩ :: us ++ [⟨.mark .braceClose, l⟩])
        (.dictionary es)
  | noItem {ns : List Token} (hns : LineEnds ns) : Derives .items ns []
  | lastItem {ns us ms : List Token} {v : Value} (hns : LineEnds ns)
      (hus : Derives .value us v) (hms : LineEnds ms) :
      Derives .items (ns ++ us ++ ms) [v]
  | item {ns us ms ws : List Token} {v : Value} {vs : List Value} {l : Int}
      (hns : LineEnds ns) (hus : Derives .value us v) (hms : LineEnds ms)
      (hws : Derives .items ws vs) :
      Derives .items (ns ++ us ++ ms ++ ⟨.mark .comma, l⟩ :: ws) (v :: vs)
  | noStatement {m : Mode} {ns : List Token} (hns : LineEnds ns) : Derives (.body m) ns []
  | statements {m : Mode} {ns us ws : List Token} {s : m.Item} {ss : List m.Item}
      (hns : LineEnds ns) (hus : Derives (.statement m) us s)
      (hws : Derives (.rest m) ws ss) :
      Derives (.body m) (ns ++ us ++ ws) (s :: ss)
  | noRest {m : Mode} : Derives (.rest m) [] []
  | lineEnd {m : Mode} {us : List Token} {ss : List m.Item} {l : Int}
      (hus : Derives (.body m) us ss) :
      Derives (.rest m) (⟨.newline, l⟩ :: us) ss
  | comma {us : List Token} {es : List Attribute} {l : Int}
      (hus : Derives (.body .dictionary) us es) :
      Derives (.rest .dictionary) (⟨.mark .comma, l⟩ :: us) es
  | assignment {s : Symbol} {name : Text} {us : List Token} {v : Value} {k l : Int}
      (hs : Named s name) (hus : Derives .value us v) :
      Derives (.statement .block) (⟨s, k⟩ :: ⟨.mark .equals, l⟩ :: us)
        (.attribute ⟨name, v, k⟩)
  | block {s : Symbol} {name : Text} {labels : List (Text × Int)} {us : List Token}
      {ns : List Node} {k l e : Int} (hs : Named s name) (hus : Derives (.body .block) us ns) :
      Derives (.statement .block)
        (⟨s, k⟩ :: labels.map Cursor.stringToken ++ ⟨.mark .braceOpen, l⟩ :: us ++
          [⟨.mark .braceClose, e⟩])
        (.block ⟨name, (labels.map Prod.fst).map Text.inner, ns, k⟩)
  | entry {s : Symbol} {name : Text} {q : Mark} {us : List Token} {v : Value} {k l : Int}
      (hs : Named s name) (hq : q = .equals ∨ q = .colon) (hus : Derives .value us v) :
      Derives (.statement .dictionary) (⟨s, k⟩ :: ⟨.mark q, l⟩ :: us) ⟨name, v, k⟩

/-! ## Leaves and symbols -/

/-- A symbol denotes a name exactly if one is read from it. -/
theorem named_iff {s : Symbol} {name : Text} : Named s name ↔ s.name? = some name := by
  constructor
  · intro h
    cases h <;> rfl
  · intro h
    cases s with
    | string t =>
        have hsame := Option.some.inj h
        subst hsame
        exact .string t
    | name t =>
        have hsame := Option.some.inj h
        subst hsame
        exact .name t
    | _ => simp [Symbol.name?] at h

/-- A symbol denotes a scalar exactly if one is read from it. -/
theorem scalar_iff {s : Symbol} {v : Value} : Scalar s v ↔ s.literal? = some v := by
  constructor
  · intro h
    cases h with
    | identifier t htrue hfalse => exact if_neg fun h => h.elim htrue hfalse
    | _ => rfl
  · intro h
    cases s with
    | string t =>
        have hsame := Option.some.inj h
        subst hsame
        exact .string t
    | heredoc t =>
        have hsame := Option.some.inj h
        subst hsame
        exact .heredoc t
    | number t =>
        have hsame := Option.some.inj h
        subst hsame
        exact .number t
    | name t =>
        by_cases htrue : t = "true".toList
        · subst htrue
          rcases Option.some.inj h with rfl
          exact .true
        by_cases hfalse : t = "false".toList
        · subst hfalse
          rcases Option.some.inj h with rfl
          exact .false
        · rw [Symbol.literal?, if_neg fun e => e.elim htrue hfalse] at h
          rcases Option.some.inj h with rfl
          exact .identifier t htrue hfalse
    | _ => simp [Symbol.literal?] at h

/-- Only an equals sign separates a name from its value outside dictionaries. -/
theorem isSeparator_block_iff {q : Mark} :
    Mode.isSeparator .block q = true ↔ q = .equals := by
  cases q <;> simp [Mode.isSeparator]

/-- An equals sign or a colon separates a name from its value in a dictionary. -/
theorem isSeparator_dictionary_iff {q : Mark} :
    Mode.isSeparator .dictionary q = true ↔ q = .equals ∨ q = .colon := by
  cases q <;> simp [Mode.isSeparator]

/-! ## First tokens -/

/-- The symbols that a value starts with. -/
def Symbol.StartsValue (s : Symbol) : Prop :=
  s.literal?.isSome ∨ s = .mark .bracketOpen ∨ s = .mark .braceOpen

/-- What starts a value is no line end and closes no list. -/
theorem Symbol.StartsValue.ne {s : Symbol} (h : s.StartsValue) :
    s ≠ .newline ∧ s ≠ .mark .bracketClose := by
  rcases h with h | rfl | rfl
  · constructor <;> rintro rfl <;> simp [Symbol.literal?] at h
  · simp
  · simp

/-- What a name is read from is no line end and closes no body. -/
theorem Named.ne {s : Symbol} {name : Text} (h : Named s name) :
    s ≠ .newline ∧ s ≠ .mark .braceClose := by
  cases h <;> simp

/-- A value starts with a scalar or an opening mark. -/
theorem Derives.value_head {us : List Token} {v : Value} (h : Derives .value us v) :
    ∃ t ts, us = t :: ts ∧ t.symbol.StartsValue := by
  cases h with
  | scalar hs => exact ⟨_, _, rfl, .inl (by simp [scalar_iff.mp hs])⟩
  | list hus => exact ⟨_, _, rfl, .inr (.inl rfl)⟩
  | dictionary hus => exact ⟨_, _, rfl, .inr (.inr rfl)⟩

/-- A statement starts with a name. -/
theorem Derives.statement_head {m : Mode} {us : List Token} {s : m.Item}
    (h : Derives (.statement m) us s) :
    ∃ t ts name, us = t :: ts ∧ Named t.symbol name := by
  cases h with
  | assignment hs hus => exact ⟨_, _, _, rfl, hs⟩
  | block hs hus => exact ⟨_, _, _, rfl, hs⟩
  | entry hs hq hus => exact ⟨_, _, _, rfl, hs⟩

end Ocl

end DeployGate
