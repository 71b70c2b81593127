import DeployGate.Proofs.Ocl.Derivation
import DeployGate.Proofs.Ocl.MaximalMunch

/-!
# What the readers accept

Reading a document is deciding whether its tokens derive from the grammar, and building
what the derivation denotes.  The same holds of each reader from every cursor.

Main results:

- Theorem `document_read_iff`: a text spells a document exactly if its tokens derive one.
- Theorems `value_reading_iff`, `items_reading_iff`, `statement_reading_iff`,
  `nested_body_reading_iff` and `whole_body_reading_iff`: one for each reader.
- Theorem `quoted_of_mem_tokens`: the strings of a document stand in quotation marks.
- Theorem `reading_iff_derives`: all of them together.
-/

namespace DeployGate

namespace Ocl

/-! ## Readers from every cursor -/

variable {c next : Cursor} {m : Mode}

/-- A value is read exactly if the tokens ahead begin with one. -/
theorem value_reading_iff {v : Value} :
    c.value.reading = (.ok v, next) ↔ c.Begins (Derives .value · v) next := by
  constructor
  · exact (sound c).value v next
  · intro h
    rcases h with ⟨us, ⟨rest, hus⟩, hv, rfl⟩
    exact hv.reads c rest hus.symm

/-- The inside of a list is read exactly if the tokens ahead begin with one and a closing
bracket. -/
theorem items_reading_iff {vs : List Value} :
    c.items.reading = (.ok vs, next) ↔
      c.Begins (Chain (Derives .items · vs) (Alone .bracketClose)) next := by
  constructor
  · exact (sound c).items vs next
  · intro h
    rcases h with ⟨_, ⟨rest, hus⟩, ⟨us, es, rfl, hvs, hes⟩, rfl⟩
    exact hvs.reads c es rest hes hus.symm

/-- A statement is read exactly if the tokens ahead begin with one. -/
theorem statement_reading_iff {s : m.Item} :
    (c.statement m).reading = (.ok s, next) ↔ c.Begins (Derives (.statement m) · s) next := by
  constructor
  · exact (sound c).statement m s next
  · intro h
    rcases h with ⟨us, ⟨rest, hus⟩, hs, rfl⟩
    exact hs.reads c rest hus.symm

/-- A nested body is read exactly if the tokens ahead begin with one and a closing
brace. -/
theorem nested_body_reading_iff {ss : List m.Item} :
    (c.body m true).reading = (.ok ss, next) ↔
      c.Begins (Chain (Derives (.body m) · ss) (Alone .braceClose)) next := by
  constructor
  · intro h
    exact ((sound c).body m true ss next h).1
  · intro h
    rcases h with ⟨_, ⟨rest, hus⟩, ⟨us, es, rfl, hss, hes⟩, rfl⟩
    exact hss.reads true c es rest hes (by simp) hus.symm

/-- A body that is not nested is read exactly if all tokens ahead are one. -/
theorem whole_body_reading_iff {ss : List m.Item} :
    (c.body m false).reading = (.ok ss, next) ↔
      Derives (.body m) c.ahead ss ∧ next = c.skip c.ahead.length := by
  constructor
  · intro h
    obtain ⟨⟨_, ⟨rest, hus⟩, ⟨us, es, rfl, hss, hes⟩, rfl⟩, hahead⟩ :=
      (sound c).body m false ss next h
    have hempty : es = [] := hes
    subst hempty
    rw [List.append_nil] at hus hahead
    have hrest : rest = [] := by simpa [← hus] using hahead rfl
    rw [hrest, List.append_nil] at hus
    rw [← hus, List.append_nil]
    exact ⟨hss, rfl⟩
  · intro h
    rcases h with ⟨hss, rfl⟩
    have hread := hss.reads false c [] [] rfl (fun _ => rfl) (by simp)
    rwa [List.append_nil] at hread

/-! ## Whole texts -/

/-- The statements of a token list are read exactly if its tokens derive them. -/
theorem document_result_iff {ts : TokenList} {d : Document} :
    ts.document.result = .ok d ↔ Derives (.body .block) ts.tokens d := by
  have hbody : ts.document.reading = (ts.document.result, ts.document.cursor) := rfl
  constructor
  · intro h
    rw [h] at hbody
    exact (whole_body_reading_iff.mp hbody).1
  · intro h
    have hread := (whole_body_reading_iff (c := ts.start) (m := .block)).2 ⟨h, rfl⟩
    exact congrArg Prod.fst hread

/-- A text spells a document exactly if it has tokens and they derive the document. -/
theorem document_read_iff {t : Text} {d : Document} :
    Document.read t = .ok d ↔
      ∃ ts, tokens t = .ok ts ∧ Derives (.body .block) ts.tokens d := by
  unfold Document.read
  cases htokens : tokens t with
  | error e =>
      constructor
      · intro h
        contradiction
      · intro h
        rcases h with ⟨ts, hts, -⟩
        contradiction
  | ok ts =>
      constructor
      · intro h
        exact ⟨ts, rfl, document_result_iff.mp h⟩
      · intro h
        rcases h with ⟨ts', hts, hd⟩
        have hsame := Except.ok.inj hts
        subst hsame
        exact document_result_iff.mpr hd

/-! ## Quotation marks -/

/-- The symbols of tokens are those of the lexemes they come from. -/
theorem exists_lexeme_of_mem_tokensFrom {line : Int} {ls : List Lexeme} {u : Token}
    (h : u ∈ (tokensFrom line ls).tokens) : ∃ l ∈ ls, l.symbol? = some u.symbol := by
  induction ls generalizing line with
  | nil => simp [tokensFrom] at h
  | cons l ls ih =>
      have hlater (hu : u ∈ (tokensFrom (line + l.linesPassed) ls).tokens) :
          ∃ k ∈ l :: ls, k.symbol? = some u.symbol := by
        rcases ih hu with ⟨k, hk, hsymbol⟩
        exact ⟨k, List.mem_cons_of_mem _ hk, hsymbol⟩
      rw [tokensFrom] at h
      cases hs : l.symbol? with
      | none =>
          rw [hs] at h
          exact hlater h
      | some s =>
          rw [hs] at h
          rcases List.mem_cons.mp h with rfl | hu
          · exact ⟨l, List.mem_cons_self .., hs⟩
          · exact hlater hu

/-- The lexemes of a cut are of their class, heredocs apart. -/
theorem Lexeme.Cuts.inClass {t rest : Text} {ls : List Lexeme} (h : Cuts t ls rest) :
    ∀ l ∈ ls, l.classOf ≠ .opener → InClass l.classOf l.text := by
  induction h with
  | done t => simp
  | next hl ht ih =>
      intro l hmem hplain
      rcases List.mem_cons.mp hmem with rfl | hmem
      · cases hl with
        | plain _ h => exact h.inClass
        | heredoc => exact absurd rfl hplain
      · exact ih l hmem hplain

/-- The strings among the tokens of a text stand in quotation marks. -/
theorem quoted_of_mem_tokens {t : Text} {ts : TokenList} (hts : tokens t = .ok ts) {u : Token}
    (hu : u ∈ ts.tokens) {s : Text} (hs : u.symbol = .string s) :
    s = '"' :: s.inner ++ ['"'] := by
  rcases tokens_eq_ok_iff.mp hts with ⟨-, rfl⟩
  rcases exists_lexeme_of_mem_tokensFrom hu with ⟨l, hl, hsymbol⟩
  rw [hs] at hsymbol
  obtain rfl : l = .string s := by
    cases l <;> simp_all [Lexeme.symbol?]
  have hclass := (cuts_scan t).inClass _ hl (by simp [Lexeme.classOf])
  generalize hs' : (Lexeme.string s).text = v at hclass
  have htext : s = v := hs'
  subst htext
  cases hclass with
  | string => simp [Text.inner]

/-- Reading decides the grammar.  A text spells exactly the documents that its tokens
derive, whose strings stand in quotation marks, and each reader gives from every cursor
exactly what some beginning of the tokens ahead derives. -/
theorem reading_iff_derives :
    (∀ t d, Document.read t = .ok d ↔
      ∃ ts, tokens t = .ok ts ∧ Derives (.body .block) ts.tokens d) ∧
    (∀ t ts, tokens t = .ok ts → ∀ u ∈ ts.tokens, ∀ s, u.symbol = .string s →
      s = '"' :: s.inner ++ ['"']) ∧
    (∀ (c next : Cursor) v,
      c.value.reading = (.ok v, next) ↔ c.Begins (Derives .value · v) next) ∧
    (∀ (c next : Cursor) vs, c.items.reading = (.ok vs, next) ↔
      c.Begins (Chain (Derives .items · vs) (Alone .bracketClose)) next) ∧
    (∀ m (c next : Cursor) s, (c.statement m).reading = (.ok s, next) ↔
      c.Begins (Derives (.statement m) · s) next) ∧
    (∀ m (c next : Cursor) ss, (c.body m true).reading = (.ok ss, next) ↔
      c.Begins (Chain (Derives (.body m) · ss) (Alone .braceClose)) next) ∧
    (∀ m (c next : Cursor) ss, (c.body m false).reading = (.ok ss, next) ↔
      Derives (.body m) c.ahead ss ∧ next = c.skip c.ahead.length) := by
  refine ⟨?_, ?_, ?_, ?_, ?_, ?_, ?_⟩
  · intro t d
    exact document_read_iff
  · intro t ts hts u hu s hs
    exact quoted_of_mem_tokens hts hu hs
  · intro c next v
    exact value_reading_iff
  · intro c next vs
    exact items_reading_iff
  · intro m c next s
    exact statement_reading_iff
  · intro m c next ss
    exact nested_body_reading_iff
  · intro m c next ss
    exact whole_body_reading_iff

end Ocl

end DeployGate
