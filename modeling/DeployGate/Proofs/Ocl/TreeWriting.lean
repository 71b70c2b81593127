import DeployGate.Proofs.Ocl.LexemeWriting
import DeployGate.Proofs.Ocl.TreeForm

/-!
# Writing trees

Every well-formed tree is what some text is read as, up to lines.  The text puts each
statement and each item of a list on a line of its own, and all names in quotation marks.

Main results:

- Definition `Document.written`: a text for a tree.
- Theorem `parted_lexemes`: its lexemes are kept apart.
- Theorem `derives_lexemes`: their tokens derive the tree.
- Theorem `read_range`: the trees that texts are read as are the well-formed ones.
-/

namespace DeployGate

namespace Ocl

open Lexeme

/-! ## The lexemes of a tree -/

/-- The end of a line. -/
def lineFeed : Lexeme :=
  .lineEnd ['\n']

/-- A name in quotation marks. -/
def quotedName (name : Text) : Lexeme :=
  .string ('"' :: (name ++ ['"']))

/-- The lexeme of a scalar. -/
def scalarLexeme : LiteralKind → Text → Lexeme
  | .string, t => .string t
  | .heredoc, t => heredocOf t
  | .number, t => .number t
  | .boolean, t => .name t
  | .identifier, t => .name t

mutual

/-- The lexemes of a value. -/
def Value.lexemes : Value → List Lexeme
  | .literal k t => [scalarLexeme k t]
  | .list vs => .mark .bracketOpen :: (itemLexemes vs ++ [.mark .bracketClose])
  | .dictionary es => .mark .braceOpen :: (entryLexemes es ++ [.mark .braceClose])

/-- The lexemes of the items of a list, with a line end and a comma behind each. -/
def Value.itemLexemes : List Value → List Lexeme
  | [] => []
  | v :: vs => v.lexemes ++ lineFeed :: .mark .comma :: itemLexemes vs

/-- The lexemes of the entries of a dictionary, with a line end behind each. -/
def Value.entryLexemes : List Attribute → List Lexeme
  | [] => []
  | ⟨n, v, _⟩ :: es => quotedName n :: .mark .equals :: (v.lexemes ++ lineFeed :: entryLexemes es)

end

/-- The lexemes of an attribute. -/
def Attribute.lexemes (a : Attribute) : List Lexeme :=
  quotedName a.name :: .mark .equals :: a.value.lexemes

mutual

/-- The lexemes of a part of a document. -/
def Node.lexemes : Node → List Lexeme
  | .attribute a => Attribute.lexemes a
  | .block ⟨n, ls, cs, _⟩ => quotedName n :: (ls.map quotedName ++
      .mark .braceOpen :: (childLexemes cs ++ [.mark .braceClose]))

/-- The lexemes of the parts of a block, with a line end behind each. -/
def Node.childLexemes : List Node → List Lexeme
  | [] => []
  | n :: ns => n.lexemes ++ lineFeed :: childLexemes ns

end

/-- What is written for some things, one behind another, with the same end behind each. -/
def eachWith {α : Type} (ending : List Lexeme) (write : α → List Lexeme) (as : List α) :
    List Lexeme :=
  as.flatMap fun a => write a ++ ending

/-- Items are written one by one. -/
theorem Value.itemLexemes_eq (vs : List Value) :
    itemLexemes vs = eachWith [lineFeed, .mark .comma] lexemes vs := by
  induction vs with
  | nil => rfl
  | cons v vs ih => simp [itemLexemes, ih, eachWith]

/-- Entries are written one by one. -/
theorem Value.entryLexemes_eq (es : List Attribute) :
    entryLexemes es = eachWith [lineFeed] Attribute.lexemes es := by
  induction es with
  | nil => rfl
  | cons e es ih => simp [entryLexemes, ih, eachWith, Attribute.lexemes]

/-- The parts of a block are written one by one. -/
theorem Node.childLexemes_eq (ns : List Node) :
    childLexemes ns = eachWith [lineFeed] lexemes ns := by
  induction ns with
  | nil => rfl
  | cons n ns ih => simp [childLexemes, ih, eachWith]

/-- A text for a document. -/
def Document.written (d : Document) : Text :=
  (Node.childLexemes d).flatMap Lexeme.text

/-! ## The lexemes are kept apart -/

/-- Lexemes are kept apart in front of a line end and lexemes that are. -/
def PartedAtLine (ls : List Lexeme) : Prop :=
  ∀ ms, Parted ms → Parted (ls ++ lineFeed :: ms)

/-- A line end is kept apart from what follows it. -/
theorem parted_lineFeed {ls : List Lexeme} (h : Parted ls) : Parted (lineFeed :: ls) :=
  .closed isNext_lineFeed h

/-- A mark is kept apart from what follows it. -/
theorem parted_mark (m : Mark) {ls : List Lexeme} (h : Parted ls) : Parted (.mark m :: ls) :=
  .closed (isNext_mark m) h

/-- A name in quotation marks is kept apart from what follows it. -/
theorem parted_quotedName {name : Text} (hname : StringBody name) {ls : List Lexeme}
    (h : Parted ls) : Parted (quotedName name :: ls) :=
  .closed (isNext_string (.string hname)) h

/-- The word for true is a name. -/
theorem inClass_true : InClass .name "true".toList := by
  have hrest : ∀ c ∈ ['r', 'u', 'e'], isNameChar c = true := List.all_eq_true.mp (by decide)
  exact .name (c := 't') (by decide) hrest

/-- The word for false is a name. -/
theorem inClass_false : InClass .name "false".toList := by
  have hrest : ∀ c ∈ ['a', 'l', 's', 'e'], isNameChar c = true := List.all_eq_true.mp (by decide)
  exact .name (c := 'f') (by decide) hrest

/-- A scalar is kept apart from the line end behind it. -/
theorem partedAtLine_scalar {k : LiteralKind} {t : Text} (h : LiteralText k t) :
    PartedAtLine [scalarLexeme k t] := by
  intro ms hms
  cases h with
  | string ht => exact .closed (isNext_string ht) (parted_lineFeed hms)
  | heredoc => exact .line (isNext_heredocOf t) hms
  | number ht => exact .line (isNext_number ht) hms
  | true => exact .line (isNext_name inClass_true) hms
  | false => exact .line (isNext_name inClass_false) hms
  | identifier ht => exact .line (isNext_name ht) hms

/-- What is written line by line is kept apart. -/
theorem parted_eachWith {α : Type} (ending : List Lexeme) {write : α → List Lexeme}
    {as : List α} (has : ∀ a ∈ as, PartedAtLine (write a))
    (hending : ∀ ms, Parted ms → Parted (ending ++ ms)) {ms : List Lexeme} (hms : Parted ms) :
    Parted (eachWith (lineFeed :: ending) write as ++ ms) := by
  induction as with
  | nil => exact hms
  | cons a as ih =>
      have hrest := ih fun b hb => has b (List.mem_cons_of_mem a hb)
      have hfirst := has a List.mem_cons_self _ (hending _ hrest)
      simpa [eachWith] using hfirst

/-- The lexemes of a well-formed value are kept apart. -/
theorem Value.WellFormed.parted {v : Value} (h : v.WellFormed) : PartedAtLine v.lexemes := by
  induction h with
  | literal ht => exact partedAtLine_scalar ht
  | @list vs _ ih =>
      intro ms hms
      have hclose := parted_mark .bracketClose (parted_lineFeed hms)
      have hitems := parted_eachWith [.mark .comma] ih
        (fun _ h => parted_mark .comma h) hclose
      have hlist := parted_mark .bracketOpen hitems
      simpa [lexemes, itemLexemes_eq] using hlist
  | @dictionary es hnames _ ih =>
      intro ms hms
      have hclose := parted_mark .braceClose (parted_lineFeed hms)
      have hentry : ∀ e ∈ es, PartedAtLine (Attribute.lexemes e) := by
        intro e he ms hms
        exact parted_quotedName (hnames e he) (parted_mark .equals (ih e he ms hms))
      have hentries := parted_eachWith [] hentry (fun _ h => h) hclose
      have hdictionary := parted_mark .braceOpen hentries
      simpa [lexemes, entryLexemes_eq] using hdictionary

/-- Labels are kept apart from what follows them. -/
theorem parted_labels {labels : List Text} (hlabels : ∀ l ∈ labels, StringBody l)
    {ms : List Lexeme} (hms : Parted ms) : Parted (labels.map quotedName ++ ms) := by
  induction labels with
  | nil => exact hms
  | cons l ls ih =>
      have hrest := ih fun k hk => hlabels k (List.mem_cons_of_mem l hk)
      exact parted_quotedName (hlabels l List.mem_cons_self) hrest

/-- The lexemes of a well-formed part of a document are kept apart. -/
theorem Node.WellFormed.parted {n : Node} (h : n.WellFormed) : PartedAtLine n.lexemes := by
  induction h with
  | @binding a ha =>
      intro ms hms
      have hvalue := parted_mark .equals (ha.value.parted ms hms)
      have hattribute := parted_quotedName ha.name hvalue
      simpa [lexemes, Attribute.lexemes] using hattribute
  | @block b hname hlabels _ ih =>
      intro ms hms
      have hclose := parted_mark .braceClose (parted_lineFeed hms)
      have hchildren := parted_eachWith [] ih (fun _ h => h) hclose
      have hbody := parted_mark .braceOpen hchildren
      have hblock := parted_quotedName hname (parted_labels hlabels hbody)
      simpa [lexemes, childLexemes_eq] using hblock

/-- The lexemes of a well-formed document are kept apart. -/
theorem parted_lexemes {d : Document} (h : ∀ n ∈ d, n.WellFormed) :
    Parted (Node.childLexemes d) := by
  have hparted := parted_eachWith [] (fun n hn => (h n hn).parted) (fun _ h => h) .nil
  rwa [List.append_nil, ← Node.childLexemes_eq] at hparted

/-! ## Tokens for lexemes -/

/-- Tokens have the symbols of lexemes. -/
def Carry (us : List Token) (ls : List Lexeme) : Prop :=
  us.map Token.symbol = ls.filterMap Lexeme.symbol?

variable {us : List Token}

/-- The tokens of lexemes have their symbols. -/
theorem carry_tokensFrom (line : Int) (ls : List Lexeme) :
    Carry (tokensFrom line ls).tokens ls := by
  induction ls generalizing line with
  | nil => rfl
  | cons l ls ih =>
      have hrest : _ = _ := ih (line + l.linesPassed)
      rw [Carry, tokensFrom]
      cases hs : l.symbol? with
      | none => rw [List.filterMap_cons_none hs, ← hrest]
      | some s => rw [List.filterMap_cons_some hs, ← hrest, List.map_cons]

/-- No tokens have the symbols of no lexemes. -/
theorem Carry.eq_nil (h : Carry us []) : us = [] :=
  List.map_eq_nil_iff.mp h

/-- The first token has the symbol of the first lexeme. -/
theorem Carry.cons {l : Lexeme} {ls : List Lexeme} {s : Symbol} (hs : l.symbol? = some s)
    (h : Carry us (l :: ls)) : ∃ k vs, us = ⟨s, k⟩ :: vs ∧ Carry vs ls := by
  rw [Carry, List.filterMap_cons_some hs] at h
  rcases List.map_eq_cons_iff.mp h with ⟨⟨s, k⟩, vs, rfl, rfl, hvs⟩
  exact ⟨k, vs, rfl, hvs⟩

/-- Tokens for two runs of lexemes are tokens for each of them. -/
theorem Carry.append {ls ms : List Lexeme} (h : Carry us (ls ++ ms)) :
    ∃ vs ws, us = vs ++ ws ∧ Carry vs ls ∧ Carry ws ms := by
  rw [Carry, List.filterMap_append] at h
  rcases List.map_eq_append_iff.mp h with ⟨vs, ws, rfl, hvs, hws⟩
  exact ⟨vs, ws, rfl, hvs, hws⟩

/-! ## The tokens derive the tree -/

/-- Whatever lines they are on, tokens for some lexemes derive something that is as given,
up to what is left out of it. -/
def DerivesAs {α : Type} (X : Nonterminal) (strip : X.Meaning → α) (ls : List Lexeme)
    (a : X.Meaning) : Prop :=
  ∀ us, Carry us ls → ∃ b, Derives X us b ∧ strip b = strip a

/-- The symbol of a line end. -/
theorem symbol?_lineFeed : lineFeed.symbol? = some .newline := rfl

/-- The symbol of a mark. -/
theorem symbol?_mark (m : Mark) : (Lexeme.mark m).symbol? = some (.mark m) := rfl

/-- The tokens of a scalar derive it. -/
theorem derivesAs_scalar {k : LiteralKind} {t : Text} (h : LiteralText k t) :
    DerivesAs .value Value.withoutLines [scalarLexeme k t] (.literal k t) := by
  have hleaf : ∀ {s : Symbol}, (scalarLexeme k t).symbol? = some s → Scalar s (.literal k t) →
      DerivesAs .value Value.withoutLines [scalarLexeme k t] (.literal k t) := by
    intro s hs hscalar us hus
    rcases hus.cons hs with ⟨l, vs, rfl, hvs⟩
    rw [hvs.eq_nil]
    exact ⟨_, .scalar hscalar, rfl⟩
  cases h with
  | string ht => exact hleaf rfl (.string t)
  | heredoc hlast => exact hleaf (symbol?_heredocOf hlast) (.heredoc t)
  | number ht => exact hleaf rfl (.number t)
  | true => exact hleaf rfl .true
  | false => exact hleaf rfl .false
  | identifier ht htrue hfalse => exact hleaf rfl (.identifier t htrue hfalse)

/-- The tokens of items of a list derive the items. -/
theorem derivesAs_items {vs : List Value}
    (h : ∀ v ∈ vs, DerivesAs .value Value.withoutLines v.lexemes v) :
    DerivesAs .items (List.map Value.withoutLines) (Value.itemLexemes vs) vs := by
  induction vs with
  | nil =>
      intro us hus
      rw [hus.eq_nil]
      exact ⟨[], .noItem (by simp [LineEnds]), rfl⟩
  | cons v vs ih =>
      intro us hus
      rcases hus.append with ⟨xs, ys, rfl, hxs, hys⟩
      rcases hys.cons symbol?_lineFeed with ⟨k, zs, rfl, hzs⟩
      rcases hzs.cons (symbol?_mark .comma) with ⟨l, ws, rfl, hws⟩
      rcases h v List.mem_cons_self xs hxs with ⟨w, hw, hstrip⟩
      rcases ih (fun w hw => h w (List.mem_cons_of_mem v hw)) ws hws with ⟨rest, hrest, hstrips⟩
      have hbefore : LineEnds [] := by simp [LineEnds]
      have hbehind : LineEnds [⟨.newline, k⟩] := by simp [LineEnds]
      refine ⟨w :: rest, ?_, ?_⟩
      · simpa using Derives.item (l := l) hbefore hw hbehind hrest
      · rw [List.map_cons, List.map_cons, hstrip, hstrips]

/-- The tokens of statements, with a line end behind each, derive the statements. -/
theorem derivesAs_body {m : Mode} {α : Type} {strip : m.Item → α} {write : m.Item → List Lexeme}
    {ss : List m.Item} (h : ∀ s ∈ ss, DerivesAs (.statement m) strip (write s) s) :
    DerivesAs (.body m) (List.map strip) (eachWith [lineFeed] write ss) ss := by
  induction ss with
  | nil =>
      intro us hus
      rw [hus.eq_nil]
      exact ⟨[], .noStatement (by simp [LineEnds]), rfl⟩
  | cons s ss ih =>
      intro us hus
      rw [eachWith, List.flatMap_cons, List.append_assoc] at hus
      rcases hus.append with ⟨xs, ys, rfl, hxs, hys⟩
      rcases hys.cons symbol?_lineFeed with ⟨k, ws, rfl, hws⟩
      rcases h s List.mem_cons_self xs hxs with ⟨r, hr, hstrip⟩
      rcases ih (fun r hr => h r (List.mem_cons_of_mem s hr)) ws hws with ⟨rest, hrest, hstrips⟩
      have hbefore : LineEnds [] := by simp [LineEnds]
      refine ⟨r :: rest, .statements hbefore hr (.lineEnd hrest), ?_⟩
      rw [List.map_cons, List.map_cons, hstrip, hstrips]

/-- A name in quotation marks names what stands between them. -/
theorem named_quoted (name : Text) : Named (.string ('"' :: (name ++ ['"']))) name := by
  have hinner : Text.inner ('"' :: (name ++ ['"'])) = name := by simp [Text.inner]
  have hnamed := Named.string ('"' :: (name ++ ['"']))
  rwa [hinner] at hnamed

/-- The tokens of an attribute are its name, an equals sign and its value. -/
theorem exists_of_carry_attribute {a : Attribute}
    (h : DerivesAs .value Value.withoutLines a.value.lexemes a.value)
    (hus : Carry us (Attribute.lexemes a)) :
    ∃ k l vs v, us = ⟨.string ('"' :: (a.name ++ ['"'])), k⟩ :: ⟨.mark .equals, l⟩ :: vs ∧
      Derives .value vs v ∧
      Attribute.withoutLines ⟨a.name, v, k⟩ = Attribute.withoutLines a := by
  rcases hus.cons rfl with ⟨k, xs, rfl, hxs⟩
  rcases hxs.cons (symbol?_mark .equals) with ⟨l, vs, rfl, hvs⟩
  rcases h vs hvs with ⟨v, hv, hstrip⟩
  refine ⟨k, l, vs, v, rfl, hv, ?_⟩
  have hvalue : v.mapLines (fun _ => 0) = a.value.mapLines fun _ => 0 := hstrip
  simp [Attribute.withoutLines, Attribute.mapLines, hvalue]

/-- The tokens of a well-formed value derive it. -/
theorem Value.WellFormed.derivesAs {v : Value} (h : v.WellFormed) :
    DerivesAs .value Value.withoutLines v.lexemes v := by
  -- The lines of the tokens are free, so each part derives a tree of its own lines.
  induction h with
  | literal ht => exact derivesAs_scalar ht
  | @list vs _ ih =>
      intro us hus
      rcases hus.cons (symbol?_mark .bracketOpen) with ⟨k, xs, rfl, hxs⟩
      rcases hxs.append with ⟨ys, zs, rfl, hys, hzs⟩
      rcases hzs.cons (symbol?_mark .bracketClose) with ⟨l, ws, rfl, hws⟩
      rw [hws.eq_nil]
      rcases derivesAs_items ih ys hys with ⟨items, hitems, hstrip⟩
      refine ⟨.list items, .list hitems, ?_⟩
      have hsame : items.map (mapLines fun _ => 0) = vs.map (mapLines fun _ => 0) := hstrip
      simp [withoutLines, mapLines, hsame]
  | @dictionary es _ _ ih =>
      intro us hus
      have hentry : ∀ e ∈ es,
          DerivesAs (.statement .dictionary) Attribute.withoutLines (Attribute.lexemes e) e := by
        intro e he vs hvs
        rcases exists_of_carry_attribute (ih e he) hvs with ⟨k, l, ws, v, rfl, hv, hstrip⟩
        exact ⟨_, .entry (named_quoted e.name) (.inl rfl) hv, hstrip⟩
      have hbody : DerivesAs (.body .dictionary) (List.map Attribute.withoutLines)
          (eachWith [lineFeed] Attribute.lexemes es) es := derivesAs_body hentry
      rcases hus.cons (symbol?_mark .braceOpen) with ⟨k, xs, rfl, hxs⟩
      rcases hxs.append with ⟨ys, zs, rfl, hys, hzs⟩
      rcases hzs.cons (symbol?_mark .braceClose) with ⟨l, ws, rfl, hws⟩
      rw [hws.eq_nil]
      rw [entryLexemes_eq] at hys
      rcases hbody ys hys with ⟨entries, hentries, hstrip⟩
      refine ⟨.dictionary entries, .dictionary hentries, ?_⟩
      have hsame : entries.map (Attribute.mapLines fun _ => 0) =
          es.map (Attribute.mapLines fun _ => 0) := hstrip
      simp [withoutLines, mapLines, hsame]

/-- The tokens of labels are strings with the labels between their quotation marks. -/
theorem exists_of_carry_labels {labels : List Text} (h : Carry us (labels.map quotedName)) :
    ∃ ls : List (Text × Int), us = ls.map Cursor.stringToken ∧
      (ls.map Prod.fst).map Text.inner = labels := by
  induction labels generalizing us with
  | nil => exact ⟨[], h.eq_nil, rfl⟩
  | cons label labels ih =>
      rcases h.cons rfl with ⟨k, vs, rfl, hvs⟩
      rcases ih hvs with ⟨ls, rfl, hls⟩
      refine ⟨('"' :: (label ++ ['"']), k) :: ls, rfl, ?_⟩
      simp [Text.inner, hls]

/-- The tokens of a well-formed part of a document derive it. -/
theorem Node.WellFormed.derivesAs {n : Node} (h : n.WellFormed) :
    DerivesAs (.statement .block) Node.withoutLines n.lexemes n := by
  induction h with
  | @binding a ha =>
      intro us hus
      rcases exists_of_carry_attribute ha.value.derivesAs hus with ⟨k, l, vs, v, rfl, hv, hstrip⟩
      refine ⟨_, .assignment (named_quoted a.name) hv, ?_⟩
      exact congrArg Node.attribute hstrip
  | @block b _ _ _ ih =>
      have hbody : DerivesAs (.body .block) (List.map Node.withoutLines)
          (eachWith [lineFeed] lexemes b.children) b.children := derivesAs_body ih
      intro us hus
      rcases hus.cons rfl with ⟨k, xs, rfl, hxs⟩
      rcases hxs.append with ⟨ys, zs, rfl, hys, hzs⟩
      rcases exists_of_carry_labels hys with ⟨ls, rfl, hlabels⟩
      rcases hzs.cons (symbol?_mark .braceOpen) with ⟨l, ws, rfl, hws⟩
      rcases hws.append with ⟨cs, ds, rfl, hcs, hds⟩
      rcases hds.cons (symbol?_mark .braceClose) with ⟨e, es, rfl, hes⟩
      rw [hes.eq_nil]
      rw [childLexemes_eq] at hcs
      rcases hbody cs hcs with ⟨children, hchildren, hstrip⟩
      have hblock : Derives (.statement .block)
          (⟨.string ('"' :: (b.name ++ ['"'])), k⟩ :: ls.map Cursor.stringToken ++
            ⟨.mark .braceOpen, l⟩ :: cs ++ [⟨.mark .braceClose, e⟩])
          (.block ⟨b.name, (ls.map Prod.fst).map Text.inner, children, k⟩) :=
        .block (named_quoted b.name) hchildren
      rw [hlabels] at hblock
      refine ⟨.block ⟨b.name, b.labels, children, k⟩, ?_, ?_⟩
      · simpa using hblock
      · have hsame : children.map (mapLines fun _ => 0) =
            b.children.map (mapLines fun _ => 0) := hstrip
        simp [withoutLines, mapLines, hsame]

/-- A well-formed document is what its text is read as, up to lines. -/
theorem exists_read_written {d : Document} (h : ∀ n ∈ d, n.WellFormed) :
    ∃ d', Document.read (Document.written d) = .ok d' ∧
      Document.withoutLines d' = Document.withoutLines d := by
  have hcarry := carry_tokensFrom 1 (Node.childLexemes d)
  rw [Node.childLexemes_eq] at hcarry
  have hparts : DerivesAs (.body .block) (List.map Node.withoutLines)
      (eachWith [lineFeed] Node.lexemes d) d := derivesAs_body fun n hn => (h n hn).derivesAs
  rcases hparts _ hcarry with ⟨d', hd', hstrip⟩
  refine ⟨d', document_read_iff.mpr ⟨_, (parted_lexemes h).tokens_eq, ?_⟩, hstrip⟩
  rw [Node.childLexemes_eq]
  exact hd'

/-- A heredoc in a dictionary is written with a marker that is longer than its text. -/
example : Document.written
    [.attribute ⟨['a'], .dictionary [⟨['b'], .literal .heredoc "E\r\nE".toList, 0⟩], 0⟩] =
      "\"a\"=\x7b\"b\"=<<EEEEE\nE\r\nE\nEEEEE\n\x7d\n".toList := by
  cbv

/-- The documents that texts are read as are the well-formed ones.  Whatever is read is well
formed, and every well-formed tree is what some text is read as, up to lines. -/
theorem read_range :
    (∀ t d, Document.read t = .ok d → ∀ n ∈ d, n.WellFormed) ∧
    (∀ d : Document, (∀ n ∈ d, n.WellFormed) →
      ∃ t d', Document.read t = .ok d' ∧
        Document.withoutLines d' = Document.withoutLines d) := by
  constructor
  · intro t d hread
    exact wellFormed_of_read hread
  · intro d hd
    rcases exists_read_written hd with ⟨d', hread, hlines⟩
    exact ⟨_, d', hread, hlines⟩

/-- A block whose heredoc lies in a dictionary in a list. -/
def mixedTree : Document :=
  [.block ⟨['s'], [['\\', '"']], [.attribute ⟨['a'],
    .list [.dictionary [⟨['b'], .literal .heredoc "E\r\nE".toList, 0⟩]], 0⟩], 0⟩]

/-- That block is well formed, and what some text is read as. -/
theorem read_range_mixedTree :
    (∀ n ∈ mixedTree, n.WellFormed) ∧
      ∃ t d', Document.read t = .ok d' ∧
        Document.withoutLines d' = Document.withoutLines mixedTree := by
  have hletter : ∀ c : Char, c ≠ '"' → c ≠ '\\' → c ≠ '\n' → StringBody [c] :=
    fun c hquote hslash hfeed => .plain hquote hslash hfeed .nil
  have hheredoc : Value.WellFormed (.literal .heredoc "E\r\nE".toList) := by
    apply Value.WellFormed.literal (.heredoc _)
    intro c hc
    have hlast : 'E' = c := Option.some.inj hc
    subst hlast
    decide
  have hvalue : Value.WellFormed
      (.list [.dictionary [⟨['b'], .literal .heredoc "E\r\nE".toList, 0⟩]]) := by
    apply Value.WellFormed.list
    intro v hv
    rcases List.mem_singleton.mp hv with rfl
    apply Value.WellFormed.dictionary
    · simpa using hletter 'b' (by decide) (by decide) (by decide)
    · simpa using hheredoc
  have hform : ∀ n ∈ mixedTree, n.WellFormed := by
    intro n hn
    rcases List.mem_singleton.mp hn with rfl
    apply Node.WellFormed.block
    · exact hletter 's' (by decide) (by decide) (by decide)
    · simpa using StringBody.escaped (by decide) .nil
    · simpa using Node.WellFormed.binding ⟨hletter 'a' (by decide) (by decide) (by decide), hvalue⟩
  exact ⟨hform, read_range.2 mixedTree hform⟩

end Ocl

end DeployGate
