import DeployGate.Proofs.Ocl.Acceptance

/-!
# Well-formed trees

The trees of documents are those whose names and texts are ones that lexemes can have.  That
the entries of a dictionary are attributes, and no blocks, is in the type of values.

Main results:

- Definitions `Value.WellFormed` and `Node.WellFormed`: the form of values and of documents.
- Theorem `symbol_wellFormed_of_mem_tokens`: the symbols of a text have the texts of their
  lexemes.
- Theorem `wellFormed_of_read`: what a text is read as is well formed.
-/

namespace DeployGate

namespace Ocl

open Lexeme

/-! ## Trees up to lines -/

mutual

/-- A value with its lines changed. -/
def Value.mapLines (f : Int → Int) : Value → Value
  | .literal k t => .literal k t
  | .list vs => .list (mapLinesItems f vs)
  | .dictionary es => .dictionary (mapLinesEntries f es)

/-- Values with their lines changed. -/
def Value.mapLinesItems (f : Int → Int) : List Value → List Value
  | [] => []
  | v :: vs => v.mapLines f :: mapLinesItems f vs

/-- Entries with their lines changed. -/
def Value.mapLinesEntries (f : Int → Int) : List Attribute → List Attribute
  | [] => []
  | ⟨n, v, l⟩ :: es => ⟨n, v.mapLines f, f l⟩ :: mapLinesEntries f es

end

/-- An attribute with its lines changed. -/
def Attribute.mapLines (f : Int → Int) (a : Attribute) : Attribute :=
  ⟨a.name, a.value.mapLines f, f a.line⟩

mutual

/-- A part of a document with its lines changed. -/
def Node.mapLines (f : Int → Int) : Node → Node
  | .attribute a => .attribute (Attribute.mapLines f a)
  | .block ⟨n, ls, cs, l⟩ => .block ⟨n, ls, mapLinesChildren f cs, f l⟩

/-- Parts of a document with their lines changed. -/
def Node.mapLinesChildren (f : Int → Int) : List Node → List Node
  | [] => []
  | n :: ns => n.mapLines f :: mapLinesChildren f ns

end

/-- The lines of values change one by one. -/
@[simp] theorem Value.mapLinesItems_eq (f : Int → Int) (vs : List Value) :
    mapLinesItems f vs = vs.map (mapLines f) := by
  induction vs with
  | nil => rfl
  | cons v vs ih => rw [mapLinesItems, ih, List.map_cons]

/-- The lines of entries change one by one. -/
@[simp] theorem Value.mapLinesEntries_eq (f : Int → Int) (es : List Attribute) :
    mapLinesEntries f es = es.map (Attribute.mapLines f) := by
  induction es with
  | nil => rfl
  | cons e es ih =>
      rw [mapLinesEntries, ih, List.map_cons]
      rfl

/-- The lines of the parts of a document change one by one. -/
@[simp] theorem Node.mapLinesChildren_eq (f : Int → Int) (ns : List Node) :
    mapLinesChildren f ns = ns.map (mapLines f) := by
  induction ns with
  | nil => rfl
  | cons n ns ih => rw [mapLinesChildren, ih, List.map_cons]

/-- A value without its lines: all of them are zero. -/
def Value.withoutLines (v : Value) : Value :=
  v.mapLines fun _ => 0

/-- An attribute without its lines. -/
def Attribute.withoutLines (a : Attribute) : Attribute :=
  Attribute.mapLines (fun _ => 0) a

/-- A part of a document without its lines. -/
def Node.withoutLines (n : Node) : Node :=
  n.mapLines fun _ => 0

/-- A document without its lines. -/
def Document.withoutLines (d : Document) : Document :=
  d.map Node.withoutLines

/-! ## Well-formed trees -/

/-- A scalar of a kind can have a text. -/
inductive LiteralText : LiteralKind → Text → Prop
  | string {t : Text} (ht : InClass .string t) : LiteralText .string t
  | heredoc {t : Text} (hlast : ∀ c, t.getLast? = some c → c ≠ '\r' ∧ c ≠ '\n') :
      LiteralText .heredoc t
  | number {t : Text} (ht : InClass .number t) : LiteralText .number t
  | true : LiteralText .boolean "true".toList
  | false : LiteralText .boolean "false".toList
  | identifier {t : Text} (ht : InClass .name t) (htrue : t ≠ "true".toList)
      (hfalse : t ≠ "false".toList) : LiteralText .identifier t

/-- Values whose scalars have texts of their kinds, and whose names could stand between
quotation marks. -/
inductive Value.WellFormed : Value → Prop
  | literal {k : LiteralKind} {t : Text} (ht : LiteralText k t) : WellFormed (.literal k t)
  | list {vs : List Value} (hvs : ∀ v ∈ vs, WellFormed v) : WellFormed (.list vs)
  | dictionary {es : List Attribute} (hnames : ∀ e ∈ es, StringBody e.name)
      (hvalues : ∀ e ∈ es, WellFormed e.value) : WellFormed (.dictionary es)

/-- An attribute whose name could stand between quotation marks and whose value is well
formed. -/
structure Attribute.WellFormed (a : Attribute) : Prop where
  name : StringBody a.name
  value : a.value.WellFormed

/-- Parts of a document whose names and labels could stand between quotation marks and whose
values are well formed. -/
inductive Node.WellFormed : Node → Prop
  | binding {a : Attribute} (ha : Attribute.WellFormed a) : WellFormed (.attribute a)
  | block {b : Block} (hname : StringBody b.name) (hlabels : ∀ l ∈ b.labels, StringBody l)
      (hchildren : ∀ n ∈ b.children, WellFormed n) : WellFormed (.block b)

/-! ## Symbols -/

/-- A symbol that some lexeme denotes. -/
def Symbol.WellFormed : Symbol → Prop
  | .newline => True
  | .string t => InClass .string t
  | .heredoc t => ∀ c, t.getLast? = some c → c ≠ '\r' ∧ c ≠ '\n'
  | .number t => InClass .number t
  | .name t => InClass .name t
  | .mark _ => True

/-- The value of a heredoc does not end in line ends. -/
theorem getLast?_value_ne {indented : Bool} {body : Text} {c : Char}
    (h : (Heredoc.value indented body).getLast? = some c) : c ≠ '\r' ∧ c ≠ '\n' := by
  rcases trimEnd_append (fun c => c == '\r' || c == '\n')
    (if indented then Text.withoutMargin body else body) with ⟨-, -, -, hlast⟩
  simpa using hlast c h

/-- The symbols of a text have the texts of their lexemes. -/
theorem symbol_wellFormed_of_mem_tokens {t : Text} {ts : TokenList} (hts : tokens t = .ok ts)
    {u : Token} (hu : u ∈ ts.tokens) : u.symbol.WellFormed := by
  rcases tokens_eq_ok_iff.mp hts with ⟨-, rfl⟩
  rcases exists_lexeme_of_mem_tokensFrom hu with ⟨l, hl, hsymbol⟩
  have hclass := (cuts_scan t).inClass l hl
  cases l with
  | lineEnd t =>
      rw [← Option.some.inj hsymbol]
      trivial
  | space t => contradiction
  | comment t => contradiction
  | heredoc indented opener marker body closer =>
      rw [← Option.some.inj hsymbol]
      intro c hc
      exact getLast?_value_ne hc
  | string t =>
      rw [← Option.some.inj hsymbol]
      exact hclass (by simp [classOf])
  | number t =>
      rw [← Option.some.inj hsymbol]
      exact hclass (by simp [classOf])
  | name t =>
      rw [← Option.some.inj hsymbol]
      exact hclass (by simp [classOf])
  | mark m =>
      rw [← Option.some.inj hsymbol]
      trivial

/-- A character of a name could stand between quotation marks. -/
theorem ne_of_isNameChar {c : Char} (h : isNameChar c = true) : c ≠ '"' ∧ c ≠ '\\' ∧ c ≠ '\n' :=
  ⟨ne_of_eq_true h (by decide), ne_of_eq_true h (by decide), ne_of_eq_true h (by decide)⟩

/-- Characters of names could stand between quotation marks. -/
theorem stringBody_of_all_isNameChar {t : Text} (h : ∀ c ∈ t, isNameChar c = true) :
    StringBody t := by
  induction t with
  | nil => exact .nil
  | cons c t ih =>
      rcases ne_of_isNameChar (h c List.mem_cons_self) with ⟨hquote, hslash, hfeed⟩
      exact .plain hquote hslash hfeed (ih fun d hd => h d (List.mem_cons_of_mem c hd))

/-- A name could stand between quotation marks. -/
theorem stringBody_of_inClass_name {t : Text} (h : InClass .name t) : StringBody t := by
  cases h with
  | @name c t hc ht =>
      apply stringBody_of_all_isNameChar
      intro d hd
      rcases List.mem_cons.mp hd with rfl | hd
      · have hmarker := isMarkerChar_of_isNameStart hc
        simp [isNameChar, hmarker]
      · exact ht d hd

/-- Between the quotation marks of a string there is a string body. -/
theorem stringBody_inner {t : Text} (h : InClass .string t) : StringBody t.inner := by
  cases h with
  | string ht => simpa [Text.inner] using ht

/-! ## What texts are read as -/

/-- What is read as a name could stand between quotation marks. -/
theorem Named.stringBody {s : Symbol} {name : Text} (h : Named s name) (hs : s.WellFormed) :
    StringBody name := by
  cases h with
  | name t => exact stringBody_of_inClass_name hs
  | string t => exact stringBody_inner hs

/-- What is read as a scalar is well formed. -/
theorem Scalar.wellFormed {s : Symbol} {v : Value} (h : Scalar s v) (hs : s.WellFormed) :
    v.WellFormed := by
  cases h with
  | string t => exact .literal (.string hs)
  | heredoc t => exact .literal (.heredoc hs)
  | number t => exact .literal (.number hs)
  | true => exact .literal .true
  | false => exact .literal .false
  | identifier t htrue hfalse => exact .literal (.identifier hs htrue hfalse)

/-- A statement of a body of some kind is well formed. -/
def Mode.WellFormed : (m : Mode) → m.Item → Prop
  | .block, n => n.WellFormed
  | .dictionary, a => Attribute.WellFormed a

/-- What is built from the tokens of a nonterminal is well formed. -/
def Nonterminal.WellFormed : (X : Nonterminal) → X.Meaning → Prop
  | .value, v => v.WellFormed
  | .items, vs => ∀ v ∈ vs, v.WellFormed
  | .body m, ss => ∀ s ∈ ss, m.WellFormed s
  | .rest m, ss => ∀ s ∈ ss, m.WellFormed s
  | .statement m, s => m.WellFormed s

/-- What well-formed symbols derive is well formed. -/
theorem Derives.wellFormed {X : Nonterminal} {us : List Token} {a : X.Meaning}
    (h : Derives X us a) (hus : ∀ u ∈ us, u.symbol.WellFormed) : X.WellFormed a := by
  induction h with
  | scalar hs => exact hs.wellFormed (hus _ List.mem_cons_self)
  | list _ ih => exact .list (ih fun u hu => hus u (by simp [hu]))
  | dictionary _ ih =>
      have hentries := ih fun u hu => hus u (by simp [hu])
      exact .dictionary (fun e he => (hentries e he).name) fun e he => (hentries e he).value
  | noItem hns => simp [Nonterminal.WellFormed]
  | lastItem hns _ hms ih =>
      have hvalue := ih fun u hu => hus u (by simp [hu])
      simpa [Nonterminal.WellFormed] using hvalue
  | item hns _ hms _ ihvalue ihrest =>
      have hvalue := ihvalue fun u hu => hus u (by simp [hu])
      have hrest := ihrest fun u hu => hus u (by simp [hu])
      exact List.forall_mem_cons.mpr ⟨hvalue, hrest⟩
  | noStatement hns => simp [Nonterminal.WellFormed]
  | statements hns _ _ ihstatement ihrest =>
      have hstatement := ihstatement fun u hu => hus u (by simp [hu])
      have hrest := ihrest fun u hu => hus u (by simp [hu])
      exact List.forall_mem_cons.mpr ⟨hstatement, hrest⟩
  | noRest => simp [Nonterminal.WellFormed]
  | lineEnd _ ih => exact ih fun u hu => hus u (by simp [hu])
  | comma _ ih => exact ih fun u hu => hus u (by simp [hu])
  | assignment hs _ ih =>
      have hvalue := ih fun u hu => hus u (by simp [hu])
      exact .binding ⟨hs.stringBody (hus _ List.mem_cons_self), hvalue⟩
  | @block s name labels us ns k l e hs _ ih =>
      have hchildren := ih fun u hu => hus u (by simp [hu])
      refine .block (hs.stringBody (hus ⟨s, k⟩ (by simp))) ?_ hchildren
      intro label hlabel
      rcases List.mem_map.mp hlabel with ⟨t, ht, rfl⟩
      rcases List.mem_map.mp ht with ⟨p, hp, rfl⟩
      have hmem : Cursor.stringToken p ∈ labels.map Cursor.stringToken := List.mem_map_of_mem hp
      have hstring := hus (Cursor.stringToken p) (List.mem_append_left _
        (List.mem_append_left _ (List.mem_cons_of_mem _ hmem)))
      exact stringBody_inner hstring
  | entry hs _ _ ih =>
      have hvalue := ih fun u hu => hus u (by simp [hu])
      exact ⟨hs.stringBody (hus _ List.mem_cons_self), hvalue⟩

/-- What a text is read as is well formed. -/
theorem wellFormed_of_read {t : Text} {d : Document} (h : Document.read t = .ok d) :
    ∀ n ∈ d, n.WellFormed := by
  rcases document_read_iff.mp h with ⟨ts, hts, hd⟩
  exact hd.wellFormed fun u hu => symbol_wellFormed_of_mem_tokens hts hu

end Ocl

end DeployGate
