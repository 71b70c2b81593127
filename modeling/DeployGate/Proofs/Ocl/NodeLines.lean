import DeployGate.Proofs.Ocl.ErrorMessage

/-!
# Lines of statements

A statement is on the line of its name.  So the lines of all attributes and blocks, each in front
of what it holds, are those of the tokens that name a statement, in the order of the text.  They
never go back.  A line end is between two statements of a block, so that these are on different
lines; in a dictionary a comma may be between two entries.

Main results:

- Definitions `Value.outline` and `Node.outline`: all names with their lines, in preorder.
- Definition `statementNames`: the tokens that name a statement.
- Theorem `Derives.statementNames_append`: the names of a tree are those of its tokens.
- Theorem `pairwise_tokensFrom`: the lines of tokens never go back, and go on behind a line end.
- Theorem `Derives.ascends`: the statements of a block are on lines of their own.
- Theorem `read_lines`: all of it for whole texts.
-/

namespace DeployGate

namespace Ocl

/-! ## Outlines of trees -/

/-- A name and the line it is on. -/
structure PlacedName where
  name : Text
  line : Int
  deriving DecidableEq, Repr

mutual

/-- The names of the entries in a value with their lines, each in front of those in its own
value. -/
def Value.outline : Value → List PlacedName
  | .literal _ _ => []
  | .list vs => outlineItems vs
  | .dictionary es => outlineEntries es

/-- The names in the items of a list. -/
def Value.outlineItems : List Value → List PlacedName
  | [] => []
  | v :: vs => v.outline ++ outlineItems vs

/-- The names of some entries and those in their values. -/
def Value.outlineEntries : List Attribute → List PlacedName
  | [] => []
  | ⟨n, v, l⟩ :: es => ⟨n, l⟩ :: v.outline ++ outlineEntries es

end

/-- The name of an attribute and those in its value. -/
def Attribute.outline (a : Attribute) : List PlacedName :=
  ⟨a.name, a.line⟩ :: a.value.outline

mutual

/-- The name of a part of a document in front of all names inside, with their lines. -/
def Node.outline : Node → List PlacedName
  | .attribute a => Attribute.outline a
  | .block ⟨n, _, cs, l⟩ => ⟨n, l⟩ :: outlineChildren cs

/-- The names of some parts of a document and those inside them. -/
def Node.outlineChildren : List Node → List PlacedName
  | [] => []
  | n :: ns => n.outline ++ outlineChildren ns

end

/-- The names of a document in the order of the text, with their lines. -/
def Document.outline (d : Document) : List PlacedName :=
  d.flatMap Node.outline

/-- The items of a list are outlined one by one. -/
@[simp] theorem Value.outlineItems_eq (vs : List Value) :
    outlineItems vs = vs.flatMap outline := by
  induction vs with
  | nil => rfl
  | cons v vs ih => rw [outlineItems, ih, List.flatMap_cons]

/-- The entries of a dictionary are outlined one by one. -/
@[simp] theorem Value.outlineEntries_eq (es : List Attribute) :
    outlineEntries es = es.flatMap Attribute.outline := by
  induction es with
  | nil => rfl
  | cons e es ih =>
      rw [outlineEntries, ih, List.flatMap_cons]
      rfl

/-- The parts of a document are outlined one by one. -/
@[simp] theorem Node.outlineChildren_eq (ns : List Node) :
    outlineChildren ns = ns.flatMap outline := by
  induction ns with
  | nil => rfl
  | cons n ns ih => rw [outlineChildren, ih, List.flatMap_cons]

/-- The names in a statement of a body. -/
def Mode.outline : (m : Mode) → m.Item → List PlacedName
  | .block, n => n.outline
  | .dictionary, a => Attribute.outline a

/-- The names in what is built from the tokens of a nonterminal. -/
def Nonterminal.outline : (X : Nonterminal) → X.Meaning → List PlacedName
  | .value, v => v.outline
  | .items, vs => vs.flatMap Value.outline
  | .body m, ss => ss.flatMap m.outline
  | .rest m, ss => ss.flatMap m.outline
  | .statement m, s => m.outline s

/-! ## Tokens that name a statement -/

/-- Tokens behind a name make it the name of a statement: a separator, or labels and a brace. -/
def opensStatement : List Token → Bool
  | ⟨.mark .equals, _⟩ :: _ => true
  | ⟨.mark .colon, _⟩ :: _ => true
  | ⟨.mark .braceOpen, _⟩ :: _ => true
  | ⟨.string _, _⟩ :: us => opensStatement us
  | _ => false

/-- The names of the tokens that name a statement, with the lines of these tokens.  A name right
behind another one is a label. -/
def statementNames (behindName : Bool) : List Token → List PlacedName
  | [] => []
  | u :: us =>
    match u.symbol.name? with
    | some name =>
      if !behindName && opensStatement us then ⟨name, u.line⟩ :: statementNames true us
      else statementNames true us
    | none => statementNames false us

variable {us ns rest : List Token} {s : Symbol} {name : Text} {l : Int}

/-- A token that spells no name is passed. -/
theorem statementNames_cons_of_name? (hs : s.name? = none) (b : Bool) (l : Int)
    (us : List Token) : statementNames b (⟨s, l⟩ :: us) = statementNames false us := by
  rw [statementNames]
  simp only [hs]

/-- Line ends are passed. -/
theorem statementNames_lineEnds (hns : LineEnds ns) (us : List Token) :
    statementNames false (ns ++ us) = statementNames false us := by
  induction ns with
  | nil => rfl
  | cons n ns ih =>
      rcases n with ⟨s, l⟩
      have hs : s = .newline := hns _ List.mem_cons_self
      subst hs
      rw [List.cons_append, statementNames_cons_of_name? rfl,
        ih fun t ht => hns t (List.mem_cons_of_mem _ ht)]

/-- A name is the name of a statement in front of what opens one. -/
theorem statementNames_cons_of_opens (hs : Named s name) (h : opensStatement us = true) :
    statementNames false (⟨s, l⟩ :: us) = ⟨name, l⟩ :: statementNames true us := by
  rw [statementNames]
  simp [named_iff.mp hs, h]

/-- Labels and the brace behind them open a statement. -/
theorem opensStatement_labels (labels : List (Text × Int)) (l : Int) (us : List Token) :
    opensStatement (labels.map Cursor.stringToken ++ ⟨.mark .braceOpen, l⟩ :: us) = true := by
  induction labels with
  | nil => rfl
  | cons label labels ih => exact ih

/-- Labels behind a name are passed, and so is the brace behind them. -/
theorem statementNames_labels (labels : List (Text × Int)) (l : Int) (us : List Token) :
    statementNames true (labels.map Cursor.stringToken ++ ⟨.mark .braceOpen, l⟩ :: us) =
      statementNames false us := by
  induction labels with
  | nil => exact statementNames_cons_of_name? rfl true l us
  | cons label labels ih =>
      rw [List.map_cons, List.cons_append, Cursor.stringToken, statementNames]
      simpa [Symbol.name?] using ih

/-- In front of some tokens a value can be over: they open no statement, and they start with no
name that could be a label. -/
structure Settled (us : List Token) : Prop where
  opens : opensStatement us = false
  names (b : Bool) : statementNames b us = statementNames false us

/-- Where the tokens are over a value is over. -/
theorem settled_nil : Settled [] :=
  ⟨rfl, fun _ => rfl⟩

/-- In front of a line end a value is over. -/
theorem settled_newline (l : Int) (us : List Token) : Settled (⟨.newline, l⟩ :: us) :=
  ⟨rfl, fun b => statementNames_cons_of_name? rfl b l us⟩

/-- In front of marks that neither separate a name from a value nor open a body a value is over. -/
theorem settled_mark {q : Mark} (hq : q = .comma ∨ q = .bracketClose ∨ q = .braceClose) (l : Int)
    (us : List Token) : Settled (⟨.mark q, l⟩ :: us) :=
  ⟨by rcases hq with rfl | rfl | rfl <;> rfl, fun b => statementNames_cons_of_name? rfl b l us⟩

/-- Where a value is over it is over in front of line ends as well. -/
theorem Settled.lineEnds (h : Settled us) (hns : LineEnds ns) : Settled (ns ++ us) := by
  cases ns with
  | nil => exact h
  | cons n ns =>
      rcases n with ⟨s, l⟩
      have hs : s = .newline := hns _ List.mem_cons_self
      subst hs
      exact settled_newline l (ns ++ us)

/-- Where a statement of a body is over a value is over. -/
theorem Derives.settled {m : Mode} {ss : List m.Item} (h : Derives (.rest m) us ss)
    (hrest : Settled rest) : Settled (us ++ rest) := by
  cases h with
  | noRest => exact hrest
  | lineEnd => exact settled_newline _ _
  | comma => exact settled_mark (.inl rfl) _ _

/-- A scalar names no statement. -/
theorem statementNames_scalar (h : Settled rest) (s : Symbol) (l : Int) :
    statementNames false (⟨s, l⟩ :: rest) = statementNames false rest := by
  rw [statementNames]
  cases s.name? with
  | none => rfl
  | some name => simp [h.opens, h.names true]

/-- The names of what tokens derive are those of the tokens that name a statement. -/
theorem Derives.statementNames_append {X : Nonterminal} {a : X.Meaning} (h : Derives X us a)
    (hrest : Settled rest) :
    statementNames false (us ++ rest) = X.outline a ++ statementNames false rest := by
  induction h generalizing rest with
  | @scalar s v l hs =>
      have hnone : v.outline = [] := by cases hs <;> rfl
      rw [Nonterminal.outline, hnone]
      exact statementNames_scalar hrest s l
  | @list us vs k l _ ih =>
      have hitems := ih (settled_mark (.inr (.inl rfl)) l rest)
      rw [List.cons_append, List.cons_append, List.append_assoc,
        statementNames_cons_of_name? rfl, List.singleton_append, hitems,
        statementNames_cons_of_name? rfl, Nonterminal.outline, Nonterminal.outline, Value.outline,
        Value.outlineItems_eq]
  | @dictionary us es k l _ ih =>
      have hentries := ih (settled_mark (.inr (.inr rfl)) l rest)
      rw [List.cons_append, List.cons_append, List.append_assoc,
        statementNames_cons_of_name? rfl, List.singleton_append, hentries,
        statementNames_cons_of_name? rfl, Nonterminal.outline, Nonterminal.outline, Value.outline,
        Value.outlineEntries_eq]
      rfl
  | noItem hns => exact statementNames_lineEnds hns rest
  | @lastItem ns us ms v hns _ hms ih =>
      have hvalue := ih (hrest.lineEnds hms)
      rw [List.append_assoc, List.append_assoc, statementNames_lineEnds hns, hvalue,
        statementNames_lineEnds hms]
      simp [Nonterminal.outline]
  | @item ns us ms ws v vs l hns _ hms _ ihvalue ihrest =>
      have hvalue := ihvalue ((settled_mark (.inl rfl) l (ws ++ rest)).lineEnds hms)
      rw [List.append_assoc, List.append_assoc, List.append_assoc, List.cons_append,
        statementNames_lineEnds hns, hvalue, statementNames_lineEnds hms,
        statementNames_cons_of_name? rfl, ihrest hrest]
      simp [Nonterminal.outline]
  | noStatement hns => exact statementNames_lineEnds hns rest
  | @statements m ns us ws s ss hns _ hws ihstatement ihrest =>
      have hstatement := ihstatement (hws.settled hrest)
      rw [List.append_assoc, List.append_assoc, statementNames_lineEnds hns, hstatement,
        ihrest hrest]
      simp [Nonterminal.outline]
  | noRest => rfl
  | lineEnd _ ih =>
      rw [List.cons_append, statementNames_cons_of_name? rfl, ih hrest]
      rfl
  | comma _ ih =>
      rw [List.cons_append, statementNames_cons_of_name? rfl, ih hrest]
      rfl
  | assignment hs _ ih =>
      rw [List.cons_append, List.cons_append, statementNames_cons_of_opens hs rfl,
        statementNames_cons_of_name? rfl, ih hrest]
      rfl
  | @block s name labels us ns k l e hs _ ih =>
      have hchildren := ih (settled_mark (.inr (.inr rfl)) e rest)
      have hopens := opensStatement_labels labels l (us ++ ⟨.mark .braceClose, e⟩ :: rest)
      simp only [List.cons_append, List.append_assoc, List.nil_append]
      rw [statementNames_cons_of_opens hs hopens, statementNames_labels, hchildren,
        statementNames_cons_of_name? rfl]
      simp only [Nonterminal.outline, Mode.outline, Node.outline, Node.outlineChildren_eq,
        List.cons_append]
      rfl
  | @entry s name q us v k l hs hq _ ih =>
      have hopens : opensStatement (⟨.mark q, l⟩ :: (us ++ rest)) = true := by
        rcases hq with rfl | rfl <;> rfl
      rw [List.cons_append, List.cons_append, statementNames_cons_of_opens hs hopens,
        statementNames_cons_of_name? rfl, ih hrest]
      rfl

/-! ## Lines of tokens -/

/-- A token is not on a later line than another one, and a line end is on an earlier one. -/
def Token.Before (t u : Token) : Prop :=
  t.line ≤ u.line ∧ (t.symbol = .newline → t.line < u.line)

/-- The tokens of lexemes are not on earlier lines than where the lexemes start. -/
theorem le_line_of_mem_tokensFrom {line : Int} {ls : List Lexeme} {u : Token}
    (hu : u ∈ (tokensFrom line ls).tokens) : line ≤ u.line := by
  induction ls generalizing line with
  | nil => simp [tokensFrom] at hu
  | cons l ls ih =>
      rw [tokensFrom] at hu
      cases hs : l.symbol? with
      | none =>
          rw [hs] at hu
          have hle := ih hu
          omega
      | some s =>
          rw [hs] at hu
          rcases List.mem_cons.mp hu with rfl | hu
          · exact le_rfl
          · have hle := ih hu
            omega

/-- The lines of tokens never go back, and they go on behind a line end. -/
theorem pairwise_tokensFrom (line : Int) (ls : List Lexeme) :
    (tokensFrom line ls).tokens.Pairwise Token.Before := by
  induction ls generalizing line with
  | nil => exact .nil
  | cons l ls ih =>
      have hlater := ih (line + l.linesPassed)
      rw [tokensFrom]
      cases hs : l.symbol? with
      | none => exact hlater
      | some s =>
          refine List.pairwise_cons.mpr ⟨fun u hu => ?_, hlater⟩
          have hle := le_line_of_mem_tokensFrom hu
          refine ⟨by dsimp only; omega, fun hnewline => ?_⟩
          have hpassed : l.linesPassed = 1 := by
            cases l <;> simp_all [Lexeme.symbol?, Lexeme.linesPassed]
          rw [hpassed] at hle
          dsimp only
          omega

/-- The names of statements are on the lines of their tokens, in the order of these. -/
theorem map_line_statementNames_sublist (b : Bool) (us : List Token) :
    ((statementNames b us).map PlacedName.line).Sublist (us.map Token.line) := by
  induction us generalizing b with
  | nil => exact .slnil
  | cons u us ih =>
      rw [statementNames]
      split
      · split
        · exact (ih true).cons_cons u.line
        · exact (ih true).cons u.line
      · exact (ih false).cons u.line

/-! ## Statements of a block -/

/-- The line of a part of a document. -/
def Node.line : Node → Int
  | .attribute a => a.line
  | .block b => b.line

/-- The parts of a document on lines that go on from each to the next, at every depth. -/
inductive Node.Ascends : Node → Prop
  | binding (a : Attribute) : Ascends (.attribute a)
  | block {b : Block} (hlines : b.children.Pairwise fun m n => m.line < n.line)
      (hchildren : ∀ n ∈ b.children, Ascends n) : Ascends (.block b)

/-- Lines go on from each statement of a block to the next, at every depth. -/
def Nonterminal.Ascends : (X : Nonterminal) → X.Meaning → Prop
  | .body .block, ns => ns.Pairwise (fun m n => m.line < n.line) ∧ ∀ n ∈ ns, n.Ascends
  | .rest .block, ns => ns.Pairwise (fun m n => m.line < n.line) ∧ ∀ n ∈ ns, n.Ascends
  | .statement .block, n => n.Ascends
  | _, _ => True

/-- A statement of a block is on the line of its first token. -/
theorem Derives.statement_line {n : Node} (h : Derives (.statement .block) us n) :
    ∃ t ts, us = t :: ts ∧ t.line = n.line := by
  cases h with
  | assignment => exact ⟨_, _, rfl, rfl⟩
  | block => exact ⟨_, _, rfl, rfl⟩

/-- The line of a part of a document is one of its outline. -/
theorem Node.line_mem_outline (n : Node) : n.line ∈ n.outline.map PlacedName.line := by
  rcases n with a | b
  · exact List.mem_cons_self
  · exact List.mem_cons_self

/-- The statements of a block are on lines of its tokens. -/
theorem Derives.exists_line_eq {ns : List Node} {n : Node} (h : Derives (.body .block) us ns)
    (hn : n ∈ ns) : ∃ t ∈ us, t.line = n.line := by
  have hnames := h.statementNames_append settled_nil
  rw [List.append_nil, statementNames, List.append_nil] at hnames
  have hline : n.line ∈ (statementNames false us).map PlacedName.line := by
    rcases List.mem_map.mp n.line_mem_outline with ⟨p, hp, hline⟩
    rw [hnames]
    exact List.mem_map.mpr ⟨p, List.mem_flatMap.mpr ⟨n, hn, hp⟩, hline⟩
  exact List.mem_map.mp ((map_line_statementNames_sublist false us).subset hline)

/-- What stands behind a statement of a block is on later lines than any token of it. -/
theorem Derives.line_lt_of_rest {t : Token} {ns : List Node} {n : Node}
    (h : Derives (.rest .block) us ns) (hus : (t :: us).Pairwise Token.Before) (hn : n ∈ ns) :
    t.line < n.line := by
  rcases List.pairwise_cons.mp hus with ⟨ht, hus⟩
  cases h with
  | noRest => simp at hn
  | @lineEnd _ us _ l hbody =>
      rcases hbody.exists_line_eq hn with ⟨u, hu, hline⟩
      have hfirst := (ht ⟨.newline, l⟩ List.mem_cons_self).1
      have hsecond := ((List.pairwise_cons.mp hus).1 u hu).2 rfl
      rw [← hline]
      exact hfirst.trans_lt hsecond

/-- The statements of a block are on lines that go on from each to the next. -/
theorem Derives.ascends {X : Nonterminal} {a : X.Meaning} (h : Derives X us a)
    (hus : us.Pairwise Token.Before) : X.Ascends a := by
  induction h with
  | @noStatement m ns hns => cases m <;> simp [Nonterminal.Ascends]
  | @statements m ns us ws s ss hns hstatement hws ihstatement ihrest =>
      have hfirst := ihstatement (hus.sublist
        ((List.sublist_append_right ns us).trans (List.sublist_append_left _ ws)))
      have hbehind := ihrest (hus.sublist (List.sublist_append_right _ ws))
      cases m with
      | dictionary => trivial
      | block =>
          rcases hstatement.statement_line with ⟨t, ts, rfl, hline⟩
          have hsorted : (t :: ws).Pairwise Token.Before := by
            refine hus.sublist ?_
            rw [List.append_assoc]
            exact ((List.sublist_append_right ts ws).cons_cons t).trans
              (List.sublist_append_right ns _)
          refine ⟨List.pairwise_cons.mpr ⟨fun n hn => ?_, hbehind.1⟩,
            List.forall_mem_cons.mpr ⟨hfirst, hbehind.2⟩⟩
          rw [← hline]
          exact hws.line_lt_of_rest hsorted hn
  | @noRest m => cases m <;> simp [Nonterminal.Ascends]
  | @lineEnd m us ss l _ ih =>
      have hbody := ih (List.pairwise_cons.mp hus).2
      cases m <;> exact hbody
  | assignment => exact .binding _
  | @block s name labels us ns k l e hs _ ih =>
      have hinside : us.Sublist (⟨s, k⟩ :: labels.map Cursor.stringToken ++
          ⟨.mark .braceOpen, l⟩ :: us ++ [⟨.mark .braceClose, e⟩]) := by
        refine (List.Sublist.trans ?_ (List.sublist_append_right _ _)).trans
          (List.sublist_append_left _ _)
        exact (List.Sublist.refl us).cons _
      have hchildren := ih (hus.sublist hinside)
      exact .block hchildren.1 hchildren.2
  | _ => trivial

/-! ## Whole texts -/

/-- The attributes and blocks of a document, each in front of what it holds, are on the lines of
the tokens that name them, and these are all tokens that name a statement.  The lines are ones of
the text and never go back, and they go on from each statement to the next at the top and in every
block. -/
theorem read_lines {t : Text} {d : Document} (h : Document.read t = .ok d) :
    (∃ ts, tokens t = .ok ts ∧ statementNames false ts.tokens = Document.outline d) ∧
    ((Document.outline d).map PlacedName.line).Pairwise (· ≤ ·) ∧
    (∀ p ∈ Document.outline d, IsLineOf t p.line) ∧
    d.Pairwise (fun m n => m.line < n.line) ∧ ∀ n ∈ d, n.Ascends := by
  rcases document_read_iff.mp h with ⟨ts, hts, hd⟩
  rcases tokens_eq_ok_iff.mp hts with ⟨-, rfl⟩
  have hsorted := pairwise_tokensFrom 1 (Scan.of t).lexemes
  have hnames := hd.statementNames_append settled_nil
  rw [List.append_nil, statementNames, List.append_nil] at hnames
  have hlines := map_line_statementNames_sublist false (tokensFrom 1 (Scan.of t).lexemes).tokens
  rw [hnames] at hlines
  refine ⟨⟨_, hts, hnames⟩, ?_, fun p hp => ?_, hd.ascends hsorted⟩
  · have hle := hsorted.imp fun {u v : Token} (huv : u.Before v) => huv.1
    exact (List.pairwise_map.mpr hle).sublist hlines
  · rcases List.mem_map.mp (hlines.subset (List.mem_map_of_mem hp)) with ⟨u, hu, hline⟩
    rw [← hline]
    exact (isLineOf_tokensFrom_scan t).1 u hu

/-- A text with two entries of a dictionary on one line, in a list in a block. -/
def nestedText : Text :=
  "a \x7b\n b = [\x7bd=1,c:<<E\nx\nE\n\x7d]\n\x7d\ne=2".toList

/-- The document of that text. -/
def nestedDocument : Document :=
  [.block ⟨['a'], [], [.attribute ⟨['b'], .list [.dictionary
      [⟨['d'], .literal .number ['1'], 2⟩, ⟨['c'], .literal .heredoc ['x'], 2⟩]], 2⟩], 1⟩,
    .attribute ⟨['e'], .literal .number ['2'], 7⟩]

/-- Five names of that document are on three lines of the text. -/
theorem read_lines_nested :
    Document.read nestedText = .ok nestedDocument ∧
    (∃ ts, tokens nestedText = .ok ts ∧ statementNames false ts.tokens =
      [⟨['a'], 1⟩, ⟨['b'], 2⟩, ⟨['d'], 2⟩, ⟨['c'], 2⟩, ⟨['e'], 7⟩]) ∧
    ((Document.outline nestedDocument).map PlacedName.line).Pairwise (· ≤ ·) ∧
    (∀ p ∈ Document.outline nestedDocument, IsLineOf nestedText p.line) ∧
    nestedDocument.Pairwise (fun m n => m.line < n.line) ∧ ∀ n ∈ nestedDocument, n.Ascends := by
  have hread : Document.read nestedText = .ok nestedDocument := by cbv
  exact ⟨hread, read_lines hread⟩

end Ocl

end DeployGate
