import DeployGate.Proofs.Ocl.Relocation

/-!
# Trees with a hole

A tree with a hole is a tree with one heredoc left out.  Filling the hole puts the text of a
heredoc there and moves what lies behind it by some lines.  What tokens with a heredoc derive
is such a tree, and with another heredoc the tokens derive the same tree filled with its text.

Main results:

- Definitions `Value.Hole`, `Node.Hole` and `Document.Hole`: trees with a hole.
- Definitions `Value.Hole.fill`, `Node.Hole.fill` and `Document.Hole.fill`: how they are filled.
- Theorem `Derives.hasHole`: tokens around a heredoc derive a tree with a hole.
-/

namespace DeployGate

namespace Ocl

/-! ## Holes -/

/-- Elements of a list around one of another kind, which has a hole. -/
structure Amid (α η : Type) where
  before : List α
  hole : η
  after : List α
  deriving DecidableEq, Repr

/-- A value with a hole: the heredoc itself, a list with a hole in one of its values, or a
dictionary with a hole in the value of one of its entries. -/
inductive Value.Hole where
  | here
  | list (before : List Value) (hole : Hole) (after : List Value)
  | dictionary (before : List Attribute) (name : Text) (hole : Hole) (line : Int)
      (after : List Attribute)
  deriving Repr

/-- A part of a document with a hole: in the value of an attribute, or in one of the children
of a block. -/
inductive Node.Hole where
  | attribute (a : Binding Value.Hole)
  | block (name : Text) (labels : List Text) (before : List Node) (hole : Hole)
      (after : List Node) (line : Int)
  deriving Repr

/-- A document with a hole in one of its parts. -/
abbrev Document.Hole := Amid Node Node.Hole

/-- Fill the hole of an element, and move the elements behind it by some lines. -/
def Amid.fill {α η : Type} (move : α → α) (fill : η → α) (x : Amid α η) : List α :=
  x.before ++ fill x.hole :: x.after.map move

/-- The value with a heredoc of some text in its hole, and what lies behind it moved by `n`
lines. -/
def Value.Hole.fill (t : Text) (n : Int) : Value.Hole → Value
  | .here => .literal .heredoc t
  | .list before hole after =>
    .list (before ++ hole.fill t n :: after.map (Value.mapLines (· + n)))
  | .dictionary before name hole line after =>
    .dictionary
      (before ++ ⟨name, hole.fill t n, line⟩ :: after.map (Attribute.mapLines (· + n)))

/-- The attribute with a heredoc of some text in the hole of its value.  The name stands in
front of the hole. -/
def Attribute.fillHole (t : Text) (n : Int) (a : Binding Value.Hole) : Attribute :=
  ⟨a.name, a.value.fill t n, a.line⟩

/-- The part of a document with a heredoc of some text in its hole, and what lies behind it
moved by `n` lines. -/
def Node.Hole.fill (t : Text) (n : Int) : Node.Hole → Node
  | .attribute a => .attribute (Attribute.fillHole t n a)
  | .block name labels before hole after line =>
    .block ⟨name, labels, before ++ hole.fill t n :: after.map (Node.mapLines (· + n)), line⟩

/-- The document with a heredoc of some text in its hole, and what lies behind it moved by `n`
lines. -/
def Document.Hole.fill (t : Text) (n : Int) (h : Document.Hole) : Document :=
  Amid.fill (Node.mapLines (· + n)) (Node.Hole.fill t n) h

/-! ## Holes in what tokens denote -/

/-- A statement of a body with a hole. -/
abbrev Mode.Hole : Mode → Type
  | .block => Node.Hole
  | .dictionary => Binding Value.Hole

/-- The statement with a heredoc of some text in its hole. -/
def Mode.fill (t : Text) (n : Int) : (m : Mode) → m.Hole → m.Item
  | .block, h => h.fill t n
  | .dictionary, a => Attribute.fillHole t n a

/-- What is built from the tokens of a nonterminal, with a hole. -/
abbrev Nonterminal.Hole : Nonterminal → Type
  | .value => Value.Hole
  | .items => Amid Value Value.Hole
  | .body m => Amid m.Item m.Hole
  | .rest m => Amid m.Item m.Hole
  | .statement m => m.Hole

/-- What is built from the tokens of a nonterminal with a heredoc of some text in its hole. -/
def Nonterminal.fill (t : Text) (n : Int) : (X : Nonterminal) → X.Hole → X.Meaning
  | .value, h => h.fill t n
  | .items, h => h.fill (Value.mapLines (· + n)) (Value.Hole.fill t n)
  | .body m, h => h.fill (m.mapLines (· + n)) (m.fill t n)
  | .rest m, h => h.fill (m.mapLines (· + n)) (m.fill t n)
  | .statement m, h => m.fill t n h

/-- Tokens around a heredoc of some text, those behind it moved by `n` lines. -/
def around (front back : List Token) (l : Int) (t : Text) (n : Int) : List Token :=
  front ++ ⟨.heredoc t, l⟩ :: back.map (Token.mapLine (· + n))

/-- Tokens around a heredoc derive a tree with a hole, filled with its text. -/
def Nonterminal.HasHole (X : Nonterminal) (front back : List Token) (l : Int) : Prop :=
  ∃ h : X.Hole, ∀ t n, Derives X (around front back l t n) (X.fill t n h)

/-! ## Tokens around a heredoc -/

variable {front back : List Token} {l : Int} {t : Text} {m : Mode}

/-- What stands in front of tokens stands in front of a heredoc among them. -/
theorem around_append_left (as : List Token) (s : Text) (n : Int) :
    around (as ++ front) back l s n = as ++ around front back l s n := by
  rw [around, around, List.append_assoc]

/-- What stands around tokens stands around a heredoc among them. -/
theorem around_append (as bs : List Token) (s : Text) (n : Int) :
    around (as ++ front) (back ++ bs) l s n =
      as ++ around front back l s n ++ bs.map (Token.mapLine (· + n)) := by
  simp [around]

/-- No heredoc is among line ends. -/
theorem LineEnds.not_mem {ns : List Token} (hns : LineEnds ns) :
    (⟨.heredoc t, l⟩ : Token) ∉ ns := by
  intro hmem
  have hsymbol := hns _ hmem
  contradiction

/-- An element behind others that it is not one of is among what follows them. -/
theorem exists_of_append_eq {α : Type} {as us front back : List α} {u : α} (has : u ∉ as)
    (h : as ++ us = front ++ u :: back) :
    ∃ front', front = as ++ front' ∧ us = front' ++ u :: back := by
  rcases List.append_eq_append_iff.mp h with ⟨mid, hfront, hus⟩ | ⟨mid, has', hback⟩
  · exact ⟨mid, hfront, hus⟩
  · cases mid with
    | nil => exact ⟨[], by simpa using has'.symm, by simpa using hback.symm⟩
    | cons v mid =>
        rcases List.cons.inj hback with ⟨rfl, -⟩
        exact absurd (by simp [has']) has

/-- An element among some and others behind them is among the ones or among the others. -/
theorem exists_of_append_eq_or {α : Type} {us bs front back : List α} {u : α}
    (h : us ++ bs = front ++ u :: back) :
    (∃ back', back = back' ++ bs ∧ us = front ++ u :: back') ∨
      ∃ front', front = us ++ front' ∧ bs = front' ++ u :: back := by
  rcases List.append_eq_append_iff.mp h with ⟨mid, hfront, hbs⟩ | ⟨mid, hus, hback⟩
  · right
    exact ⟨mid, hfront, hbs⟩
  · cases mid with
    | nil =>
        right
        exact ⟨[], by simpa using hus.symm, by simpa using hback.symm⟩
    | cons v mid =>
        rcases List.cons.inj hback with ⟨rfl, rfl⟩
        left
        exact ⟨mid, rfl, hus⟩

/-- Where what surrounds tokens holds no heredoc, a heredoc is among the tokens. -/
theorem exists_around {as us bs : List Token}
    (h : as ++ us ++ bs = front ++ ⟨.heredoc t, l⟩ :: back)
    (has : ⟨.heredoc t, l⟩ ∉ as) (hbs : ⟨.heredoc t, l⟩ ∉ bs) :
    ∃ front' back', front = as ++ front' ∧ back = back' ++ bs ∧
      us = front' ++ ⟨.heredoc t, l⟩ :: back' := by
  rw [List.append_assoc] at h
  rcases exists_of_append_eq has h with ⟨front', rfl, hrest⟩
  rcases exists_of_append_eq_or hrest with ⟨back', rfl, hus⟩ | ⟨mid, -, hmid⟩
  · exact ⟨front', back', rfl, rfl, hus⟩
  · exact absurd (by simp [hmid]) hbs

/-- No heredoc is a name. -/
theorem Named.ne_heredoc {s : Symbol} {name : Text} (h : Named s name) (t : Text) :
    .heredoc t ≠ s := by
  cases h <;> simp

/-! ## Rules around a hole -/

namespace Nonterminal.HasHole

variable {ns us ms ws : List Token} {k j : Int}

/-- A list has a hole where its inside has one. -/
theorem list (h : HasHole .items front back l) :
    HasHole .value (⟨.mark .bracketOpen, j⟩ :: front) (back ++ [⟨.mark .bracketClose, k⟩]) l := by
  rcases h with ⟨h, hh⟩
  refine ⟨.list h.before h.hole h.after, fun s n => ?_⟩
  rw [← List.singleton_append, around_append]
  exact .list (hh s n)

/-- A dictionary has a hole where its body has one. -/
theorem dictionary (h : HasHole (.body .dictionary) front back l) :
    HasHole .value (⟨.mark .braceOpen, j⟩ :: front) (back ++ [⟨.mark .braceClose, k⟩]) l := by
  rcases h with ⟨h, hh⟩
  refine ⟨.dictionary h.before h.hole.name h.hole.value h.hole.line h.after, fun s n => ?_⟩
  rw [← List.singleton_append, around_append]
  exact .dictionary (hh s n)

/-- The inside of a list has a hole where its only value has one. -/
theorem lastItem (hns : LineEnds ns) (h : HasHole .value front back l) (hms : LineEnds ms) :
    HasHole .items (ns ++ front) (back ++ ms) l := by
  rcases h with ⟨h, hh⟩
  refine ⟨⟨[], h, []⟩, fun s n => ?_⟩
  rw [around_append]
  exact .lastItem hns (hh s n) (hms.map _)

/-- The inside of a list has a hole where its first value has one. -/
theorem firstItem {vs : List Value} (hns : LineEnds ns) (h : HasHole .value front back l)
    (hms : LineEnds ms) (hws : Derives .items ws vs) :
    HasHole .items (ns ++ front) (back ++ (ms ++ ⟨.mark .comma, k⟩ :: ws)) l := by
  rcases h with ⟨h, hh⟩
  refine ⟨⟨[], h, vs⟩, fun s n => ?_⟩
  rw [around_append, List.map_append, ← List.append_assoc]
  exact .item hns (hh s n) (hms.map _) (hws.mapLines _)

/-- The inside of a list has a hole where what follows its first value has one. -/
theorem laterItem {v : Value} (hns : LineEnds ns) (hus : Derives .value us v) (hms : LineEnds ms)
    (h : HasHole .items front back l) :
    HasHole .items (ns ++ us ++ ms ++ ⟨.mark .comma, k⟩ :: front) back l := by
  rcases h with ⟨h, hh⟩
  refine ⟨⟨v :: h.before, h.hole, h.after⟩, fun s n => ?_⟩
  rw [List.append_cons, around_append_left, ← List.append_cons]
  exact .item hns hus hms (hh s n)

/-- A body has a hole where its first statement has one. -/
theorem firstStatement {ss : List m.Item} (hns : LineEnds ns)
    (h : HasHole (.statement m) front back l) (hws : Derives (.rest m) ws ss) :
    HasHole (.body m) (ns ++ front) (back ++ ws) l := by
  rcases h with ⟨h, hh⟩
  refine ⟨⟨[], h, ss⟩, fun s n => ?_⟩
  rw [around_append]
  exact .statements hns (hh s n) (hws.mapLines (· + n))

/-- A body has a hole where what follows its first statement has one. -/
theorem laterStatement {s : m.Item} (hns : LineEnds ns) (hus : Derives (.statement m) us s)
    (h : HasHole (.rest m) front back l) : HasHole (.body m) (ns ++ us ++ front) back l := by
  rcases h with ⟨h, hh⟩
  refine ⟨⟨s :: h.before, h.hole, h.after⟩, fun t n => ?_⟩
  rw [around_append_left]
  exact .statements hns hus (hh t n)

/-- What follows a statement has a hole where the body behind a line end has one. -/
theorem lineEnd (h : HasHole (.body m) front back l) :
    HasHole (.rest m) (⟨.newline, k⟩ :: front) back l := by
  rcases h with ⟨h, hh⟩
  exact ⟨h, fun s n => .lineEnd (hh s n)⟩

/-- What follows an entry has a hole where the body behind a comma has one. -/
theorem comma (h : HasHole (.body .dictionary) front back l) :
    HasHole (.rest .dictionary) (⟨.mark .comma, k⟩ :: front) back l := by
  rcases h with ⟨h, hh⟩
  exact ⟨h, fun s n => .comma (hh s n)⟩

variable {s : Symbol} {name : Text}

/-- An attribute has a hole where its value has one. -/
theorem assignment (hs : Named s name) (h : HasHole .value front back l) :
    HasHole (.statement .block) (⟨s, j⟩ :: ⟨.mark .equals, k⟩ :: front) back l := by
  rcases h with ⟨h, hh⟩
  exact ⟨.attribute ⟨name, h, j⟩, fun t n => .assignment hs (hh t n)⟩

/-- An entry has a hole where its value has one. -/
theorem entry {q : Mark} (hs : Named s name) (hq : q = .equals ∨ q = .colon)
    (h : HasHole .value front back l) :
    HasHole (.statement .dictionary) (⟨s, j⟩ :: ⟨.mark q, k⟩ :: front) back l := by
  rcases h with ⟨h, hh⟩
  exact ⟨⟨name, h, j⟩, fun t n => .entry hs hq (hh t n)⟩

/-- A block has a hole where its body has one. -/
theorem block {labels : List (Text × Int)} {e : Int} (hs : Named s name)
    (h : HasHole (.body .block) front back l) :
    HasHole (.statement .block)
      (⟨s, j⟩ :: labels.map Cursor.stringToken ++ ⟨.mark .braceOpen, k⟩ :: front)
      (back ++ [⟨.mark .braceClose, e⟩]) l := by
  rcases h with ⟨h, hh⟩
  refine ⟨.block name ((labels.map Prod.fst).map Text.inner) h.before h.hole h.after j,
    fun t n => ?_⟩
  rw [List.append_cons, around_append, ← List.append_cons]
  exact .block hs (hh t n)

end Nonterminal.HasHole

/-! ## Derivations -/

/-- What tokens around a heredoc derive has a hole there. -/
theorem Derives.exists_hole {X : Nonterminal} {us : List Token} {a : X.Meaning}
    (h : Derives X us a) {front back : List Token} {t : Text} {l : Int}
    (hus : us = front ++ ⟨.heredoc t, l⟩ :: back) : X.HasHole front back l := by
  -- In each rule the heredoc is in one of the parts; marks, names and line ends are none.
  induction h generalizing front back with
  | @scalar s v k hs =>
      cases front with
      | nil =>
          rcases List.cons.inj hus with ⟨-, rfl⟩
          exact ⟨.here, fun s n => .scalar (.heredoc s)⟩
      | cons u front => simp at hus
  | list _ ih =>
      rw [← List.singleton_append] at hus
      rcases exists_around hus (by simp) (by simp) with ⟨front', back', rfl, rfl, hinside⟩
      exact (ih hinside).list
  | dictionary _ ih =>
      rw [← List.singleton_append] at hus
      rcases exists_around hus (by simp) (by simp) with ⟨front', back', rfl, rfl, hinside⟩
      exact (ih hinside).dictionary
  | noItem hns => exact absurd (by simp [hus]) (hns.not_mem (t := t) (l := l))
  | lastItem hns _ hms ih =>
      rcases exists_around hus hns.not_mem hms.not_mem with ⟨front', back', rfl, rfl, hinside⟩
      exact (ih hinside).lastItem hns hms
  | @item ns us ms ws v vs k hns hv hms hws ih ihws =>
      have hcomma : (⟨.heredoc t, l⟩ : Token) ∉ ms ++ [⟨.mark .comma, k⟩] := by
        simpa using hms.not_mem
      rw [List.append_assoc, List.append_assoc] at hus
      rcases exists_of_append_eq hns.not_mem hus with ⟨front', rfl, hrest⟩
      rcases exists_of_append_eq_or hrest with ⟨back', rfl, hinside⟩ | ⟨mid, rfl, hbehind⟩
      · exact (ih hinside).firstItem hns hms hws
      · rw [List.append_cons] at hbehind
        rcases exists_of_append_eq hcomma hbehind with ⟨mid', rfl, hinside⟩
        have hlater := (ihws hinside).laterItem (k := k) hns hv hms
        simpa using hlater
  | noStatement hns => exact absurd (by simp [hus]) (hns.not_mem (t := t) (l := l))
  | statements hns hs hws ih ihws =>
      rw [List.append_assoc] at hus
      rcases exists_of_append_eq hns.not_mem hus with ⟨front', rfl, hrest⟩
      rcases exists_of_append_eq_or hrest with ⟨back', rfl, hinside⟩ | ⟨mid, rfl, hinside⟩
      · exact (ih hinside).firstStatement hns hws
      · rw [← List.append_assoc]
        exact (ihws hinside).laterStatement hns hs
  | noRest => simp at hus
  | lineEnd _ ih =>
      rw [← List.singleton_append] at hus
      rcases exists_of_append_eq (by simp) hus with ⟨front', rfl, hinside⟩
      exact (ih hinside).lineEnd
  | comma _ ih =>
      rw [← List.singleton_append] at hus
      rcases exists_of_append_eq (by simp) hus with ⟨front', rfl, hinside⟩
      exact (ih hinside).comma
  | @assignment s name us v j k hs _ ih =>
      have hsplit : [⟨s, j⟩, ⟨.mark .equals, k⟩] ++ us = front ++ ⟨.heredoc t, l⟩ :: back := hus
      rcases exists_of_append_eq (by simp [hs.ne_heredoc]) hsplit with ⟨front', rfl, hinside⟩
      exact (ih hinside).assignment hs
  | @block s name labels us ns j k e hs _ ih =>
      have hname : (⟨.heredoc t, l⟩ : Token) ∉
          ⟨s, j⟩ :: labels.map Cursor.stringToken ++ [⟨.mark .braceOpen, k⟩] := by
        simp [hs.ne_heredoc, Cursor.stringToken]
      rw [List.append_cons _ _ us] at hus
      rcases exists_around hus hname (by simp) with ⟨front', back', rfl, rfl, hinside⟩
      rw [← List.append_cons]
      exact (ih hinside).block hs
  | @entry s name q us v j k hs hq _ ih =>
      have hsplit : [⟨s, j⟩, ⟨.mark q, k⟩] ++ us = front ++ ⟨.heredoc t, l⟩ :: back := hus
      rcases exists_of_append_eq (by simp [hs.ne_heredoc]) hsplit with ⟨front', rfl, hinside⟩
      exact (ih hinside).entry hs hq

/-- Tokens around some heredoc derive a tree with a hole, however far those behind it are
moved. -/
theorem Derives.hasHole {X : Nonterminal} {n : Int} {a : X.Meaning}
    (h : Derives X (around front back l t n) a) : X.HasHole front back l := by
  rcases h.exists_hole rfl with ⟨h, hh⟩
  have hback : around front (back.map (Token.mapLine (· + n))) l t (-n) =
      front ++ ⟨.heredoc t, l⟩ :: back := by
    simp [around, Function.comp_def, Token.mapLine]
  have hthere := hh t (-n)
  rw [hback] at hthere
  exact hthere.exists_hole rfl

end Ocl

end DeployGate
