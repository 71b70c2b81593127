import DeployGate.Proofs.Ocl.LexemeWriting

/-!
# Texts that go on

A text keeps its lexemes when another text is put behind it, if the other one starts with a
line feed.  It keeps them in front of an opening angle mark too, unless it ends with a comment
or a heredoc: these alone reach up to the end of their line.

Main results:

- Theorem `Lexeme.isNext_heredoc_iff`: when a heredoc is next, by its lines.
- Definitions `Lexeme.EndsBefore` and `Lexeme.IsOver`: a lexeme is over in front of a character,
  and in front of a text.
- Theorems `Lexeme.IsNext.replace` and `Lexeme.Cuts.replace`: what is next, and a cut, stay with
  another text behind them.
- Theorem `Lexeme.Cuts.scan_append`: a scan of a longer text goes on where the text ended.
-/

namespace DeployGate

namespace Ocl

/-! ## Lines of heredocs -/

namespace Heredoc

/-- A body in front of a text puts its lines in front of the lines of the text. -/
theorem lines_bodyOf_append {before : List Text} (hfeed : ∀ k ∈ before, '\n' ∉ k) (t : Text) :
    Text.lines (bodyOf before ++ t) = before ++ Text.lines t := by
  induction before with
  | nil => rfl
  | cons k before ih =>
      have hk := hfeed k List.mem_cons_self
      have hrest := ih fun d hd => hfeed d (List.mem_cons_of_mem _ hd)
      have hsplit : bodyOf (k :: before) ++ t = k ++ '\n' :: (bodyOf before ++ t) := by
        simp [bodyOf]
      rw [hsplit, Text.lines, Text.splitAt_append_cons hk, ← Text.lines, hrest, List.cons_append]

/-- Lines in front of others are a body in front of the text of the others. -/
theorem unlines_append_cons (before : List Text) (l : Text) (later : List Text) :
    Text.unlines (before ++ l :: later) = bodyOf before ++ Text.unlines (l :: later) := by
  induction before with
  | nil => rfl
  | cons k before ih =>
      have hsplit : Text.unlines (k :: before ++ l :: later) =
          k ++ '\n' :: Text.unlines (before ++ l :: later) := by
        cases before <;> exact unlines_cons_cons ..
      rw [hsplit, ih]
      simp [bodyOf]

/-- Behind the first of some lines the line is over. -/
theorem exists_unlines_cons (l : Text) (later : List Text) :
    ∃ rest, Text.unlines (l :: later) = l ++ rest ∧ AtLineEnd rest := by
  cases later with
  | nil => exact ⟨[], by rw [unlines_singleton, List.append_nil], .inl rfl⟩
  | cons k later => exact ⟨_, unlines_cons_cons l k later, .inr ⟨_, rfl⟩⟩

/-- The first line of a text where a line is over is what stands in front. -/
theorem exists_lines_append {l rest : Text} (hl : '\n' ∉ l) (hrest : AtLineEnd rest) :
    ∃ later, Text.lines (l ++ rest) = l :: later := by
  rcases hrest with rfl | ⟨u, rfl⟩
  · exact ⟨[], by rw [List.append_nil, Text.lines, Text.splitAt_of_not_mem hl]⟩
  · exact ⟨Text.lines u, Text.splitAt_append_cons hl u⟩

end Heredoc

namespace Lexeme

open Heredoc (AtLineEnd HoldsOnly bodyOf)

/-! ## Lexemes that reach up to the end of their line -/

/-- A heredoc is next in front of a text exactly if its lines are ones of a body and its
closing line is the first that holds the marker alone, and is over. -/
theorem isNext_heredoc_iff {indented : Bool} {opener marker body closer rest : Text} :
    IsNext (.heredoc indented opener marker body closer)
        (opener ++ (body ++ (closer ++ rest))) ↔
      Opens indented marker opener ∧
      (∃ before, body = bodyOf before ∧ ∀ k ∈ before, '\n' ∉ k ∧ ¬HoldsOnly marker k) ∧
      HoldsOnly marker closer ∧ AtLineEnd rest := by
  constructor
  · intro h
    generalize htext : opener ++ (body ++ (closer ++ rest)) = t at h
    cases h with
    | plain hplain => exact absurd rfl hplain
    | @heredoc _ _ _ _ _ before later h hopens hlines hbefore hcloser =>
        rw [← htext, List.drop_left] at hlines
        have hfeed : ∀ k ∈ before, '\n' ∉ k := by
          intro k hk
          apply Heredoc.line_feed_not_mem_of_mem_lines k
          rw [hlines]
          exact List.mem_append_left _ hk
        refine ⟨hopens, ⟨before, rfl, fun k hk => ⟨hfeed k hk, hbefore k hk⟩⟩, hcloser, ?_⟩
        -- What the lines are joined to again is the text behind the opener.
        rcases Heredoc.exists_unlines_cons closer later with ⟨rest', hrest', hend⟩
        have hjoin := congrArg Text.unlines hlines
        rw [Text.unlines_lines, Heredoc.unlines_append_cons, hrest'] at hjoin
        have hsame := List.append_cancel_left (List.append_cancel_left hjoin)
        rw [hsame]
        exact hend
  · intro h
    rcases h with ⟨hopens, ⟨before, rfl, hbefore⟩, hcloser, hrest⟩
    have hfeed := hcloser.line_feed_not_mem hopens.isMarker
    rcases Heredoc.exists_lines_append hfeed hrest with ⟨later, hlater⟩
    have hlines : Text.lines ((opener ++ (bodyOf before ++ (closer ++ rest))).drop opener.length) =
        before ++ closer :: later := by
      rw [List.drop_left, Heredoc.lines_bodyOf_append fun k hk => (hbefore k hk).1, hlater]
    exact .heredoc (longest_opener (opener?_of_opens hopens _)) hopens hlines
      (fun k hk => (hbefore k hk).2) hcloser

/-- A comment goes on with whatever holds no line feed. -/
theorem inClass_comment_append {u v : Text} (hu : InClass .comment u) (hv : '\n' ∉ v) :
    InClass .comment (u ++ v) := by
  cases hu with
  | hash ht => exact .hash (by simp [ht, hv])
  | slashes ht => exact .slashes (by simp [ht, hv])

/-- Behind a comment the line is over. -/
theorem Longest.atLineEnd {u t : Text} (h : Longest .comment u (u ++ t)) : AtLineEnd t := by
  cases t with
  | nil => exact .inl rfl
  | cons d t =>
      by_cases hd : d = '\n'
      · subst hd
        exact .inr ⟨t, rfl⟩
      · -- With the next character the comment would be longer.
        have hlonger : InClass .comment (u ++ [d]) :=
          inClass_comment_append h.inClass (by simpa using Ne.symm hd)
        have hle := (h.longest _ (u ++ [d]) ⟨t, by simp⟩ hlonger).2
        simp at hle

/-! ## Lexemes of other texts -/

/-- A lexeme is over in front of a character, whatever follows: every one in front of a line
feed, and in front of an opening angle mark all but comments and heredocs. -/
def EndsBefore (c : Char) (l : Lexeme) : Prop :=
  c = '\n' ∨ c = '<' ∧ l.classOf ≠ .comment ∧ l.classOf ≠ .opener

/-- A lexeme is over in front of a text that goes on with no character of numbers: a comment and
a heredoc where the line is over, and space and a name in front of characters that they do not
have. -/
def IsOver (r : Text) : Lexeme → Prop
  | .comment _ => AtLineEnd r
  | .heredoc .. => AtLineEnd r
  | .space _ => ∀ c, r.head? = some c → isSpace c = false
  | .name _ => ∀ c, r.head? = some c → isNameChar c = false
  | _ => True

/-- A lexeme that is over in front of a character is over in front of a text with it. -/
theorem EndsBefore.isOver {c : Char} {l : Lexeme} (h : l.EndsBefore c) (w : Text) :
    l.IsOver (c :: w) := by
  have hline (hclass : l.classOf = .comment ∨ l.classOf = .opener) : AtLineEnd (c :: w) := by
    rcases h with rfl | ⟨-, hcomment, hopener⟩
    · exact .inr ⟨w, rfl⟩
    · rcases hclass with hclass | hclass
      · exact absurd hclass hcomment
      · exact absurd hclass hopener
  have hhead {p : Char → Bool} (hfeed : p '\n' = false) (hangle : p '<' = false) (d : Char)
      (hd : (c :: w).head? = some d) : p d = false := by
    rcases Option.some.inj hd with rfl
    rcases h with rfl | ⟨rfl, -⟩
    · exact hfeed
    · exact hangle
  cases l with
  | comment => exact hline (.inl rfl)
  | heredoc => exact hline (.inr rfl)
  | space => exact hhead (by decide) (by decide)
  | name => exact hhead (by decide) (by decide)
  | _ => trivial

/-- What starts a text and does not hold a character lies in front of that character. -/
theorem isPrefix_of_not_mem {c : Char} {v p q : Text} (hc : c ∉ v) (h : v <+: p ++ c :: q) :
    v <+: p := by
  have hthere : p ++ [c] <+: p ++ c :: q := ⟨q, by simp⟩
  rcases List.prefix_or_prefix_of_prefix h hthere with hfront | hover
  · rcases List.prefix_concat_iff.mp hfront with hall | hshort
    · exact absurd (by simp [hall]) hc
    · exact hshort
  · exact absurd (hover.subset (by simp)) hc

/-- What is longest stays longest with another text behind it, if that starts with a character
that no lexeme of the class holds. -/
theorem Longest.replace {k : Class} {u x b r : Text} (h : Longest k u (u ++ (x ++ b)))
    (hr : ∀ c, r.head? = some c → ∀ v, InClass k v → c ∉ v) :
    Longest k u (u ++ (x ++ r)) := by
  apply Longest.of_inClass (List.prefix_append u _) h.inClass
  intro v hv hclass
  have hshort : v <+: u ++ x := by
    rw [← List.append_assoc] at hv
    cases r with
    | nil => rwa [List.append_nil] at hv
    | cons c r => exact isPrefix_of_not_mem (hr c rfl v hclass) hv
  have hthere : u ++ x <+: u ++ (x ++ b) := ⟨b, by simp⟩
  exact (h.longest k v (hshort.trans hthere) hclass).2

/-- A lexeme is the longest one of its own text. -/
theorem longest_self {k : Class} {u : Text} (hu : InClass k u) : Longest k u u :=
  .of_inClass List.prefix_rfl hu fun _ hv _ => hv.length_le

/-- A comment is a lexeme where the line is over. -/
theorem longest_of_atLineEnd {u r : Text} (hu : InClass .comment u) (hr : AtLineEnd r) :
    Longest .comment u (u ++ r) := by
  have hself : Longest .comment u (u ++ ([] ++ [])) := by simpa using longest_self hu
  refine hself.replace ?_
  intro c hc v hv
  rw [hr.head?_eq c hc]
  exact hv.line_feed_not_mem (by simp) (by simp)

/-- No space holds a character that is none. -/
theorem InClass.not_mem_space {u : Text} {c : Char} (hu : InClass .space u)
    (hc : isSpace c = false) : c ∉ u := by
  cases hu with
  | space _ ht => exact Span.not_mem_of_all hc ht

/-- No number holds a character that is none of numbers. -/
theorem InClass.not_mem_number {u : Text} {c : Char} (hu : InClass .number u)
    (hc : isNumberChar c = false) : c ∉ u :=
  Span.not_mem_of_all hc (isNumberChar_of_mem_number hu)

/-- The characters of names go on names. -/
theorem InClass.all_isNameChar {u : Text} (hu : InClass .name u) :
    ∀ c ∈ u, isNameChar c = true := by
  cases hu with
  | name hstart ht =>
      intro c hc
      rcases List.mem_cons.mp hc with rfl | hc
      · simp [isNameChar, isMarkerChar_of_isNameStart hstart]
      · exact ht c hc

/-- Behind space no space is next. -/
theorem Longest.isSpace_eq_false {u t : Text} {c : Char} (h : Longest .space u (u ++ c :: t)) :
    isSpace c = false := by
  cases hc : isSpace c with
  | false => rfl
  | true =>
      have hlonger : InClass .space (u ++ [c]) := by
        cases h.inClass with
        | space _ ht =>
            apply InClass.space (by simp)
            intro d hd
            rcases List.mem_append.mp hd with hd | hd
            · exact ht d hd
            · rwa [List.mem_singleton.mp hd]
      have hle := (h.longest _ (u ++ [c]) ⟨t, by simp⟩ hlonger).2
      simp at hle

/-- Behind a name no character of names is next. -/
theorem Longest.isNameChar_eq_false {u t : Text} {c : Char} (h : Longest .name u (u ++ c :: t)) :
    isNameChar c = false := by
  cases hc : isNameChar c with
  | false => rfl
  | true =>
      have hlonger : InClass .name (u ++ [c]) := by
        cases h.inClass with
        | name hstart ht =>
            apply InClass.name hstart
            intro d hd
            rcases List.mem_append.mp hd with hd | hd
            · exact ht d hd
            · rwa [List.mem_singleton.mp hd]
      have hle := (h.longest _ (u ++ [c]) ⟨t, by simp⟩ hlonger).2
      simp at hle

/-- A lexeme that is next is the longest one, unless it is a heredoc. -/
theorem IsNext.longest {l : Lexeme} {t : Text} (h : IsNext l t) (hl : l.classOf ≠ .opener) :
    Longest l.classOf l.text t := by
  cases h with
  | plain _ h => exact h
  | heredoc => exact absurd rfl hl

/-- A lexeme that is next in front of a character is over there, whatever goes on behind the
character. -/
theorem IsNext.isOver_cons {l : Lexeme} {c : Char} {b : Text} (h : IsNext l (l.text ++ c :: b))
    (r : Text) : l.IsOver (c :: r) := by
  have hline (hend : AtLineEnd (c :: b)) : AtLineEnd (c :: r) := by
    rw [hend.head?_eq c rfl]
    exact .inr ⟨r, rfl⟩
  cases l with
  | comment => exact hline (h.longest (by simp [classOf])).atLineEnd
  | heredoc =>
      simp only [text, List.append_assoc] at h
      exact hline (isNext_heredoc_iff.mp h).2.2.2
  | space =>
      intro d hd
      rcases Option.some.inj hd with rfl
      exact (h.longest (by simp [classOf])).isSpace_eq_false
  | name =>
      intro d hd
      rcases Option.some.inj hd with rfl
      exact (h.longest (by simp [classOf])).isNameChar_eq_false
  | _ => trivial

/-- The lexeme that is next stays next with another text some way behind it.  Where that text
follows at once, the lexeme has to be over in front of it. -/
theorem IsNext.replace {l : Lexeme} {x b r : Text} (h : IsNext l (l.text ++ (x ++ b)))
    (hx : x = [] → l.IsOver r) (hr : ∀ c, r.head? = some c → isNumberChar c = false) :
    IsNext l (l.text ++ (x ++ r)) := by
  have hover : l.IsOver (x ++ r) := by
    cases x with
    | nil => exact hx rfl
    | cons c x => exact h.isOver_cons (x ++ r)
  cases l with
  | lineEnd u =>
      apply IsNext.plain (by simp [classOf])
      cases (h.longest (by simp [classOf])).inClass with
      | lineEnd hu =>
          cases hu with
          | lineFeed => exact longest_lineFeed _
          | carriageReturn => exact longest_carriageReturn _
  | space u =>
      exact .plain (by simp [classOf]) (Longest.replace (x := []) (h.longest (by simp [classOf]))
        fun c hc _ hv => hv.not_mem_space (hover c hc))
  | comment u =>
      exact .plain (by simp [classOf])
        (longest_of_atLineEnd (h.longest (by simp [classOf])).inClass hover)
  | heredoc indented opener marker body closer =>
      simp only [text, List.append_assoc] at h ⊢
      rcases isNext_heredoc_iff.mp h with ⟨hopens, hbody, hcloser, -⟩
      exact isNext_heredoc_iff.mpr ⟨hopens, hbody, hcloser, hover⟩
  | string u => exact isNext_string (h.longest (by simp [classOf])).inClass _
  | number u =>
      exact .plain (by simp [classOf]) ((h.longest (by simp [classOf])).replace
        fun c hc _ hv => hv.not_mem_number (hr c hc))
  | name u =>
      exact .plain (by simp [classOf]) (Longest.replace (x := []) (h.longest (by simp [classOf]))
        fun c hc _ hv => Span.not_mem_of_all (hover c hc) hv.all_isNameChar)
  | mark m => exact isNext_mark m _

/-! ## Scans of other texts -/

/-- A scan starts with the lexeme that is next, and goes on behind it. -/
theorem IsNext.scan_eq {l : Lexeme} {t : Text} (h : IsNext l (l.text ++ t)) :
    Scan.of (l.text ++ t) = ⟨l :: (Scan.of t).lexemes, (Scan.of t).fault⟩ := by
  cases hsplit : l.text ++ t with
  | nil => exact absurd (List.append_eq_nil_iff.mp hsplit).1 h.text_ne_nil
  | cons c v =>
      rw [hsplit] at h
      have hread := h.read_eq
      have hbehind : v.drop (l.text.length - 1) = t := by
        have hback := text_append_of_read hread
        rw [← hsplit] at hback
        exact List.append_cancel_left hback
      rw [Scan.of, hread]
      simp only [hbehind]

/-- A scan of a text that is cut goes on behind the cut as a scan of what is left. -/
theorem Cuts.scan_goesOn {t rest : Text} {ls : List Lexeme} (h : Cuts t ls rest) :
    Scan.of t = ⟨ls ++ (Scan.of rest).lexemes, (Scan.of rest).fault⟩ := by
  induction h with
  | done t => rfl
  | next hl _ ih =>
      rw [hl.scan_eq, ih]
      rfl

/-- A text that is cut is cut in the same way with another text some way behind.  Where that
text follows at once, the last lexeme has to be over in front of it. -/
theorem Cuts.replace {t x b r : Text} {ls : List Lexeme} (h : Cuts t ls (x ++ b))
    (hlast : x = [] → ∀ l, ls.getLast? = some l → l.IsOver r)
    (hr : ∀ c, r.head? = some c → isNumberChar c = false) :
    Cuts (ls.flatMap Lexeme.text ++ (x ++ r)) ls (x ++ r) := by
  generalize hrest : x ++ b = rest at h
  induction h with
  | done t => exact .done _
  | @next l t rest ls hl ht ih =>
      subst hrest
      have hrec := ih (fun hx m hm => hlast hx m (by simp [List.getLast?_cons, hm])) rfl
      rw [← ht.append_eq, ← List.append_assoc (ls.flatMap Lexeme.text)] at hl
      have hover : ls.flatMap Lexeme.text ++ x = [] → l.IsOver r := by
        intro hnil
        rcases List.append_eq_nil_iff.mp hnil with ⟨htexts, hx⟩
        have hls : ls = [] := by
          cases ls with
          | nil => rfl
          | cons m ls =>
              have hm := ht.text_ne_nil m List.mem_cons_self
              exact absurd (List.append_eq_nil_iff.mp htexts).1 hm
        exact hlast hx l (by rw [hls]; rfl)
      have hnext := hl.replace hover hr
      rw [List.append_assoc] at hnext
      rw [List.flatMap_cons, List.append_assoc]
      exact .next hnext hrec

/-- A scan of a text that is cut to its end goes on behind it as a scan of what follows, if
the last lexeme is over there. -/
theorem Cuts.scan_append {a : Text} {ls : List Lexeme} {c : Char} (h : Cuts a ls [])
    (hc : c = '\n' ∨ c = '<') (hlast : ∀ l, ls.getLast? = some l → l.EndsBefore c) (w : Text) :
    Scan.of (a ++ c :: w) = ⟨ls ++ (Scan.of (c :: w)).lexemes, (Scan.of (c :: w)).fault⟩ := by
  have hhead : ∀ d, (c :: w).head? = some d → isNumberChar d = false := by
    intro d hd
    rcases Option.some.inj hd with rfl
    rcases hc with rfl | rfl <;> decide
  have hcuts := Cuts.replace (x := []) (b := []) h (fun _ l hl => (hlast l hl).isOver w) hhead
  have htext : ls.flatMap Lexeme.text = a := by simpa using h.append_eq
  rw [htext] at hcuts
  exact hcuts.scan_goesOn

end Lexeme

end Ocl

end DeployGate
