import DeployGate.Ocl.Token
import DeployGate.Proofs.Ocl.HeredocLines

/-!
# Maximal munch

A document is cut into lexemes each of which is the longest one that its place allows,
of whatever class.  The order in which the classes are tried does not matter.

Main results:

- Definition `Lexeme.IsNext`: the lexeme that a text starts with, by its class alone.
- Theorem `Lexeme.read_cases`: the reader gives that lexeme, or there is none.
- Theorem `Lexeme.Cuts.scan_eq`: a scan is the only cut of a text.
- Theorem `tokens_cuts`: the tokens of a text are the lexemes of its cut.
-/

namespace DeployGate

namespace Ocl

/-- Different marks are different characters. -/
theorem Mark.char_inj {j k : Mark} : j.char = k.char ↔ j = k := by
  constructor
  · intro h
    have hj : Mark.ofChar? j.char = some j := Mark.ofChar?_eq_some_iff.mpr rfl
    have hk : Mark.ofChar? j.char = some k := Mark.ofChar?_eq_some_iff.mpr h
    exact Option.some.inj (hj.symm.trans hk)
  · intro h
    rw [h]

namespace Lexeme

/-! ## The lexeme at the start of a text -/

/-- A text starts with a lexeme of a class, and with no longer one of any class. -/
structure Longest (k : Class) (u t : Text) : Prop where
  isPrefix : u <+: t
  inClass : InClass k u
  longest : ∀ j v, v <+: t → InClass j v → j = k ∧ v.length ≤ u.length

/-- The class of a lexeme. -/
def classOf : Lexeme → Class
  | .lineEnd _ => .lineEnd
  | .space _ => .space
  | .comment _ => .comment
  | .heredoc .. => .opener
  | .string _ => .string
  | .number _ => .number
  | .name _ => .name
  | .mark _ => .mark

/-- The lexeme that is next in a text.  It is the longest of all classes; a heredoc goes
on behind its opener up to the first line that holds its marker alone. -/
inductive IsNext : Lexeme → Text → Prop
  | plain {l : Lexeme} {t : Text} (hl : l.classOf ≠ .opener)
      (h : Longest l.classOf l.text t) : IsNext l t
  | heredoc {indented : Bool} {marker opener closer t : Text} {before later : List Text}
      (h : Longest .opener opener t) (hopens : Opens indented marker opener)
      (hlines : Text.lines (t.drop opener.length) = before ++ closer :: later)
      (hbefore : ∀ k ∈ before, ¬Heredoc.HoldsOnly marker k)
      (hcloser : Heredoc.HoldsOnly marker closer) :
      IsNext (.heredoc indented opener marker (Heredoc.bodyOf before) closer) t

/-- No lexeme comes next: no class has one, or a heredoc has no line to end with. -/
inductive Stuck : Text → Prop
  | noLexeme {t : Text} (hne : t ≠ []) (h : ∀ k u, u <+: t → ¬InClass k u) : Stuck t
  | noEnd {indented : Bool} {marker opener t : Text} (hopens : Opens indented marker opener)
      (hlines : ∀ k ∈ Text.lines t, ¬Heredoc.HoldsOnly marker k) : Stuck (opener ++ t)

/-- A text cut into lexemes, each the next one at its place, and what is left. -/
inductive Cuts : Text → List Lexeme → Text → Prop
  | done (t : Text) : Cuts t [] t
  | next {l : Lexeme} {t rest : Text} {ls : List Lexeme} (hl : IsNext l (l.text ++ t))
      (ht : Cuts t ls rest) : Cuts (l.text ++ t) (l :: ls) rest

/-! ## Longest lexemes of each class -/

/-- What is the longest of its own class is the longest of all. -/
theorem Longest.of_inClass {k : Class} {u t : Text} (hut : u <+: t) (hu : InClass k u)
    (h : ∀ v, v <+: t → InClass k v → v.length ≤ u.length) : Longest k u t := by
  refine ⟨hut, hu, ?_⟩
  intro j v hvt hv
  have hclass : j = k := hv.class_eq hu hvt hut
  subst hclass
  exact ⟨rfl, h v hvt hv⟩

/-- A text starts with one longest lexeme at most. -/
theorem Longest.unique {j k : Class} {u v t : Text} (hu : Longest j u t)
    (hv : Longest k v t) : j = k ∧ u = v := by
  rcases hv.longest j u hu.isPrefix hu.inClass with ⟨rfl, hle⟩
  rcases hu.longest j v hv.isPrefix hv.inClass with ⟨-, hge⟩
  have hlength : u.length = v.length := by omega
  have hprefix := List.prefix_of_prefix_length_le hu.isPrefix hv.isPrefix hle
  exact ⟨rfl, hprefix.eq_of_length hlength⟩

/-- A line feed is a lexeme. -/
theorem longest_lineFeed (t : Text) : Longest .lineEnd ['\n'] ('\n' :: t) := by
  have hprefix : ['\n'] <+: '\n' :: t := by simp
  apply Longest.of_inClass hprefix (.lineEnd .lineFeed)
  intro v hv hclass
  cases hclass with
  | lineEnd h =>
      cases h with
      | lineFeed => simp
      | carriageReturn => simp at hv

/-- A carriage return and a line feed are a lexeme. -/
theorem longest_carriageReturn (t : Text) :
    Longest .lineEnd ['\r', '\n'] ('\r' :: '\n' :: t) := by
  have hprefix : ['\r', '\n'] <+: '\r' :: '\n' :: t := by simp
  apply Longest.of_inClass hprefix (.lineEnd .carriageReturn)
  intro v hv hclass
  cases hclass with
  | lineEnd h => cases h <;> simp

/-- The longest run of space is a lexeme. -/
theorem longest_space {c : Char} (hc : isSpace c = true) (t : Text) :
    Longest .space (c :: t.takeWhile isSpace) (c :: t) := by
  have hprefix : c :: t.takeWhile isSpace <+: c :: t := by simp [List.takeWhile_prefix]
  have hspace : InClass .space (c :: t.takeWhile isSpace) := by
    apply InClass.space
    · simp
    · intro d hd
      rcases List.mem_cons.mp hd with rfl | hd
      · exact hc
      · exact Span.of_mem_takeWhile hd
  apply Longest.of_inClass hprefix hspace
  intro v hv hclass
  cases hclass with
  | space hne h =>
      cases v with
      | nil => contradiction
      | cons d u =>
          apply Span.length_cons_le hv
          intro e he
          exact h e (List.mem_cons_of_mem d he)

/-- A comment goes on up to the end of its line. -/
theorem longest_comment {c : Char} {t : Text} (h : c = '#' ∨ c = '/' ∧ t.head? = some '/') :
    Longest .comment (c :: t.takeWhile (· != '\n')) (c :: t) := by
  have hprefix : c :: t.takeWhile (· != '\n') <+: c :: t := by simp [List.takeWhile_prefix]
  have hfeed : ∀ u : Text, '\n' ∉ u.takeWhile (· != '\n') := by
    intro u hu
    simpa using Span.of_mem_takeWhile hu
  have hcomment : InClass .comment (c :: t.takeWhile (· != '\n')) := by
    rcases h with rfl | ⟨rfl, hhead⟩
    · exact .hash (hfeed t)
    · rcases List.head?_eq_some_iff.mp hhead with ⟨u, rfl⟩
      exact .slashes (hfeed u)
  apply Longest.of_inClass hprefix hcomment
  intro v hv hclass
  cases hclass with
  | hash hno => exact Span.length_cons_le hv (Span.bne_of_not_mem hno)
  | @slashes u hno =>
      have hslash : '\n' ∉ '/' :: u := by simpa using hno
      exact Span.length_cons_le hv (Span.bne_of_not_mem hslash)

/-- A string goes on up to the first quotation mark that no backslash takes with it. -/
theorem longest_string {t s : Text} (h : stringTail? t = some s) :
    Longest .string ('"' :: s) ('"' :: t) := by
  rcases stringTail?_eq_some_iff.mp h with ⟨⟨v, hv, rfl⟩, htail⟩
  have hprefix : '"' :: (v ++ ['"']) <+: '"' :: t := List.cons_prefix_cons.mpr ⟨rfl, htail⟩
  apply Longest.of_inClass hprefix (.string hv)
  intro w hw hclass
  cases hclass with
  | @string w hbody =>
      rcases List.cons_prefix_cons.mp hw with ⟨-, hw⟩
      have hread := stringTail?_eq_some_iff.mpr ⟨⟨w, hbody, rfl⟩, hw⟩
      have hsame : v ++ ['"'] = w ++ ['"'] := Option.some.inj (h.symm.trans hread)
      rw [hsame]

/-- The longest run of characters of a name is a lexeme. -/
theorem longest_name {c : Char} (hc : isNameStart c = true) (t : Text) :
    Longest .name (c :: t.takeWhile isNameChar) (c :: t) := by
  have hprefix : c :: t.takeWhile isNameChar <+: c :: t := by simp [List.takeWhile_prefix]
  have hname : InClass .name (c :: t.takeWhile isNameChar) := by
    apply InClass.name hc
    intro d hd
    exact Span.of_mem_takeWhile hd
  apply Longest.of_inClass hprefix hname
  intro v hv hclass
  cases hclass with
  | name _ h => exact Span.length_cons_le hv h

/-- The number that is read is a lexeme. -/
theorem longest_number {t n : Text} (h : number? t = some n) : Longest .number n t := by
  apply Longest.of_inClass (isPrefix_of_number? h) (inClass_of_number? h)
  intro v hv hclass
  rcases isPrefix_of_isNumber hclass hv with ⟨m, hm, hvm⟩
  have hsame : m = n := Option.some.inj (hm.symm.trans h)
  subst hsame
  exact hvm.length_le

/-- A mark is a lexeme. -/
theorem longest_mark (m : Mark) (t : Text) : Longest .mark [m.char] (m.char :: t) := by
  have hprefix : [m.char] <+: m.char :: t := by simp
  apply Longest.of_inClass hprefix (.mark m)
  intro v hv hclass
  cases hclass with
  | mark m => simp

/-- The opener that is read is the longest lexeme at its place. -/
theorem longest_opener {t : Text} {o : Opener} (h : opener? t = some o) :
    Longest .opener o.text t := by
  rcases opener?_eq_some_iff.mp h with ⟨hopens, hprefix⟩
  apply Longest.of_inClass hprefix (.opener hopens)
  intro v hv hclass
  cases hclass with
  | @opener indented marker _ hother =>
      rcases hv with ⟨rest, rfl⟩
      have hread := opener?_of_opens hother rest
      have hsame : o.text = v := congrArg Opener.text (Option.some.inj (h.symm.trans hread))
      rw [hsame]

/-! ## Reading -/

/-- The first character of a text decides on the class of the lexemes it starts with. -/
theorem InClass.eq_of_firstClass? {j k : Class} {c : Char} {u t : Text} (hu : InClass k u)
    (h : u <+: c :: t) (hc : firstClass? c = some j) : k = j := by
  rcases hu.firstClass with ⟨d, v, rfl, hd⟩
  rcases List.cons_prefix_cons.mp h with ⟨rfl, -⟩
  exact Option.some.inj (hd.symm.trans hc)

/-- Angle marks that open no heredoc start no lexeme. -/
theorem stuck_of_opener? {t : Text} (h : opener? ('<' :: t) = none) : Stuck ('<' :: t) := by
  apply Stuck.noLexeme (List.cons_ne_nil _ _)
  intro k u hu hclass
  have hopener : k = .opener := hclass.eq_of_firstClass? hu (by decide)
  subst hopener
  cases hclass with
  | opener hopens =>
      rcases hu with ⟨rest, hrest⟩
      rw [← hrest, opener?_of_opens hopens rest] at h
      contradiction

/-- A quotation mark that no other one answers starts no lexeme. -/
theorem stuck_of_stringTail? {t : Text} (h : stringTail? t = none) : Stuck ('"' :: t) := by
  apply Stuck.noLexeme (List.cons_ne_nil _ _)
  intro k u hu hclass
  have hstring : k = .string := hclass.eq_of_firstClass? hu (by decide)
  subst hstring
  cases hclass with
  | @string v hv =>
      rcases List.cons_prefix_cons.mp hu with ⟨-, htail⟩
      have hread := stringTail?_eq_some_iff.mpr ⟨⟨v, hv, rfl⟩, htail⟩
      rw [h] at hread
      contradiction

/-- An opener starts a heredoc, or there is no line to end it. -/
theorem ofOpener_cases {t : Text} {o : Opener} (h : opener? t = some o) :
    (∃ l, ofOpener o (t.drop o.text.length) = .ok l ∧ IsNext l t) ∨
      (∃ f, ofOpener o (t.drop o.text.length) = .error f) ∧ Stuck t := by
  rcases opener?_eq_some_iff.mp h with ⟨hopens, hprefix⟩
  rcases Heredoc.find?_cases hopens.isMarker (t.drop o.text.length) with
    ⟨before, l, later, hlines, hbefore, hl, hfind⟩ | ⟨hnone, hfind⟩
  · left
    refine ⟨_, by rw [ofOpener, hfind], ?_⟩
    exact .heredoc (longest_opener h) hopens hlines hbefore hl
  · right
    refine ⟨⟨_, by rw [ofOpener, hfind]⟩, ?_⟩
    rcases hprefix with ⟨rest, rfl⟩
    rw [List.drop_left] at hnone
    exact .noEnd hopens hnone

/-- A place where no reader of a class finds anything has no lexeme. -/
theorem stuck_of_none {c : Char} {t : Text} (hfeed : c ≠ '\n')
    (hreturn : ¬(c = '\r' ∧ t.head? = some '\n')) (hspace : isSpace c = false)
    (hcomment : ¬(c = '#' ∨ c = '/' ∧ t.head? = some '/')) (hangle : c ≠ '<')
    (hquote : c ≠ '"') (hname : isNameStart c = false) (hnumber : number? (c :: t) = none)
    (hmark : Mark.ofChar? c = none) : Stuck (c :: t) := by
  apply Stuck.noLexeme (List.cons_ne_nil _ _)
  intro k u hu hclass
  cases hclass with
  | lineEnd h =>
      cases h with
      | lineFeed =>
          have hfirst := (List.cons_prefix_cons.mp hu).1
          exact hfeed hfirst.symm
      | carriageReturn =>
          rcases hu with ⟨rest, hrest⟩
          rcases List.cons.inj hrest with ⟨rfl, rfl⟩
          exact hreturn ⟨rfl, rfl⟩
  | space hne h =>
      cases u with
      | nil => contradiction
      | cons d u =>
          rcases List.cons_prefix_cons.mp hu with ⟨rfl, -⟩
          rw [h d (List.mem_cons_self ..)] at hspace
          contradiction
  | hash =>
      have hfirst := (List.cons_prefix_cons.mp hu).1
      exact hcomment (Or.inl hfirst.symm)
  | slashes =>
      rcases hu with ⟨rest, hrest⟩
      rcases List.cons.inj hrest with ⟨rfl, rfl⟩
      exact hcomment (Or.inr ⟨rfl, rfl⟩)
  | opener hopens =>
      cases hopens with
      | mk =>
          have hfirst := (List.cons_prefix_cons.mp hu).1
          exact hangle hfirst.symm
  | string =>
      have hfirst := (List.cons_prefix_cons.mp hu).1
      exact hquote hfirst.symm
  | @number s w f e hs hw hf he =>
      rcases isPrefix_of_isNumber (.number hs hw hf he) hu with ⟨n, hn, -⟩
      rw [hnumber] at hn
      contradiction
  | name hc =>
      rcases List.cons_prefix_cons.mp hu with ⟨rfl, -⟩
      rw [hname] at hc
      contradiction
  | mark m =>
      rcases List.cons_prefix_cons.mp hu with ⟨rfl, -⟩
      rw [Mark.ofChar?_eq_some_iff.mpr rfl] at hmark
      contradiction

/-- The reader gives the lexeme that is next, or there is none. -/
theorem read_cases (c : Char) (t : Text) :
    (∃ l, read c t = .ok l ∧ IsNext l (c :: t)) ∨
      (∃ f, read c t = .error f) ∧ Stuck (c :: t) := by
  unfold read
  by_cases hfeed : c = '\n'
  · subst hfeed
    left
    exact ⟨_, if_pos rfl, .plain (by simp [classOf]) (longest_lineFeed t)⟩
  rw [if_neg hfeed]
  by_cases hreturn : c = '\r' ∧ t.head? = some '\n'
  · rw [if_pos hreturn]
    rcases hreturn with ⟨rfl, hhead⟩
    rcases List.head?_eq_some_iff.mp hhead with ⟨t, rfl⟩
    left
    exact ⟨_, rfl, .plain (by simp [classOf]) (longest_carriageReturn t)⟩
  rw [if_neg hreturn]
  by_cases hspace : isSpace c = true
  · left
    exact ⟨_, if_pos hspace, .plain (by simp [classOf]) (longest_space hspace t)⟩
  rw [if_neg hspace]
  by_cases hcomment : c = '#' ∨ c = '/' ∧ t.head? = some '/'
  · left
    exact ⟨_, if_pos hcomment, .plain (by simp [classOf]) (longest_comment hcomment)⟩
  rw [if_neg hcomment]
  by_cases hangle : c = '<'
  · subst hangle
    rw [if_pos rfl]
    cases ho : opener? ('<' :: t) with
    | none =>
        right
        exact ⟨⟨_, rfl⟩, stuck_of_opener? ho⟩
    | some o => exact ofOpener_cases ho
  rw [if_neg hangle]
  by_cases hquote : c = '"'
  · subst hquote
    rw [if_pos rfl]
    cases hs : stringTail? t with
    | none =>
        right
        exact ⟨⟨_, rfl⟩, stuck_of_stringTail? hs⟩
    | some s =>
        left
        exact ⟨_, rfl, .plain (by simp [classOf]) (longest_string hs)⟩
  rw [if_neg hquote]
  by_cases hname : isNameStart c = true
  · left
    exact ⟨_, if_pos hname, .plain (by simp [classOf]) (longest_name hname t)⟩
  rw [if_neg hname]
  cases hn : number? (c :: t) with
  | some n =>
      left
      exact ⟨_, rfl, .plain (by simp [classOf]) (longest_number hn)⟩
  | none =>
      cases hm : Mark.ofChar? c with
      | some m =>
          have hchar : c = m.char := Mark.ofChar?_eq_some_iff.mp hm
          subst hchar
          left
          exact ⟨_, rfl, .plain (by simp [classOf]) (longest_mark m t)⟩
      | none =>
          have hspace : isSpace c = false := by simpa using hspace
          have hname : isNameStart c = false := by simpa using hname
          right
          exact ⟨⟨_, rfl⟩, stuck_of_none hfeed hreturn hspace hcomment hangle hquote hname hn hm⟩

/-! ## One lexeme at most -/

/-- What is next starts with the longest lexeme of its class. -/
theorem IsNext.exists_longest {l : Lexeme} {t : Text} (h : IsNext l t) :
    ∃ u, Longest l.classOf u t := by
  cases h with
  | plain _ h => exact ⟨_, h⟩
  | heredoc h => exact ⟨_, h⟩

/-- Lexemes of one class with one text are the same, heredocs apart. -/
theorem eq_of_classOf_of_text {l m : Lexeme} (hclass : l.classOf = m.classOf)
    (htext : l.text = m.text) (hl : l.classOf ≠ .opener) : l = m := by
  cases l <;> cases m <;> simp_all [classOf, text, Mark.char_inj]

/-- Openers with one text have one marker and are both indented or both not. -/
theorem Opens.unique {i j : Bool} {m n o : Text} (h : Opens i m o) (h' : Opens j n o) :
    i = j ∧ m = n := by
  have hread := opener?_of_opens h []
  have hread' := opener?_of_opens h' []
  have hsame : Opener.mk i m o = Opener.mk j n o := Option.some.inj (hread.symm.trans hread')
  injection hsame with hi hm
  exact ⟨hi, hm⟩

/-- At most one lexeme is next. -/
theorem IsNext.unique {l m : Lexeme} {t : Text} (hl : IsNext l t) (hm : IsNext m t) :
    l = m := by
  rcases hl.exists_longest with ⟨u, hu⟩
  rcases hm.exists_longest with ⟨v, hv⟩
  rcases hu.unique hv with ⟨hclass, -⟩
  cases hl with
  | plain hplain h =>
      cases hm with
      | plain _ h' => exact eq_of_classOf_of_text hclass (h.unique h').2 hplain
      | heredoc => exact absurd hclass hplain
  | @heredoc i marker o closer _ before later h hopens hlines hbefore hcloser =>
      cases hm with
      | plain hplain => exact absurd hclass.symm hplain
      | @heredoc _ _ _ closer' _ before' later' h' hopens' hlines' hbefore' hcloser' =>
          rcases h.unique h' with ⟨-, rfl⟩
          rcases hopens.unique hopens' with ⟨rfl, rfl⟩
          have hfind := (Heredoc.find?_eq_some_iff hopens.isMarker
            (p := ⟨Heredoc.bodyOf before, closer⟩)).2 ⟨before, later, hlines, hbefore, hcloser, rfl⟩
          have hfind' := (Heredoc.find?_eq_some_iff hopens.isMarker
            (p := ⟨Heredoc.bodyOf before', closer'⟩)).2
              ⟨before', later', hlines', hbefore', hcloser', rfl⟩
          have hparts := Option.some.inj (hfind.symm.trans hfind')
          have hbody : Heredoc.bodyOf before = Heredoc.bodyOf before' :=
            congrArg Heredoc.Parts.body hparts
          have hend : closer = closer' := congrArg Heredoc.Parts.closer hparts
          rw [hbody, hend]

/-- A lexeme that is next holds a character. -/
theorem IsNext.text_ne_nil {l : Lexeme} {t : Text} (h : IsNext l t) : l.text ≠ [] := by
  cases h with
  | plain _ h =>
      rcases h.inClass.firstClass with ⟨c, u, hu, -⟩
      simp [hu]
  | heredoc h =>
      rcases h.inClass.firstClass with ⟨c, u, rfl, -⟩
      simp [text]

/-- Where a scan is stuck no lexeme is next. -/
theorem IsNext.not_stuck {l : Lexeme} {t : Text} (hl : IsNext l t) : ¬Stuck t := by
  intro hstuck
  cases hstuck with
  | noLexeme hne h =>
      rcases hl.exists_longest with ⟨u, hu⟩
      exact h _ u hu.isPrefix hu.inClass
  | @noEnd i m o t hopens hnone =>
      have hlong : Longest .opener o (o ++ t) :=
        longest_opener (opener?_of_opens hopens t)
      cases hl with
      | plain hplain h => exact hplain (h.unique hlong).1
      | heredoc h hopens' hlines _ hcloser =>
          rcases h.unique hlong with ⟨-, rfl⟩
          rcases hopens.unique hopens' with ⟨rfl, rfl⟩
          rw [List.drop_left] at hlines
          exact hnone _ (by simp [hlines]) hcloser

/-- The lexeme that is next is read. -/
theorem IsNext.read_eq {l : Lexeme} {c : Char} {t : Text} (hl : IsNext l (c :: t)) :
    read c t = .ok l := by
  rcases read_cases c t with ⟨m, hread, hm⟩ | ⟨-, hstuck⟩
  · rw [hread, hl.unique hm]
  · exact absurd hstuck hl.not_stuck

/-- A scan is not stuck at the end of a text. -/
theorem not_stuck_nil : ¬Stuck [] := by
  intro h
  generalize ht : ([] : Text) = t at h
  cases h with
  | noLexeme hne => exact hne ht.symm
  | noEnd hopens =>
      cases hopens
      contradiction

/-! ## What lexemes denote -/

/-- The lexemes that leave no token behind. -/
def isSilent : Lexeme → Bool
  | .space _ => true
  | .comment _ => true
  | _ => false

/-- What a lexeme denotes: itself, or one line feed for a line end, or the body of a
heredoc, without the common margin if it is an indented one, up to the line ends at its
end. -/
inductive Denotes : Lexeme → Symbol → Prop
  | lineEnd (t : Text) : Denotes (.lineEnd t) .newline
  | string (t : Text) : Denotes (.string t) (.string t)
  | number (t : Text) : Denotes (.number t) (.number t)
  | name (t : Text) : Denotes (.name t) (.name t)
  | mark (m : Mark) : Denotes (.mark m) (.mark m)
  | heredoc {indented : Bool} {opener marker body closer value ends : Text}
      (hbody : (if indented then Text.withoutMargin body else body) = value ++ ends)
      (hends : ∀ c ∈ ends, c = '\r' ∨ c = '\n')
      (hlast : ∀ c, value.getLast? = some c → c ≠ '\r' ∧ c ≠ '\n') :
      Denotes (.heredoc indented opener marker body closer) (.heredoc value)

/-- A trimmed text is what stands in front of the longest end of a class. -/
theorem trimEnd_append (p : Char → Bool) (t : Text) :
    ∃ ends, t = Text.trimEnd p t ++ ends ∧ (∀ c ∈ ends, p c = true) ∧
      ∀ c, (Text.trimEnd p t).getLast? = some c → p c = false := by
  refine ⟨(t.reverse.takeWhile p).reverse, ?_, ?_, ?_⟩
  · rw [Text.trimEnd, ← List.reverse_append, List.takeWhile_append_dropWhile, List.reverse_reverse]
  · intro c hc
    exact Span.of_mem_takeWhile (List.mem_reverse.mp hc)
  · intro c hc
    rw [Text.trimEnd, List.getLast?_reverse] at hc
    exact Span.head?_dropWhile_eq_false hc

/-- The value of a heredoc is what it denotes. -/
theorem denotes_heredoc (indented : Bool) (opener marker body closer : Text) :
    Denotes (.heredoc indented opener marker body closer)
      (.heredoc (Heredoc.value indented body)) := by
  obtain ⟨ends, hbody, hends, hlast⟩ := trimEnd_append (fun c => c == '\r' || c == '\n')
    (if indented then Text.withoutMargin body else body)
  refine .heredoc hbody ?_ ?_
  · intro c hc
    simpa using hends c hc
  · intro c hc
    simpa using hlast c hc

/-- Every lexeme that is not silent has a symbol, which it denotes. -/
theorem symbol?_denotes {l : Lexeme} (hl : l.isSilent = false) :
    ∃ s, l.symbol? = some s ∧ Denotes l s := by
  cases l with
  | lineEnd t => exact ⟨_, rfl, .lineEnd t⟩
  | space t => contradiction
  | comment t => contradiction
  | heredoc indented opener marker body closer =>
      exact ⟨_, rfl, denotes_heredoc indented opener marker body closer⟩
  | string t => exact ⟨_, rfl, .string t⟩
  | number t => exact ⟨_, rfl, .number t⟩
  | name t => exact ⟨_, rfl, .name t⟩
  | mark m => exact ⟨_, rfl, .mark m⟩

/-- A silent lexeme has no symbol. -/
theorem symbol?_of_isSilent {l : Lexeme} (hl : l.isSilent = true) : l.symbol? = none := by
  cases l <;> first | rfl | contradiction

end Lexeme

/-! ## Scans -/

open Lexeme

/-- A scan cuts a text as far as it goes. -/
theorem cuts_scan (t : Text) : Cuts t (Scan.of t).lexemes (Scan.remainder t) := by
  fun_induction Scan.of t with
  | case1 =>
      rw [Scan.remainder]
      exact .done []
  | case2 c t l hl s ih =>
      rcases read_cases c t with ⟨m, hread, hm⟩ | ⟨⟨f, hread⟩, -⟩
      · have hsame : l = m := Except.ok.inj (hl.symm.trans hread)
        subst hsame
        rw [Scan.remainder, hl, ← text_append_of_read hl]
        rw [← text_append_of_read hl] at hm
        exact .next hm ih
      · rw [hl] at hread
        contradiction
  | case3 c t f hf =>
      rw [Scan.remainder, hf]
      exact .done _

/-- What a scan leaves unread is stuck. -/
theorem stuck_remainder {t : Text} (h : (Scan.of t).fault ≠ none) :
    Stuck (Scan.remainder t) := by
  fun_induction Scan.of t with
  | case1 => contradiction
  | case2 c t l hl s ih =>
      rw [Scan.remainder, hl]
      exact ih h
  | case3 c t f hf =>
      rw [Scan.remainder, hf]
      rcases read_cases c t with ⟨m, hread, -⟩ | ⟨-, hstuck⟩
      · rw [hf] at hread
        contradiction
      · exact hstuck

/-- A cut that goes as far as it can is the scan. -/
theorem Lexeme.Cuts.scan_eq {t rest : Text} {ls : List Lexeme} (h : Cuts t ls rest)
    (hrest : rest = [] ∨ Stuck rest) :
    (Scan.of t).lexemes = ls ∧ Scan.remainder t = rest := by
  induction h with
  | done t =>
      cases t with
      | nil => exact ⟨by rw [Scan.of], by rw [Scan.remainder]⟩
      | cons c t =>
          have hstuck : Stuck (c :: t) := by simpa using hrest
          rcases read_cases c t with ⟨m, -, hm⟩ | ⟨⟨f, hread⟩, -⟩
          · exact absurd hstuck hm.not_stuck
          · exact ⟨by rw [Scan.of, hread], by rw [Scan.remainder, hread]⟩
  | @next l t rest ls hl ht ih =>
      rcases ih hrest with ⟨hls, hrem⟩
      cases hsplit : l.text ++ t with
      | nil => exact absurd (List.append_eq_nil_iff.mp hsplit).1 hl.text_ne_nil
      | cons c v =>
          rw [hsplit] at hl
          have hread := hl.read_eq
          have hbehind : v.drop (l.text.length - 1) = t := by
            have hback := text_append_of_read hread
            rw [← hsplit] at hback
            exact List.append_cancel_left hback
          rw [Scan.of, hread, Scan.remainder, hread]
          simp only [hbehind]
          exact ⟨by rw [hls], hrem⟩

/-- No lexeme of a cut is empty. -/
theorem Lexeme.Cuts.text_ne_nil {t rest : Text} {ls : List Lexeme} (h : Cuts t ls rest) :
    ∀ l ∈ ls, l.text ≠ [] := by
  induction h with
  | done t => simp
  | next hl ht ih =>
      intro m hm
      rcases List.mem_cons.mp hm with rfl | hm
      · exact hl.text_ne_nil
      · exact ih m hm

/-- A cut loses nothing. -/
theorem Lexeme.Cuts.append_eq {t rest : Text} {ls : List Lexeme} (h : Cuts t ls rest) :
    ls.flatMap Lexeme.text ++ rest = t := by
  induction h with
  | done t => rfl
  | next hl ht ih => rw [List.flatMap_cons, List.append_assoc, ih]

/-! ## Tokens -/

/-- The symbols of lexemes: what each of them denotes, in order, but for those that leave
no token behind. -/
inductive Spells : List Lexeme → List Symbol → Prop
  | nil : Spells [] []
  | silent {l : Lexeme} {ls : List Lexeme} {ss : List Symbol} (hl : l.isSilent = true)
      (h : Spells ls ss) : Spells (l :: ls) ss
  | token {l : Lexeme} {s : Symbol} {ls : List Lexeme} {ss : List Symbol}
      (hl : l.isSilent = false) (hs : Denotes l s) (h : Spells ls ss) :
      Spells (l :: ls) (s :: ss)

/-- The tokens of lexemes are what the lexemes spell. -/
theorem spells_tokensFrom (line : Int) (ls : List Lexeme) :
    Spells ls ((tokensFrom line ls).tokens.map Token.symbol) := by
  induction ls generalizing line with
  | nil => exact .nil
  | cons l ls ih =>
      have hrest := ih (line + l.linesPassed)
      cases hl : l.isSilent with
      | true =>
          rw [tokensFrom, symbol?_of_isSilent hl]
          exact .silent hl hrest
      | false =>
          rcases symbol?_denotes hl with ⟨s, hs, hdenotes⟩
          rw [tokensFrom, hs]
          exact .token hl hdenotes hrest

/-- The tokens of a text are what the lexemes of its cut denote, space and comments apart.
Each lexeme is the longest of all classes at its place, and together they are the text.  A
text has no tokens exactly if its cut comes to a place where no lexeme is next. -/
theorem tokens_cuts :
    (∀ t ts, tokens t = .ok ts → ∃ ls, Cuts t ls [] ∧ (∀ l ∈ ls, l.text ≠ []) ∧
      ls.flatMap Lexeme.text = t ∧
      Spells ls (ts.tokens.map Token.symbol)) ∧
    (∀ t, (∃ e, tokens t = .error e) ↔ ∃ ls rest, Cuts t ls rest ∧ Stuck rest) := by
  constructor
  · intro t ts hts
    rcases tokens_eq_ok_iff.mp hts with ⟨hfault, rfl⟩
    have hcuts := cuts_scan t
    rw [(Scan.remainder_eq_nil_iff t).2 hfault] at hcuts
    refine ⟨_, hcuts, hcuts.text_ne_nil, ?_, spells_tokensFrom 1 _⟩
    simpa using hcuts.append_eq
  · intro t
    constructor
    · intro h
      rcases h with ⟨e, he⟩
      refine ⟨_, _, cuts_scan t, stuck_remainder ?_⟩
      intro hfault
      rw [tokens_eq_ok_iff.mpr ⟨hfault, rfl⟩] at he
      contradiction
    · intro h
      rcases h with ⟨ls, rest, hcuts, hstuck⟩
      rcases hcuts.scan_eq (.inr hstuck) with ⟨-, hrem⟩
      cases hread : tokens t with
      | error e => exact ⟨e, rfl⟩
      | ok ts =>
          have hnil := (Scan.remainder_eq_nil_iff t).2 (tokens_eq_ok_iff.mp hread).1
          rw [← hrem, hnil] at hstuck
          exact absurd hstuck not_stuck_nil

end Ocl

end DeployGate
