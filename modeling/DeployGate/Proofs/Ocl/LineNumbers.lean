import DeployGate.Proofs.Ocl.MaximalMunch

/-!
# Line numbers

The count of lines is kept by hand.  It goes forward by one behind a line end, and behind
a heredoc by the line feeds of its opener and of its body, which are counted after the
margin is gone and without the closing line.  Nothing else moves it.  The count is right
because no other lexeme holds a line feed, and because the margin takes none away.

Main results:

- Theorem `Lexeme.IsNext.linesPassed_eq`: the count goes forward by the line feeds of a
  lexeme.
- Definition `Placed`: tokens on the lines that the text in front of their lexemes says.
- Definition `Lexeme.Blocks`: the fault that a text starts with.
- Theorem `token_lines`: every token and every fault of a text is on its line.
-/

namespace DeployGate

namespace Ocl

namespace Lexeme

/-! ## Line feeds in lexemes -/

/-- No string body holds a line feed. -/
theorem StringBody.line_feed_not_mem {t : Text} (h : StringBody t) : '\n' ∉ t := by
  induction h with
  | nil => simp
  | plain hquote hslash hfeed ht ih => simp [Ne.symm hfeed, ih]
  | escaped hfeed ht ih => simp [Ne.symm hfeed, ih]

/-- The characters of numbers. -/
def isNumberChar (c : Char) : Bool :=
  Text.isDecimalDigit c || c ∈ ['-', '+', '.', 'e', 'E']

/-- All characters of a number are ones of numbers. -/
theorem isNumberChar_of_mem_number {t : Text} (h : InClass .number t) :
    ∀ c ∈ t, isNumberChar c = true := by
  have hdigits : ∀ {u : Text}, IsDigits u → ∀ c ∈ u, isNumberChar c = true := by
    intro u hu c hc
    simp [isNumberChar, hu.2 c hc]
  cases h with
  | @number s w f e hs hw hf he =>
      intro c hc
      rcases List.mem_append.mp hc with hc | hc
      · rcases hs with rfl | rfl <;> simp_all [isNumberChar]
      rcases List.mem_append.mp hc with hc | hc
      · exact hdigits hw c hc
      rcases List.mem_append.mp hc with hc | hc
      · cases hf with
        | none => contradiction
        | places ht =>
            rcases List.mem_cons.mp hc with rfl | hc
            · decide
            · exact hdigits ht c hc
      · cases he with
        | none => contradiction
        | power he hs ht =>
            rcases List.mem_cons.mp hc with rfl | hc
            · rcases he with rfl | rfl <;> decide
            rcases List.mem_append.mp hc with hc | hc
            · rcases hs with rfl | rfl | rfl <;> simp_all [isNumberChar]
            · exact hdigits ht c hc

/-- Only line ends and openers of heredocs hold a line feed. -/
theorem InClass.line_feed_not_mem {k : Class} {t : Text} (h : InClass k t)
    (hend : k ≠ .lineEnd) (hopener : k ≠ .opener) : '\n' ∉ t := by
  cases h with
  | lineEnd => contradiction
  | space _ ht => exact Span.not_mem_of_all (by decide) ht
  | hash ht => simpa using ht
  | slashes ht => simpa using ht
  | opener => contradiction
  | string ht => simp [ht.line_feed_not_mem]
  | number hs hw hf he =>
      exact Span.not_mem_of_all (by decide) (isNumberChar_of_mem_number (.number hs hw hf he))
  | name hc ht =>
      have hfirst := ne_of_eq_true hc (d := '\n') (by decide)
      have hrest := Span.not_mem_of_all (b := '\n') (by decide) ht
      simp [Ne.symm hfirst, hrest]
  | mark m => cases m <;> decide

/-- A line end holds one line feed. -/
theorem IsLineEnd.lineFeeds_eq {t : Text} (h : IsLineEnd t) : t.lineFeeds = 1 := by
  cases h <;> decide

/-- A text without line feeds has none to count. -/
theorem lineFeeds_eq_zero {t : Text} (h : '\n' ∉ t) : t.lineFeeds = 0 :=
  List.count_eq_zero.mpr h

/-- Taking the margin away changes no line feed of a body. -/
theorem lineFeeds_content (indented : Bool) (body : Text) :
    (if indented then Text.withoutMargin body else body).lineFeeds = body.lineFeeds := by
  cases indented with
  | true => exact Text.lineFeeds_withoutMargin body
  | false => rfl

/-- Behind a lexeme the count of lines has gone forward by the line feeds of the lexeme. -/
theorem IsNext.linesPassed_eq {l : Lexeme} {t : Text} (h : IsNext l t) :
    l.linesPassed = l.text.lineFeeds := by
  cases h with
  | plain hplain h =>
      have hclass := h.inClass
      cases l with
      | lineEnd u =>
          cases hclass with
          | lineEnd hu => exact hu.lineFeeds_eq.symm
      | heredoc => exact absurd rfl hplain
      | _ => exact (lineFeeds_eq_zero (hclass.line_feed_not_mem (by simp [classOf])
          (by simp [classOf]))).symm
  | @heredoc indented marker opener closer _ before later h hopens hlines hbefore hcloser =>
      have hclosing := lineFeeds_eq_zero (hcloser.line_feed_not_mem hopens.isMarker)
      simp only [linesPassed, text, Text.lineFeeds_append, lineFeeds_content, hclosing,
        Nat.add_zero]

end Lexeme

/-! ## Lines of tokens -/

open Lexeme

/-- The tokens of lexemes behind some text: what each lexeme denotes, on the line that
the line feeds in front of its first character say. -/
inductive Placed : Text → List Lexeme → List Token → Prop
  | nil {before : Text} : Placed before [] []
  | silent {before : Text} {l : Lexeme} {ls : List Lexeme} {us : List Token}
      (hl : l.isSilent = true) (h : Placed (before ++ l.text) ls us) :
      Placed before (l :: ls) us
  | token {before : Text} {l : Lexeme} {s : Symbol} {ls : List Lexeme} {us : List Token}
      (hl : l.isSilent = false) (hs : Denotes l s) (h : Placed (before ++ l.text) ls us) :
      Placed before (l :: ls) (⟨s, 1 + before.lineFeeds⟩ :: us)

/-- Where the count of lines is right, it is right behind the next lexeme. -/
theorem Lexeme.IsNext.line_behind {l : Lexeme} {t : Text} (h : IsNext l t) (before : Text) :
    (1 + before.lineFeeds : Int) + l.linesPassed = 1 + (before ++ l.text).lineFeeds := by
  rw [h.linesPassed_eq, Text.lineFeeds_append]
  push_cast
  omega

/-- The tokens of a cut are placed, and the end of them is on the line that all line feeds
in front of it say. -/
theorem Lexeme.Cuts.placed {t rest : Text} {ls : List Lexeme} (h : Cuts t ls rest)
    (before : Text) :
    Placed before ls (tokensFrom (1 + before.lineFeeds) ls).tokens ∧
      (tokensFrom (1 + before.lineFeeds) ls).endLine =
        1 + (before ++ ls.flatMap Lexeme.text).lineFeeds := by
  induction h generalizing before with
  | done t => exact ⟨.nil, by simp [tokensFrom]⟩
  | @next l t rest ls hl ht ih =>
      rcases ih (before ++ l.text) with ⟨hplaced, hend⟩
      rw [tokensFrom, hl.line_behind before]
      cases hsilent : l.isSilent with
      | true =>
          rw [symbol?_of_isSilent hsilent]
          refine ⟨.silent hsilent hplaced, ?_⟩
          simpa using hend
      | false =>
          rcases symbol?_denotes hsilent with ⟨s, hs, hdenotes⟩
          rw [hs]
          refine ⟨.token hsilent hdenotes hplaced, ?_⟩
          simpa using hend

/-! ## Faults -/

namespace Lexeme

/-- A fault is what a text starts with: a character that starts no lexeme, or the opener
of a heredoc without a line to end with. -/
inductive Blocks : Fault → Text → Prop
  | unexpected {c : Char} {t : Text} (h : ∀ k u, u <+: c :: t → ¬InClass k u) :
      Blocks (.unexpected c) (c :: t)
  | unterminated {indented : Bool} {marker opener t : Text}
      (hopens : Opens indented marker opener)
      (hlines : ∀ k ∈ Text.lines t, ¬Heredoc.HoldsOnly marker k) :
      Blocks (.unterminated marker) (opener ++ t)

/-- Where a text starts with a fault no lexeme is next. -/
theorem Blocks.stuck {f : Fault} {t : Text} (h : Blocks f t) : Stuck t := by
  cases h with
  | unexpected h => exact .noLexeme (List.cons_ne_nil _ _) h
  | unterminated hopens hlines => exact .noEnd hopens hlines

/-- A text starts with one fault at most. -/
theorem Blocks.unique {f g : Fault} {t : Text} (hf : Blocks f t) (hg : Blocks g t) : f = g := by
  cases hf with
  | unexpected h =>
      generalize hsplit : _ :: _ = v at hg
      cases hg with
      | unexpected => exact congrArg _ (List.cons.inj hsplit).1
      | unterminated hopens =>
          rw [hsplit] at h
          exact absurd (.opener hopens) (h _ _ (List.prefix_append _ _))
  | @unterminated i m o t hopens =>
      generalize hsplit : o ++ t = v at hg
      cases hg with
      | unexpected h =>
          rw [← hsplit] at h
          exact absurd (.opener hopens) (h _ _ (List.prefix_append _ _))
      | @unterminated j n p s hopens' =>
          have hread := opener?_of_opens hopens t
          rw [hsplit, opener?_of_opens hopens' s] at hread
          injection Option.some.inj hread with _ hmarker
          rw [hmarker]

/-- An opener whose heredoc is not read has no line to end with. -/
theorem blocks_of_ofOpener_error {t : Text} {o : Opener} {f : Fault} (ho : opener? t = some o)
    (h : ofOpener o (t.drop o.text.length) = .error f) : Blocks f t := by
  rcases opener?_eq_some_iff.mp ho with ⟨hopens, rest, rfl⟩
  rw [List.drop_left, ofOpener] at h
  split at h
  · contradiction
  · next hnone =>
    have hfault := Except.error.inj h
    subst hfault
    exact .unterminated hopens ((Heredoc.find?_eq_none_iff hopens.isMarker).mp hnone)

/-- Where no lexeme is read, either the first character is blamed and no opener of a
heredoc stands there, or one stands there and its heredoc is not read. -/
theorem read_error_cases {c : Char} {t : Text} {f : Fault} (h : read c t = .error f) :
    (f = .unexpected c ∧ opener? (c :: t) = none) ∨
      ∃ o, opener? (c :: t) = some o ∧ ofOpener o ((c :: t).drop o.text.length) = .error f := by
  have hother (hc : c ≠ '<') : opener? (c :: t) = none := by
    unfold opener?
    split
    · next heq => exact absurd (List.cons.inj heq).1 hc
    · rfl
  unfold read at h
  split at h
  · contradiction
  split at h
  · contradiction
  split at h
  · contradiction
  split at h
  · contradiction
  split at h
  · split at h
    · next o ho =>
      right
      exact ⟨o, ho, h⟩
    · next hnone =>
      left
      exact ⟨(Except.error.inj h).symm, hnone⟩
  next hc =>
  left
  refine ⟨?_, hother hc⟩
  split at h
  · split at h
    · contradiction
    · exact (Except.error.inj h).symm
  split at h
  · contradiction
  split at h
  · contradiction
  · contradiction
  · exact (Except.error.inj h).symm

/-- The fault that is read is what the text starts with. -/
theorem blocks_of_read_error {c : Char} {t : Text} {f : Fault} (h : read c t = .error f) :
    Blocks f (c :: t) := by
  rcases read_error_cases h with ⟨rfl, hnone⟩ | ⟨o, ho, hfault⟩
  · rcases read_cases c t with ⟨l, hl, -⟩ | ⟨-, hstuck⟩
    · rw [h] at hl
      contradiction
    · generalize hsplit : c :: t = u at hstuck hnone
      cases hstuck with
      | noLexeme _ hno =>
          subst hsplit
          exact .unexpected hno
      | noEnd hopens =>
          rw [opener?_of_opens hopens] at hnone
          contradiction
  · exact blocks_of_ofOpener_error ho hfault

/-- The fault of a scan is what the text that it leaves unread starts with. -/
theorem blocks_remainder {t : Text} {f : Fault} (h : (Scan.of t).fault = some f) :
    Blocks f (Scan.remainder t) := by
  fun_induction Scan.of t with
  | case1 => contradiction
  | case2 c t l hl s ih =>
      rw [Scan.remainder, hl]
      exact ih h
  | case3 c t g hg =>
      have hsame := Option.some.inj h
      subst hsame
      rw [Scan.remainder, hg]
      exact blocks_of_read_error hg

end Lexeme

/-! ## Whole texts -/

/-- Every token of a text is on the line that the line feeds in front of its lexeme say,
and the end of the text is on the line that all its line feeds say.  A text without tokens
is blamed at a character that starts no lexeme, or at the opener of a heredoc that does not
end, on the line that the line feeds in front of it say. -/
theorem token_lines (t : Text) :
    (∀ ts, tokens t = .ok ts →
      ∃ ls, Cuts t ls [] ∧ Placed [] ls ts.tokens ∧ ts.endLine = 1 + t.lineFeeds) ∧
    (∀ e, tokens t = .error e →
      ∃ ls before rest f, t = before ++ rest ∧ before = ls.flatMap Lexeme.text ∧
        Cuts t ls rest ∧ Blocks f rest ∧ e = ⟨1 + before.lineFeeds, f.cause⟩) := by
  have hcuts := cuts_scan t
  rcases hcuts.placed [] with ⟨hplaced, hend⟩
  have hstart : (1 + Text.lineFeeds [] : Int) = 1 := by simp
  rw [hstart] at hplaced hend
  constructor
  · intro ts hts
    rcases tokens_eq_ok_iff.mp hts with ⟨hfault, rfl⟩
    rw [(Scan.remainder_eq_nil_iff t).2 hfault] at hcuts
    refine ⟨_, hcuts, hplaced, ?_⟩
    have hall : (Scan.of t).lexemes.flatMap Lexeme.text = t := by simpa using hcuts.append_eq
    rw [hend, List.nil_append, hall]
  · intro e he
    cases hfault : (Scan.of t).fault with
    | none =>
        rw [tokens_eq_ok_iff.mpr ⟨hfault, rfl⟩] at he
        contradiction
    | some f =>
        simp only [tokens, hfault] at he
        have herror := Except.error.inj he
        subst herror
        refine ⟨_, _, _, f, hcuts.append_eq.symm, rfl, hcuts, blocks_remainder hfault, ?_⟩
        rw [hend, List.nil_append]

/-- A text with an indented heredoc, line ends of both kinds and a comment. -/
def mixedLines : Text :=
  "a = <<-E \r\n  x\n\tE\r\n# c\n\"b\"".toList

/-- The tokens of that text. -/
def mixedLinesTokens : TokenList :=
  ⟨[⟨.name ['a'], 1⟩, ⟨.mark .equals, 1⟩, ⟨.heredoc ['x'], 1⟩, ⟨.newline, 3⟩, ⟨.newline, 4⟩,
    ⟨.string "\"b\"".toList, 5⟩], 5⟩

/-- Behind the closing line of that heredoc the count of lines is right. -/
theorem token_lines_mixedLines :
    tokens mixedLines = .ok mixedLinesTokens ∧
      ∃ ls, Cuts mixedLines ls [] ∧ Placed [] ls mixedLinesTokens.tokens ∧
        mixedLinesTokens.endLine = 1 + mixedLines.lineFeeds := by
  have htokens : tokens mixedLines = .ok mixedLinesTokens := by cbv
  exact ⟨htokens, (token_lines mixedLines).1 mixedLinesTokens htokens⟩

end Ocl

end DeployGate
