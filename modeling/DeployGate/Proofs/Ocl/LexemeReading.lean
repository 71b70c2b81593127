import DeployGate.Proofs.Ocl.LexemeClass

/-!
# Reading lexemes

The readers of strings, numbers and openers take what their class says, and the longest
text of it.

Main results:

- Theorem `Lexeme.stringTail?_eq_some_iff`: a string is read where a text starts with one.
- Theorems `Lexeme.inClass_of_number?` and `Lexeme.isPrefix_of_isNumber`: a number is read
  where a text starts with one, and it is the longest.
- Theorem `Lexeme.opener?_eq_some_iff`: an opener is read where a text starts with one.
-/

namespace DeployGate

namespace Ocl

namespace Lexeme

/-! ## Strings -/

/-- A string body and a quotation mark are read up to that mark. -/
theorem stringTail?_of_stringBody {v : Text} (hv : StringBody v) (rest : Text) :
    stringTail? (v ++ '"' :: rest) = some (v ++ ['"']) := by
  induction hv with
  | nil => rfl
  | @plain c t hquote hslash hfeed _ ih =>
      rw [List.cons_append, stringTail?.eq_5]
      · rw [if_neg hfeed, ih]
        rfl
      · exact hquote
      · intro heq
        subst heq
        contradiction
      · rintro _ _ rfl
        contradiction
  | @escaped c t hfeed _ ih =>
      rw [List.cons_append, List.cons_append, stringTail?.eq_4, if_neg hfeed, ih]
      rfl

/-- What is read up to a quotation mark is a string body with that mark. -/
theorem stringBody_of_stringTail? {t s : Text} (h : stringTail? t = some s) :
    ∃ v, StringBody v ∧ s = v ++ ['"'] := by
  fun_induction stringTail? t generalizing s with
  | case1 => simp at h
  | case2 t =>
      have hsame := Option.some.inj h
      subst hsame
      exact ⟨[], .nil, rfl⟩
  | case3 => simp at h
  | case4 => simp at h
  | case5 c t hc ih =>
      rcases Option.map_eq_some_iff.mp h with ⟨u, hu, rfl⟩
      rcases ih hu with ⟨v, hv, rfl⟩
      exact ⟨'\\' :: c :: v, .escaped hc hv, rfl⟩
  | case6 => simp at h
  | case7 c t hquote hend hslash hc ih =>
      rcases Option.map_eq_some_iff.mp h with ⟨u, hu, rfl⟩
      rcases ih hu with ⟨v, hv, rfl⟩
      refine ⟨c :: v, .plain hquote ?_ hc hv, rfl⟩
      intro heq
      subst heq
      cases t with
      | nil => exact hend rfl rfl
      | cons d t => exact hslash d t rfl rfl

/-- A string ends at a place of a text exactly if a string body and a quotation mark lie
there. -/
theorem stringTail?_eq_some_iff {t s : Text} :
    stringTail? t = some s ↔ (∃ v, StringBody v ∧ s = v ++ ['"']) ∧ s <+: t := by
  constructor
  · intro h
    exact ⟨stringBody_of_stringTail? h, isPrefix_of_stringTail? h⟩
  · intro h
    rcases h with ⟨⟨v, hv, rfl⟩, rest, rfl⟩
    rw [List.append_assoc]
    exact stringTail?_of_stringBody hv rest

/-! ## Numbers -/

/-- Characters of a class, with others behind them that start with none of it, are all
the text has of the class in front, unless no others are behind them. -/
theorem eq_nil_or_eq_takeWhile {p : Char → Bool} {u r t : Text} (h : u ++ r <+: t)
    (hu : ∀ c ∈ u, p c = true) (hr : ∀ c, r.head? = some c → p c = false) :
    r = [] ∨ u = t.takeWhile p := by
  rcases h with ⟨rest, rfl⟩
  cases r with
  | nil =>
      left
      exact rfl
  | cons c r =>
      right
      refine ?_
      rw [List.append_assoc]
      exact (Span.takeWhile_append_of_boundary hu fun d hd => hr d (by simpa using hd)).symm

/-- What starts a text lies behind what the text starts with if it lies there. -/
theorem append_isPrefix_iff {a b t : Text} (ha : a <+: t) :
    a ++ b <+: t ↔ b <+: t.drop a.length := by
  rcases ha with ⟨u, rfl⟩
  rw [List.drop_left]
  exact List.prefix_append_right_inj a

/-- Digits that a text starts with start the longest run of them. -/
theorem IsDigits.isPrefix_digits {w t : Text} (hw : IsDigits w) (h : w <+: t) :
    w <+: digits t :=
  Span.isPrefix_takeWhile_iff.mpr ⟨h, hw.2⟩

/-- The digits that a text starts with are digits, if there are some. -/
theorem isDigits_digits {t : Text} (h : digits t ≠ []) : IsDigits (digits t) :=
  ⟨h, fun _ hc => Span.of_mem_takeWhile hc⟩

/-- A text that starts with digits has digits to read. -/
theorem IsDigits.digits_ne_nil {w t : Text} (hw : IsDigits w) (h : w <+: t) :
    digits t ≠ [] := by
  intro hnil
  have hprefix := hw.isPrefix_digits h
  rw [hnil, List.prefix_nil] at hprefix
  exact hw.1 hprefix

/-- Digits and what lies behind them start the digits that are read and what is read
behind those. -/
theorem IsDigits.append_isPrefix {w r t x : Text} (hw : IsDigits w) (h : w ++ r <+: t)
    (hr : ∀ c, r.head? = some c → Text.isDecimalDigit c = false)
    (hx : r <+: t.drop (digits t).length → r <+: x) : w ++ r <+: digits t ++ x := by
  have hwhole : w <+: t := (List.prefix_append w r).trans h
  rcases eq_nil_or_eq_takeWhile h hw.2 hr with rfl | hall
  · rw [List.append_nil]
    exact (hw.isPrefix_digits hwhole).trans (List.prefix_append _ _)
  · have hspan : digits t = w := hall.symm
    have hrest : r <+: t.drop w.length := (append_isPrefix_iff hwhole).mp h
    rw [hspan] at hx ⊢
    exact (List.prefix_append_right_inj w).mpr (hx hrest)

/-- No digit is a given character that is none. -/
theorem IsDigits.head_ne {c d : Char} {w : Text} (hw : IsDigits (c :: w))
    (hd : Text.isDecimalDigit d = false) : c ≠ d :=
  ne_of_eq_true (hw.2 c (List.mem_cons_self ..)) hd

/-- The hyphen of a text is one or nothing. -/
theorem hyphen_cases (t : Text) : hyphen t = [] ∨ hyphen t = ['-'] := by
  unfold hyphen
  split <;> simp

/-- A text without a hyphen in front has none to read. -/
theorem hyphen_of_ne {c : Char} {t : Text} (h : c ≠ '-') : hyphen (c :: t) = [] := by
  unfold hyphen
  split
  · next h' => exact absurd (List.cons.inj h').1 h
  · rfl

/-- The fraction of a text is a fraction. -/
theorem isFraction_fraction (t : Text) : IsFraction (fraction t) := by
  unfold fraction
  split
  · split
    · exact .none
    · next hne => exact .places (isDigits_digits (mt List.isEmpty_iff.mpr hne))
  · exact .none

/-- The exponent of a text is an exponent. -/
theorem isExponent_exponent (t : Text) : IsExponent (exponent t) := by
  unfold exponent
  split
  · exact .none
  · next e t =>
    split
    · next he =>
      split
      · exact .none
      · next s u =>
        split
        · next hs =>
          split
          · exact .none
          · next hne =>
            have hu : IsDigits (digits u) := isDigits_digits (mt List.isEmpty_iff.mpr hne)
            rcases hs with rfl | rfl
            · exact .power he (.inr (.inl rfl)) hu
            · exact .power he (.inr (.inr rfl)) hu
        · split
          · exact .none
          · next hne =>
            have hu : IsDigits (digits (s :: u)) := isDigits_digits (mt List.isEmpty_iff.mpr hne)
            exact .power (s := []) he (.inl rfl) hu
    · exact .none

/-- An exponent that a text starts with starts the one that is read. -/
theorem IsExponent.isPrefix_exponent {e t : Text} (he : IsExponent e) (h : e <+: t) :
    e <+: exponent t := by
  cases he with
  | none => exact List.nil_prefix
  | @power c s w hc hs hw =>
      rcases h with ⟨rest, rfl⟩
      have hprefix : w <+: w ++ rest := List.prefix_append w rest
      have hdigits := hw.isPrefix_digits hprefix
      have hne := hw.digits_ne_nil hprefix
      rcases hs with rfl | rfl | rfl
      · cases w with
        | nil => exact absurd rfl hw.1
        | cons d w =>
            have hplus := hw.head_ne (d := '+') (by decide)
            have hminus := hw.head_ne (d := '-') (by decide)
            have hsome : digits (d :: (w ++ rest)) ≠ [] := hne
            simpa [exponent, hc, hplus, hminus, hsome] using hdigits
      · simpa [exponent, hc, hne] using hdigits
      · simpa [exponent, hc, hne] using hdigits

/-- An exponent starts with no digit. -/
theorem IsExponent.head?_not_digit {e : Text} (he : IsExponent e) (c : Char)
    (hc : e.head? = some c) : Text.isDecimalDigit c = false := by
  cases he with
  | none => simp at hc
  | power he =>
      have hhead := Option.some.inj hc
      subst hhead
      rcases he with rfl | rfl <;> decide

/-- Neither a fraction nor an exponent starts with a digit. -/
theorem IsFraction.head?_not_digit {f e : Text} (hf : IsFraction f) (he : IsExponent e)
    (c : Char) (hc : (f ++ e).head? = some c) : Text.isDecimalDigit c = false := by
  cases hf with
  | none => exact he.head?_not_digit c hc
  | places =>
      have hhead := Option.some.inj hc
      subst hhead
      decide

/-- A fraction and an exponent that a text starts with start the ones that are read. -/
theorem IsFraction.isPrefix_fraction {f e t : Text} (hf : IsFraction f) (he : IsExponent e)
    (h : f ++ e <+: t) :
    f ++ e <+: fraction t ++ exponent (t.drop (fraction t).length) := by
  cases hf with
  | none =>
      cases he with
      | none => exact List.nil_prefix
      | @power c s w hc hs hw =>
          rcases h with ⟨rest, rfl⟩
          have hno : fraction ([] ++ c :: (s ++ w) ++ rest) = [] := by
            rcases hc with rfl | rfl <;> rfl
          rw [hno]
          exact (IsExponent.power hc hs hw).isPrefix_exponent (List.prefix_append _ rest)
  | @places w hw =>
      rcases h with ⟨rest, rfl⟩
      have hprefix : w ++ e <+: w ++ e ++ rest := List.prefix_append _ rest
      have hdigits := (List.prefix_append w e).trans hprefix
      have hfraction : fraction ('.' :: (w ++ e ++ rest)) = '.' :: digits (w ++ e ++ rest) := by
        have hsome := hw.digits_ne_nil hdigits
        rw [fraction, if_neg (mt List.isEmpty_iff.mp hsome)]
      simp only [List.cons_append, hfraction, List.length_cons, List.drop_succ_cons]
      apply List.cons_prefix_cons.mpr
      refine ⟨rfl, ?_⟩
      apply hw.append_isPrefix hprefix he.head?_not_digit
      intro hrest
      exact he.isPrefix_exponent hrest

/-- The number that is read is one. -/
theorem inClass_of_number? {t n : Text} (h : number? t = some n) : InClass .number n := by
  simp only [number?] at h
  split at h
  · simp at h
  · next hw =>
    have hsame := Option.some.inj h
    subst hsame
    rw [List.append_assoc, List.append_assoc]
    exact .number (hyphen_cases t) (isDigits_digits (by simpa using hw))
      (isFraction_fraction _) (isExponent_exponent _)

/-- A number that a text starts with starts the one that is read. -/
theorem isPrefix_of_isNumber {t n : Text} (hn : InClass .number n) (h : n <+: t) :
    ∃ m, number? t = some m ∧ n <+: m := by
  cases hn with
  | @number s w f e hs hw hf he =>
      have hsign : hyphen t = s := by
        rcases h with ⟨rest, rfl⟩
        rcases hs with rfl | rfl
        · cases w with
          | nil => exact absurd rfl hw.1
          | cons c w => exact hyphen_of_ne (hw.head_ne (by decide))
        · rfl
      have hstart : s <+: t := by
        rw [← hsign]
        exact hyphen_isPrefix t
      have hbehind : w ++ (f ++ e) <+: t.drop s.length := (append_isPrefix_iff hstart).mp h
      have hwhole := (List.prefix_append w (f ++ e)).trans hbehind
      have hne : ¬(digits (t.drop s.length)).isEmpty = true := by
        simpa using hw.digits_ne_nil hwhole
      refine ⟨_, by simp only [number?, hsign]; rw [if_neg hne], ?_⟩
      rw [List.append_assoc, List.append_assoc]
      apply (List.prefix_append_right_inj s).mpr
      apply hw.append_isPrefix hbehind (hf.head?_not_digit he)
      intro hrest
      rw [List.drop_drop] at hrest
      simpa [List.drop_drop, Nat.add_assoc] using hf.isPrefix_fraction he hrest

/-! ## Openers -/

/-- Blanks and a line end are read at the end of an opener. -/
theorem openerEnd?_of_blanks {b e : Text} (hb : ∀ c ∈ b, Text.isBlank c = true)
    (he : IsLineEnd e) (rest : Text) : openerEnd? (b ++ (e ++ rest)) = some (b ++ e) := by
  have hspan : (b ++ (e ++ rest)).takeWhile Text.isBlank = b := by
    apply Span.takeWhile_append_of_boundary hb
    intro c hc
    cases he <;> obtain rfl := Option.some.inj hc <;> decide
  rw [openerEnd?, hspan, List.drop_left]
  cases he <;> rfl

/-- An opener ends at a place of a text exactly if blanks and a line end lie there. -/
theorem openerEnd?_eq_some_iff {t u : Text} :
    openerEnd? t = some u ↔
      (∃ b e, (∀ c ∈ b, Text.isBlank c = true) ∧ IsLineEnd e ∧ u = b ++ e) ∧ u <+: t := by
  constructor
  · intro h
    refine ⟨?_, isPrefix_of_openerEnd? h⟩
    have hblanks : ∀ c ∈ t.takeWhile Text.isBlank, Text.isBlank c = true :=
      fun _ hc => Span.of_mem_takeWhile hc
    simp only [openerEnd?] at h
    split at h
    · exact ⟨_, _, hblanks, .lineFeed, (Option.some.inj h).symm⟩
    · exact ⟨_, _, hblanks, .carriageReturn, (Option.some.inj h).symm⟩
    · simp at h
  · intro h
    rcases h with ⟨⟨b, e, hb, he, rfl⟩, rest, rfl⟩
    rw [List.append_assoc]
    exact openerEnd?_of_blanks hb he rest

/-- A character that a name may start with is one of markers. -/
theorem isMarkerChar_of_isNameStart {c : Char} (h : isNameStart c = true) :
    isMarkerChar c = true := by
  simp only [isNameStart, Bool.or_eq_true] at h
  rcases h with h | h <;> simp [isMarkerChar, Char.isAlphanum, h]

/-- All characters of a marker are ones of markers. -/
theorem IsMarker.all_isMarkerChar {m : Text} (hm : IsMarker m) :
    ∀ c ∈ m, isMarkerChar c = true := by
  cases hm with
  | mk hc ht =>
      intro d hd
      rcases List.mem_cons.mp hd with rfl | hd
      · exact isMarkerChar_of_isNameStart hc
      · exact ht d hd

/-- The characters of a name in front of a text that starts with one are a marker. -/
theorem isMarker_takeWhile {t : Text} (h : t.head?.any isNameStart = true) :
    IsMarker (t.takeWhile isMarkerChar) := by
  cases t with
  | nil => simp at h
  | cons c t =>
      have hc : isNameStart c = true := by simpa using h
      rw [List.takeWhile_cons_of_pos (isMarkerChar_of_isNameStart hc)]
      exact .mk hc fun _ hd => Span.of_mem_takeWhile hd

/-- The hyphen of a text says whether a heredoc is indented. -/
theorem hyphenIf_hyphen (t : Text) : hyphenIf (!(hyphen t).isEmpty) = hyphen t := by
  rcases hyphen_cases t with h | h <;> rw [h] <;> rfl

/-- The hyphen in front of a marker is read as such. -/
theorem hyphen_hyphenIf (indented : Bool) {m : Text} (hm : IsMarker m) (rest : Text) :
    hyphen (hyphenIf indented ++ (m ++ rest)) = hyphenIf indented := by
  cases hm with
  | mk hc ht =>
      cases indented with
      | true => rfl
      | false => exact hyphen_of_ne (ne_of_eq_true hc (by decide))

/-- An opener is read where it lies. -/
theorem opener?_of_opens {indented : Bool} {m o : Text} (ho : Opens indented m o)
    (rest : Text) : opener? (o ++ rest) = some ⟨indented, m, o⟩ := by
  cases ho with
  | @mk b e hm hb he =>
      have hspan : (m ++ (b ++ (e ++ rest))).takeWhile isMarkerChar = m := by
        apply Span.takeWhile_append_of_boundary hm.all_isMarkerChar
        intro c hc
        cases b with
        | nil => cases he <;> obtain rfl := Option.some.inj hc <;> decide
        | cons d b =>
            have hhead : d = c := Option.some.inj hc
            subst hhead
            have hd := hb d (List.mem_cons_self ..)
            simp only [Text.isBlank, Bool.or_eq_true, beq_iff_eq] at hd
            rcases hd with rfl | rfl <;> decide
      have hstart : (m ++ (b ++ (e ++ rest))).head?.any isNameStart = true := by
        cases hm with
        | mk hc ht => simpa using hc
      have hhyphen := hyphen_hyphenIf indented hm (b ++ (e ++ rest))
      simp only [List.cons_append, List.append_assoc, opener?, hhyphen, List.drop_left, hspan,
        if_pos hstart, openerEnd?_of_blanks hb he, Option.map_some]
      cases indented <;> rfl

/-- An opener is read exactly where a text starts with one. -/
theorem opener?_eq_some_iff {t : Text} {o : Opener} :
    opener? t = some o ↔ Opens o.indented o.marker o.text ∧ o.text <+: t := by
  constructor
  · intro h
    refine ⟨?_, text_isPrefix_of_opener? h⟩
    unfold opener? at h
    split at h
    · next t =>
      dsimp only at h
      split at h
      · next hstart =>
        rcases Option.map_eq_some_iff.mp h with ⟨u, hu, rfl⟩
        rcases openerEnd?_eq_some_iff.mp hu with ⟨⟨b, e, hb, he, rfl⟩, -⟩
        have hopens : Opens (!(hyphen t).isEmpty) _ _ := .mk (isMarker_takeWhile hstart) hb he
        simpa [hyphenIf_hyphen] using hopens
      · simp at h
    · simp at h
  · intro h
    rcases h with ⟨ho, rest, rfl⟩
    exact opener?_of_opens ho rest

end Lexeme

end Ocl

end DeployGate
