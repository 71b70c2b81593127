import DeployGate.Proofs.CommandLine.CheckedFile
import DeployGate.Proofs.Ocl.TreeWriting
import DeployGate.Proofs.RulesFile.Shown
import DeployGate.Proofs.Text.Lines

/-!
# The line of a verdict

The message about a failed check shows texts as they are: a name or an action type that the rules
want, and the one that is found.  So what is said of a document is one line exactly if these
texts are, and it holds the line of a success exactly if the document passes or one of these texts
has that line inside.  A text that is found can have a line feed only if it is written as a
heredoc.

Main results:

- Definition `Check.shownTexts`: the texts that the message about a check shows as they are.
- Theorem `Check.worded_of_message`: the form of every message about a check.
- Theorem `Check.exists_heredoc_of_found`: where a text with a line feed is found.
- Theorem `Gate.checkDocument_one_line_iff`: when what is said of a document is one line.
- Theorem `Gate.checkDocument_forged`: a document that fails and shows the line of a success.
-/

namespace DeployGate

/-! ## The line of a success -/

namespace Verdict

variable {s : Text}

/-- No text that starts in another way is the line of a success. -/
theorem allPassed_ne_append_right (h : ¬s <+: allPassed) (u : Text) : allPassed ≠ s ++ u :=
  fun hu => h ⟨u, hu.symm⟩

/-- No text that ends in one with a character of its own is the line of a success. -/
theorem allPassed_ne_append_left {a : Char} (ha : a ∉ allPassed) (hs : a ∈ s) (u : Text) :
    allPassed ≠ u ++ s := by
  intro hu
  rw [hu] at ha
  exact ha (List.mem_append_right u hs)

end Verdict

/-! ## Messages -/

namespace Check

variable {rules : Rules} {steps : List Step} {c : Check} {m : Text}

/-- The text that rules want a check to find, if they want one. -/
def wanted? (rules : Rules) : Check → Option Text
  | .stepCount => none
  | .stepName p => some (rules.stepName p)
  | .actionType _ => some rules.actionType
  | .lastStepNamed => none

/-- The text that a check finds and shows, if there is one. -/
def found? (steps : List Step) : Check → Option Text
  | .stepCount => none
  | .stepName p => Step.nameAt? steps p.index
  | .actionType p => Step.actionTypeAt? steps p.index
  | .lastStepNamed => none

/-- The texts that the message about a check shows as they are. -/
def shownTexts (rules : Rules) (steps : List Step) (c : Check) : List Text :=
  (c.wanted? rules).toList ++ (c.found? steps).toList

/-- The form of a message about a check: one line that shows none of these texts and does not say
that all checks pass, or the two texts between others. -/
inductive Worded (rules : Rules) (steps : List Step) (c : Check) : Text → Prop
  | plain {m : Text} (hwanted : c.wanted? rules = none) (hfound : c.found? steps = none)
      (hline : '\n' ∉ m) (hpassed : Verdict.allPassed ≠ m) : Worded rules steps c m
  | around {start wanted : Text} (hwanted : c.wanted? rules = some wanted)
      (hline : '\n' ∉ start) (hpassed : ¬start <+: Verdict.allPassed) :
      Worded rules steps c
        (start ++ (wanted ++ (" (was ".toList ++ ((c.found? steps).getD "None".toList ++ [')']))))

/-- What is shown of a text that may be missing. -/
theorem toText_text (t : Option Text) : (Fact.text t).toText = .ok (t.getD "None".toList) := by
  cases t <;> rfl

/-- A message about the number of steps is one line, and does not say that all checks pass. -/
theorem stepCount_message :
    IfThere (fun m => '\n' ∉ m ∧ Verdict.allPassed ≠ m) (stepCount.message rules steps) := by
  have hnumber := Number.printable_toText
  unfold message
  refine (hnumber (.int steps.length)).bind fun actual hactual =>
    (hnumber rules.minSteps).bind fun wanted hwanted => .ok ?_
  have hstart : '\n' ∉ "The deployment process must have at least ".toList := by decide
  have hmiddle : '\n' ∉ " steps (was ".toList := by decide
  have hclose : '\n' ∉ [')'] := by decide
  have hpassed : ¬"The deployment process must have at least ".toList <+: Verdict.allPassed := by
    decide
  simp only [wording.eq_def, List.append_assoc]
  constructor
  · simp only [List.mem_append, hstart, hwanted.line_feed_not_mem, hmiddle,
      hactual.line_feed_not_mem, hclose, or_self, not_false_eq_true]
  · intro hm
    rw [hm] at hpassed
    exact hpassed (List.prefix_append _ _)

/-- Every message about a check has this form. -/
theorem worded_of_message (h : c.message rules steps = .ok m) : Worded rules steps c m := by
  have hstart : ∀ (p : Place) (verb : Text), '\n' ∉ verb →
      '\n' ∉ p.title ++ verb ∧ ¬p.title ++ verb <+: Verdict.allPassed := by
    intro p verb hverb
    have htitle : '\n' ∉ p.title ∧ ¬p.title <+: Verdict.allPassed := by
      cases p <;> decide
    constructor
    · simp [htitle.1, hverb]
    · exact fun hprefix => htitle.2 ((List.prefix_append _ _).trans hprefix)
  cases c with
  | stepCount =>
      rcases stepCount_message m h with ⟨hline, hpassed⟩
      exact .plain rfl rfl hline hpassed
  | stepName p =>
      rcases hstart p " step must be called ".toList (by decide) with ⟨hline, hpassed⟩
      simp only [message, actual, expected, toText_text] at h
      rw [← Except.ok.inj h]
      have hworded : Worded rules steps (.stepName p) _ := .around rfl hline hpassed
      simpa only [wording.eq_def, found?, Option.getD_some, List.append_assoc] using hworded
  | actionType p =>
      rcases hstart p " step must be a script step of type ".toList (by decide) with
        ⟨hline, hpassed⟩
      simp only [message, actual, expected, toText_text] at h
      rw [← Except.ok.inj h]
      have hworded : Worded rules steps (.actionType p) _ := .around rfl hline hpassed
      simpa only [wording.eq_def, found?, Option.getD_some, List.append_assoc] using hworded
  | lastStepNamed =>
      simp only [message, actual, expected, toText_text] at h
      rw [← Except.ok.inj h]
      have hline : '\n' ∉ "Failed to find the name of the last step".toList ∧
          Verdict.allPassed ≠ "Failed to find the name of the last step".toList := by decide
      exact .plain rfl rfl hline.1 hline.2

namespace Worded

/-- A text that stands for one that is not found and does not have a property makes no
difference to whether a shown text has it. -/
theorem exists_mem_shownTexts_iff (P : Text → Prop) {wanted absent : Text}
    (hwanted : c.wanted? rules = some wanted) (habsent : ¬P absent) :
    (∃ s ∈ c.shownTexts rules steps, P s) ↔ P wanted ∨ P ((c.found? steps).getD absent) := by
  cases hfound : c.found? steps with
  | none => simp [shownTexts, hwanted, hfound, habsent]
  | some s => simp [shownTexts, hwanted, hfound]

/-- A message has a line feed exactly if one of the texts that it shows has. -/
theorem line_feed_mem_iff (h : Worded rules steps c m) :
    '\n' ∈ m ↔ ∃ s ∈ c.shownTexts rules steps, '\n' ∈ s := by
  cases h with
  | plain hwanted hfound hline => simp [shownTexts, hwanted, hfound, hline]
  | around hwanted hline =>
      have hnone : '\n' ∉ "None".toList := by decide
      rw [exists_mem_shownTexts_iff ('\n' ∈ ·) hwanted hnone]
      have hmiddle : '\n' ∉ " (was ".toList := by decide
      have hclose : '\n' ∉ [')'] := by decide
      simp only [List.mem_append, hline, hmiddle, hclose, false_or, or_false]

/-- The lines of what stands behind the wanted text: the first of them is not the end of the line
of a success, and that line is one of the others exactly if it is inside the found text. -/
theorem exists_lines_behind (found : Text) :
    ∃ p bs, Text.lines (" (was ".toList ++ (found ++ [')'])) = p :: bs ∧
      (∀ u, Verdict.allPassed ≠ u ++ p) ∧
      (Verdict.allPassed ∈ bs ↔ Verdict.allPassed ∈ Text.innerLines found) := by
  have hmiddle : '\n' ∉ " (was ".toList ∧ ¬" (was ".toList <+: Verdict.allPassed := by decide
  have hclose : '\n' ∉ [')'] ∧ ')' ∉ Verdict.allPassed := by decide
  rcases List.exists_cons_of_ne_nil (Text.splitAt_ne_nil '\n' (found ++ [')'])) with ⟨p, bs, hp⟩
  have hlines := Text.lines_append_of_not_mem hmiddle.1 hp
  have hopen : '(' ∉ Verdict.allPassed ∧ '(' ∈ " (was ".toList := by decide
  have hend : ∀ u, Verdict.allPassed ≠ u ++ (" (was ".toList ++ p) :=
    Verdict.allPassed_ne_append_left hopen.1 (List.mem_append_left p hopen.2)
  have hfirst : Verdict.allPassed ≠ " (was ".toList ++ p := hend []
  have hbetween := Text.mem_lines_between_iff found hmiddle.1 (Text.splitAt_of_not_mem hclose.1)
    (Verdict.allPassed_ne_append_right hmiddle.2)
    (Verdict.allPassed_ne_append_left hclose.2 List.mem_cons_self)
  rw [hlines, List.mem_cons, or_iff_right hfirst, or_iff_left List.not_mem_nil] at hbetween
  exact ⟨_, bs, hlines, hend, hbetween⟩

/-- The line of a success is a line of a message exactly if it is one inside a text that the
message shows. -/
theorem allPassed_mem_lines_iff (h : Worded rules steps c m) :
    Verdict.allPassed ∈ Text.lines m ↔
      ∃ s ∈ c.shownTexts rules steps, Verdict.allPassed ∈ Text.innerLines s := by
  cases h with
  | plain hwanted hfound hline hpassed =>
      rw [Text.lines, Text.splitAt_of_not_mem hline]
      simp [shownTexts, hwanted, hfound, hpassed]
  | @around start wanted hwanted hline hpassed =>
      have hnone : Verdict.allPassed ∉ Text.innerLines "None".toList := by
        rw [Text.innerLines_of_not_mem (by decide)]
        exact List.not_mem_nil
      rw [exists_mem_shownTexts_iff (Verdict.allPassed ∈ Text.innerLines ·) hwanted hnone]
      rcases exists_lines_behind ((c.found? steps).getD "None".toList) with
        ⟨p, bs, hbehind, hend, hfound⟩
      rw [Text.mem_lines_between_iff wanted hline hbehind
        (Verdict.allPassed_ne_append_right hpassed) hend, hfound]

end Worded

/-! ## Found texts -/

/-- The attribute that a check takes what it finds from. -/
def Reads (steps : List Step) : Check → Ocl.Attribute → Prop
  | .stepName p, a => ∃ s, p.Holds steps s ∧
      Ocl.LastNamed .attribute Ocl.Binding.name "name".toList s.children a
  | .actionType p, a => ∃ s action, p.Holds steps s ∧
      Ocl.LastNamed .block Ocl.Section.name "action".toList s.children action ∧
      Ocl.LastNamed .attribute Ocl.Binding.name "action_type".toList action.children a
  | _, _ => False

/-- A check finds what the scalar of its attribute says. -/
theorem found?_eq_some_iff {t : Text} :
    c.found? steps = some t ↔
      ∃ a kind u, c.Reads steps a ∧ a.value = .literal kind u ∧ Unquoted u t := by
  cases c with
  | stepCount => simp [found?, Reads]
  | stepName p =>
      rw [found?, Step.nameAt?_eq_some_iff]
      constructor
      · intro h
        rcases h with ⟨s, hs, a, kind, u, ha, hvalue, hu⟩
        exact ⟨a, kind, u, ⟨s, hs, ha⟩, hvalue, hu⟩
      · intro h
        rcases h with ⟨a, kind, u, ⟨s, hs, ha⟩, hvalue, hu⟩
        exact ⟨s, hs, a, kind, u, ha, hvalue, hu⟩
  | actionType p =>
      rw [found?, Step.actionTypeAt?_eq_some_iff]
      constructor
      · intro h
        rcases h with ⟨s, action, hs, haction, a, kind, u, ha, hvalue, hu⟩
        exact ⟨a, kind, u, ⟨s, action, hs, haction, ha⟩, hvalue, hu⟩
      · intro h
        rcases h with ⟨a, kind, u, ⟨s, action, hs, haction, ha⟩, hvalue, hu⟩
        exact ⟨s, action, hs, haction, a, kind, u, ha, hvalue, hu⟩
  | lastStepNamed => simp [found?, Reads]

end Check

namespace Ocl

/-- What a well-formed block holds is well formed. -/
theorem Node.WellFormed.child {b : Block} {n : Node} (h : Node.WellFormed (.block b))
    (hn : n ∈ b.children) : n.WellFormed := by
  cases h with
  | block hname hlabels hchildren => exact hchildren n hn

/-- The last part with a name is a part. -/
theorem LastNamed.mem {β : Type} {embed : β → Node} {nameOf : β → Text} {name : Text}
    {ns : List Node} {b : β} (h : LastNamed embed nameOf name ns b) : embed b ∈ ns := by
  rcases h with ⟨before, after, rfl, -, -⟩
  simp

/-- Only the text of a heredoc can have a line feed. -/
theorem LiteralText.kind_of_line_feed_mem {k : LiteralKind} {t : Text} (h : LiteralText k t)
    (ht : '\n' ∈ t) : k = .heredoc := by
  cases h with
  | string hclass => exact absurd ht (hclass.line_feed_not_mem (by decide) (by decide))
  | heredoc hlast => rfl
  | number hclass => exact absurd ht (hclass.line_feed_not_mem (by decide) (by decide))
  | true => exact absurd ht (by decide)
  | false => exact absurd ht (by decide)
  | identifier hclass => exact absurd ht (hclass.line_feed_not_mem (by decide) (by decide))

end Ocl

/-- The step at a place is one of the steps. -/
theorem Place.Holds.mem {p : Place} {steps : List Step} {s : Step} (h : p.Holds steps s) :
    s ∈ steps := by
  cases h <;> simp

/-- A text says no more characters than it has. -/
theorem Unquoted.subset {t u : Text} (h : Unquoted t u) : u ⊆ t := by
  cases h with
  | marks => simp
  | plain => exact List.Subset.refl _

namespace Check

/-- The attribute that a check reads has a well-formed value. -/
theorem Reads.wellFormed {t : Text} {d : Ocl.Document} {c : Check} {a : Ocl.Attribute}
    (h : c.Reads d.steps a) (hread : Ocl.Document.read t = .ok d) : a.value.WellFormed := by
  have hsteps : ∀ s ∈ d.steps, Ocl.Node.WellFormed (.block s) := by
    intro s hs
    rcases List.mem_filterMap.mp hs with ⟨n, hn, hblock⟩
    have hwell := Ocl.wellFormed_of_read hread n hn
    rcases n with a | b
    · contradiction
    · rwa [← Option.some.inj hblock]
  have hbinding : ∀ {s : Step} {name : Text}, Ocl.Node.WellFormed (.block s) →
      Ocl.LastNamed .attribute Ocl.Binding.name name s.children a → a.value.WellFormed := by
    intro s name hs ha
    cases hs.child ha.mem with
    | binding ha => exact ha.value
  cases c with
  | stepCount => contradiction
  | stepName p =>
      rcases h with ⟨s, hs, ha⟩
      exact hbinding (hsteps s hs.mem) ha
  | actionType p =>
      rcases h with ⟨s, action, hs, haction, ha⟩
      exact hbinding ((hsteps s hs.mem).child haction.mem) ha
  | lastStepNamed => contradiction

/-- A found text with a line feed is one that a heredoc says. -/
theorem exists_heredoc_of_found {t s : Text} {d : Ocl.Document} {c : Check}
    (hread : Ocl.Document.read t = .ok d) (hfound : c.found? d.steps = some s) (hs : '\n' ∈ s) :
    ∃ a u, c.Reads d.steps a ∧ a.value = .literal .heredoc u ∧ Unquoted u s := by
  rcases found?_eq_some_iff.mp hfound with ⟨a, kind, u, ha, hvalue, hu⟩
  have hwell := ha.wellFormed hread
  rw [hvalue] at hwell
  cases hwell with
  | literal htext =>
      rw [htext.kind_of_line_feed_mem (hu.subset hs)] at hvalue
      exact ⟨a, u, ha, hvalue, hu⟩

end Check

/-! ## Documents -/

namespace Gate

variable {rules : Rules}

/-- The texts that are shown of a document: those of the first check that fails. -/
def shownTexts (rules : Rules) (d : Ocl.Document) : List Text :=
  (Check.firstFailure? rules d.steps).elim [] (Check.shownTexts rules d.steps)

/-- What is said of a document is the verdict on it. -/
theorem checkDocument_eq_saying_iff {d : Ocl.Document} {passed : Bool} {line : Text} :
    checkDocument d rules = .saying passed line ↔ d.check rules = .ok ⟨passed, line⟩ := by
  rw [checkDocument]
  cases d.check rules with
  | error fault => simp [Run.failing, Run.saying]
  | ok v =>
      rcases v with ⟨passed', line'⟩
      simp [Run.saying, Run.line]

/-- A verdict is one line exactly if all texts that are shown of the document are, and it has the
line of a success exactly if the document passes or such a text has that line inside. -/
theorem verdict_line_iff {d : Ocl.Document} {v : Verdict} (h : d.check rules = .ok v) :
    ('\n' ∈ v.line ↔ ∃ s ∈ shownTexts rules d, '\n' ∈ s) ∧
    (Verdict.allPassed ∈ Text.lines v.line ↔
      v.passed = true ∨ ∃ s ∈ shownTexts rules d, Verdict.allPassed ∈ Text.innerLines s) := by
  cases hfirst : Check.firstFailure? rules d.steps with
  | none =>
      rw [Ocl.Document.check, hfirst] at h
      rw [← Except.ok.inj h, shownTexts, hfirst]
      have hline : '\n' ∉ Verdict.allPassed := by decide
      rw [Text.lines, Text.splitAt_of_not_mem hline]
      simp [hline]
  | some c =>
      rw [Ocl.Document.check, hfirst] at h
      dsimp only at h
      cases hmessage : c.message rules d.steps with
      | error fault =>
          rw [hmessage] at h
          contradiction
      | ok m =>
          rw [hmessage] at h
          rw [← Except.ok.inj h, shownTexts, hfirst]
          have hworded := Check.worded_of_message hmessage
          simp [hworded.line_feed_mem_iff, hworded.allPassed_mem_lines_iff]

/-- A text and a line end have one line feed exactly if the text has none. -/
theorem lineFeeds_line_eq_one_iff (m : Text) : Text.lineFeeds (Run.line m) = 1 ↔ '\n' ∉ m := by
  rw [Run.line, Text.lineFeeds_append, Text.lineFeeds, Text.lineFeeds, ← List.count_eq_zero]
  simp

/-- A text and a line end have the lines of the text, and the empty one behind them. -/
theorem mem_lines_line_iff {l m : Text} (hl : l ≠ []) :
    l ∈ Text.lines (Run.line m) ↔ l ∈ Text.lines m := by
  rw [Run.line, Text.lines, Text.splitAt_append_append]
  simp [Text.splitAt, hl, Text.lines]

/-- Let a text be read as a document.  There is a verdict on it, unless the message about the
number of steps has a number that cannot be shown.  What is said is one line exactly if the texts
are that the message about the first failure shows: the name or action type that the rules want
and the one that is found.  The line of a success is among the lines exactly if the document
passes or one of these texts has that line between its first and its last line.  A found text has
a line feed only if it is written as a heredoc. -/
theorem checkDocument_one_line_iff {t : Text} {d : Ocl.Document}
    (hread : Ocl.Document.read t = .ok d) (rules : Rules) :
    ((∃ passed line, checkDocument d rules = .saying passed line) ↔ ¬Unworded rules d) ∧
    (∀ passed line, checkDocument d rules = .saying passed line →
      (Text.lineFeeds (Run.line line) = 1 ↔ ∀ s ∈ shownTexts rules d, '\n' ∉ s) ∧
      (Verdict.allPassed ∈ Text.lines (Run.line line) ↔
        passed = true ∨ ∃ s ∈ shownTexts rules d, Verdict.allPassed ∈ Text.innerLines s)) ∧
    ∀ c s, Check.firstFailure? rules d.steps = some c → c.found? d.steps = some s → '\n' ∈ s →
      ∃ a u, c.Reads d.steps a ∧ a.value = .literal .heredoc u ∧ Unquoted u s := by
  simp only [checkDocument_eq_saying_iff]
  refine ⟨⟨?_, ?_⟩, ?_, ?_⟩
  · intro h
    rcases h with ⟨passed, line, h⟩
    exact (check_refusedIff rules d).not_of_ok h
  · intro h
    rcases (check_refusedIff rules d).exists_of_not h with ⟨v, hv⟩
    exact ⟨v.passed, v.line, hv⟩
  · intro passed line h
    rcases verdict_line_iff h with ⟨hline, hpassed⟩
    constructor
    · rw [lineFeeds_line_eq_one_iff, hline]
      simp
    · rw [mem_lines_line_iff (by decide), hpassed]
  · intro c s hfirst hfound hs
    exact Check.exists_heredoc_of_found hread hfound hs

/-- A document whose first step has a name on three lines. -/
def threeLineName : Text :=
  "a\x7bname=<<E\nx\nAll tests passed!\ny\nE\n\x7d\nb\x7b\x7d\nc\x7b\x7d".toList

/-- What that text is read as. -/
def threeLineDocument : Ocl.Document :=
  [.block ⟨"a".toList, [], [.attribute
      ⟨"name".toList, .literal .heredoc "x\nAll tests passed!\ny".toList, 1⟩], 1⟩,
    .block ⟨"b".toList, [], [], 7⟩, .block ⟨"c".toList, [], [], 8⟩]

/-- Two texts are shown of that document.  One of them has line feeds and the line of a success
inside, so that what is said is more than one line, and that line is among them. -/
theorem checkDocument_one_line_iff_threeLineName :
    Ocl.Document.read threeLineName = .ok threeLineDocument ∧
    ∃ passed line, checkDocument threeLineDocument Rules.standard = .saying passed line ∧
      Text.lineFeeds (Run.line line) ≠ 1 ∧ Verdict.allPassed ∈ Text.lines (Run.line line) := by
  have hread : Ocl.Document.read threeLineName = .ok threeLineDocument := by cbv
  have hshown : shownTexts Rules.standard threeLineDocument =
      ["Generate GitHub Token".toList, "x\nAll tests passed!\ny".toList] := by rfl
  rcases checkDocument_one_line_iff hread Rules.standard with ⟨hverdict, hlines, -⟩
  rcases hverdict.mpr (not_unworded Rules.countShown_standard threeLineDocument) with
    ⟨passed, line, hsaid⟩
  rcases hlines passed line hsaid with ⟨hone, hpassed⟩
  rw [hshown] at hone hpassed
  refine ⟨hread, passed, line, hsaid, ?_, ?_⟩
  · rw [Ne, hone]
    decide +kernel
  · rw [hpassed]
    right
    decide +kernel

/-- What is said of that document. -/
def threeLineMessage : Text :=
  "First step must be called Generate GitHub Token (was x\nAll tests passed!\ny)".toList

/-- A document that does not pass and of which three lines are said, one of them the line of a
success. -/
theorem checkDocument_forged :
    Ocl.Document.read threeLineName = .ok threeLineDocument ∧
    checkDocument threeLineDocument Rules.standard = .saying false threeLineMessage ∧
    Text.lineFeeds (Run.line threeLineMessage) = 3 ∧
    Verdict.allPassed ∈ Text.lines (Run.line threeLineMessage) := by
  refine ⟨by cbv, by rfl, ?_, ?_⟩
  · decide +kernel
  · decide +kernel

end Gate

end DeployGate
