import DeployGate.Proofs.CommandLine.Ending
import DeployGate.Proofs.RulesFile.Draft

/-!
# The report of a rules file

A report names each violation of a rules file on a line of its own.  The rules of the same file
are refused for the one that comes first in the order of the schema.

Main results:

- Definition `Lint.ordered`: the violations of a value in the order of a report.
- Theorem `Lint.reportDatum_eq`: the whole report of a value.
- Theorem `Lint.run_reports_each_once`: the report of a file, and what the rules of the same file
  are refused for.
-/

namespace DeployGate

/-! ## Files with a value -/

/-- A path with a text leads somewhere. -/
theorem Files.hasPath_of_text {files : Files} {path : Path} {t : Text}
    (h : files.text path = .ok t) : files.hasPath path = .ok true := by
  cases hnul : path.hasNul with
  | true => simp [text, bytes, hnul, bind, Except.bind] at h
  | false =>
      cases hread : files.read path with
      | error fault => simp [text, bytes, hnul, hread, Except.mapError, bind, Except.bind] at h
      | ok bytes => simp [hasPath, hnul, files.look_of_read path bytes hread]

/-- A file with a value has a text. -/
theorem Datum.exists_text_of_load {formats : Formats} {files : Files} {path : Path} {d : Datum}
    (h : load formats files path = .ok d) : ∃ t, files.text path = .ok t := by
  cases ht : files.text path with
  | ok t => exact ⟨t, rfl⟩
  | error fault => simp [load, ht, Except.mapError, bind, Except.bind] at h

namespace Lint

variable {tools : Tools} {files : Files} {path : Path} {V : Validator} {d : Datum}

/-- The value of a path is reported. -/
theorem reportFile_of_load (h : Datum.load tools.formats files path = .ok d) :
    reportFile tools files path = reportDatum tools.validator d := by
  rcases Datum.exists_text_of_load h with ⟨t, ht⟩
  simp [reportFile, Files.hasPath_of_text ht, h]

/-! ## The report of a value -/

/-- The violations of a value in the order of a report. -/
def ordered (V : Validator) (d : Datum) : List Violation :=
  (V.violations d).mergeSort fun v w => PathItem.pathAtMost v.path w.path

/-- A report has the violations that are found. -/
theorem mem_ordered_iff {v : Violation} : v ∈ ordered V d ↔ v ∈ V.violations d :=
  List.mem_mergeSort

section Wording

variable {wording : Violation → Text}

/-- Violations with known messages are found with them. -/
theorem entries_eq (h : ∀ v ∈ V.violations d, V.message v = .ok (wording v)) :
    entries V d = .ok ((V.violations d).map fun v => (v, wording v)) := by
  refine mapM_eq_ok_map fun v hv => ?_
  rw [h v hv]
  rfl

/-- Violations are sorted without regard to their messages. -/
theorem sorted_map (vs : List Violation) :
    sorted (vs.map fun v => (v, wording v)) =
      (vs.mergeSort fun v w => PathItem.pathAtMost v.path w.path).map fun v =>
        (v, wording v) := by
  have hsort := List.map_mergeSort (f := fun v => (v, wording v))
    (s := fun e f : Entry => PathItem.pathAtMost e.1.path f.1.path)
    (r := fun v w => PathItem.pathAtMost v.path w.path) (l := vs) fun _ _ _ _ => rfl
  exact hsort.symm

/-- The report of a value has a line for each violation. -/
theorem reportDatum_eq (hV : V.Draft7)
    (h : ∀ v ∈ V.violations d, V.message v = .ok (wording v)) :
    reportDatum V d =
      if (ordered V d).isEmpty then .saying 0 "OK: rules file is valid.".toList
      else ⟨.result 1, [], ("RULES VALIDATION ERRORS:".toList :: (ordered V d).map fun v =>
        " - ".toList ++ place v.path ++ ": ".toList ++ wording v).flatMap Run.line⟩ := by
  have hpaths : ((V.violations d).map fun v => (v, wording v)).map (fun e => e.1.path) =
      (V.violations d).map Violation.path := by
    rw [List.map_map]
    rfl
  rw [reportDatum, entries_eq h]
  dsimp only
  rw [hpaths, Schema.clashIn?_eq_none fun v => (hV d v).mp, sorted_map, ← ordered]
  cases ordered V d with
  | nil => rfl
  | cons v vs =>
      simp only [List.map_cons, List.map_map]
      rfl

end Wording

/-! ## The report of a file -/

/-- Let a validator obey the laws, let a value be loaded from a file, and let messages show all
integers in it.  The report of the file has a line for each thing that is wrong with the value,
once, in the order of the keys, and none of the messages breaks its line; unknown keys are all
named.  The result is one if there is such a line and zero if there is none.  The ways that the
lines are sorted by can all be compared.  If the value is a mapping, the rules of the file are
refused for the violation that comes first field by field, with the message of its line. -/
theorem run_reports_each_once {tools : Tools} {files : Files} {word : Text} {d : Datum}
    (hdraft : tools.validator.Draft7) (hfields : tools.validator.FieldByField)
    (hlegible : tools.validator.Legible)
    (hload : Datum.load tools.formats files (Path.ofText word) = .ok d) (hshown : ¬d.Unshown) :
    ∃ (vs : List Violation) (wording : Violation → Text),
      Schema.Accounts d Field.byKey vs ∧ vs.Nodup ∧
      (∀ v ∈ vs, tools.validator.message v = .ok (wording v) ∧
        (∀ c ∈ wording v, Text.isLineBreak c = false) ∧
        ∀ ks, v.problem = .unknownKeys ks → Problem.NamesKeys ks (wording v)) ∧
      run tools files [word] =
        (if vs.isEmpty then .saying 0 "OK: rules file is valid.".toList
        else ⟨.result 1, [], ("RULES VALIDATION ERRORS:".toList :: vs.map fun v =>
          " - ".toList ++ place v.path ++ ": ".toList ++ wording v).flatMap Run.line⟩) ∧
      (∀ v ∈ vs, ∀ w ∈ vs, PathItem.clash? v.path w.path = none) ∧
      ∀ es, d = .map es → vs ≠ [] → ∃ v ∈ vs,
        (∀ w ∈ vs, w = v ∨ Violation.Before Field.all v w) ∧
        Rules.load tools files (Path.ofText word) = .error (.violation v (wording v)) := by
  have hmessage := hlegible.worded d hshown
  choose! wording hwording using hmessage
  have haccounts : Schema.Accounts d Field.all (tools.validator.violations d) :=
    ⟨hdraft d, hfields d⟩
  have hordered : Schema.Accounts d Field.byKey (ordered tools.validator d) := haccounts.mergeSort
  refine ⟨ordered tools.validator d, wording, hordered, hordered.nodup (by decide), ?_, ?_,
    fun v hv w hw => ((hordered.mem_iff v).mp hv).clash?_eq_none ((hordered.mem_iff w).mp hw), ?_⟩
  · intro v hv
    have hm := hwording v (mem_ordered_iff.mp hv)
    refine ⟨hm, hlegible.oneLine v _ hm, fun ks hks => ?_⟩
    rcases v with ⟨path, problem⟩
    dsimp only at hks
    subst hks
    exact hlegible.names path ks _ hm
  · rw [← reportDatum_eq hdraft hwording]
    exact reportFile_of_load hload
  · rintro es rfl hne
    cases hviolations : tools.validator.violations (.map es) with
    | nil => simp [ordered, hviolations] at hne
    | cons v vs =>
        rw [hviolations] at haccounts
        have hv : v ∈ tools.validator.violations (.map es) := by simp [hviolations]
        refine ⟨v, mem_ordered_iff.mpr hv, fun w hw => ?_, ?_⟩
        · exact haccounts.before_of_wrong ((hordered.mem_iff w).mp hw)
        · rw [Rules.load_of_datum hload]
          exact Rules.standard.overlayDatum_of_violations_cons hviolations (hwording v hv)

/-- A rules file with an unknown key, a number of steps that is neither an integer nor at least
one, an empty name, and a time in place of a name. -/
def wrongRulesText : Text :=
  "minSteps: -.inf\nx: 1\nactionType: ''\nlastStepName: 2001-12-14 21:59:43\n".toList

/-- A moment, which is no text. -/
def moment : Foreign where
  kind := "datetime".toList
  form := "datetime.datetime(2001, 12, 14, 21, 59, 43)".toList
  word := "2001-12-14 21:59:43".toList
  oversized := false
  printable := by decide

/-- What that file is read as. -/
def wrongRules : Datum :=
  .map [(.text "minSteps".toList, .number (.double (.infinite true))),
    (.text ['x'], .number (.int 1)), (.text "actionType".toList, .text []),
    (.text "lastStepName".toList, .foreign moment)]

/-- Tools that read that file, which is no JSON text. -/
def wrongRulesTools : Tools where
  formats := {
    json := .ofTable [(wrongRulesText,
      .error (.malformed "Expecting value: line 1 column 1 (char 0)".toList [⟨0, 1, 1⟩]))]
    yaml := .ofTable [(wrongRulesText, .ok wrongRules)] }
  validator := .standard

/-- The report of that file ends with a result of one, and its rules are refused for the unknown
key. -/
theorem run_reports_each_once_wrongRules :
    wrongRulesTools.validator.Draft7 ∧ wrongRulesTools.validator.FieldByField ∧
    wrongRulesTools.validator.Legible ∧
    Datum.load wrongRulesTools.formats (Files.ofText wrongRulesText)
      (Path.ofText "r.yaml".toList) = .ok wrongRules ∧
    ¬wrongRules.Unshown ∧
    (run wrongRulesTools (Files.ofText wrongRulesText) ["r.yaml".toList]).ending = .result 1 ∧
    ∃ message, Rules.load wrongRulesTools (Files.ofText wrongRulesText)
        (Path.ofText "r.yaml".toList) =
      .error (.violation ⟨[], .unknownKeys [.text ['x']]⟩ message) := by
  have hdraft := Validator.standard_draft7
  have hfields := Validator.standard_fieldByField
  have hlegible := Validator.standard_legible
  have htext : (Files.ofText wrongRulesText).text (Path.ofText "r.yaml".toList) =
      .ok wrongRulesText := Files.text_ofText (by decide) (Text.plain_of_all (by cbv))
  have hload : Datum.load wrongRulesTools.formats (Files.ofText wrongRulesText)
      (Path.ofText "r.yaml".toList) = .ok wrongRules := by
    rw [Rules.datum_load_of_text htext]
    rfl
  have hshow : wrongRules.shown = .ok ("\x7b'minSteps': -inf, 'x': 1, 'actionType': '', ".toList ++
      "'lastStepName': datetime.datetime(2001, 12, 14, 21, 59, 43)\x7d".toList) := by cbv
  have hshown := wrongRules.shown_refusedIff.not_of_ok hshow
  rcases run_reports_each_once hdraft hfields hlegible hload hshown with
    ⟨vs, wording, haccounts, -, -, hrun, -, hrules⟩
  -- The unknown key is wrong, and nothing that is wrong comes before it field by field.
  have hunknown : ⟨[], .unknownKeys [.text ['x']]⟩ ∈ vs :=
    (haccounts.mem_iff _).mpr (.unknownKeys (by rw [← Schema.unknownKeys_eq]; rfl) (by simp))
  have hne : vs ≠ [] := List.ne_nil_of_mem hunknown
  refine ⟨hdraft, hfields, hlegible, hload, hshown, ?_, ?_⟩
  · rw [hrun, if_neg (by simpa using hne)]
  · rcases hrules _ rfl hne with ⟨v, hv, hfirst, hrefused⟩
    rcases hfirst _ hunknown with rfl | hbefore
    · exact ⟨_, hrefused⟩
    · exact absurd hbefore Violation.not_before_unknownKeys

end Lint

end DeployGate
