import DeployGate.Proofs.CommandLine.Report

/-!
# The two checks of a rules file agree

A rules file is checked by the gate, which stops at the first violation, and by a report of
all violations.  The result of the report says what the gate makes of the same file: rules,
a refusal of its value, or no value at all.  Only a path that cannot be looked at lets the report
end without a result.

Main results:

- Definition `RulesFault.IsRefusal`: the faults that are refusals of a value.
- Theorem `Lint.reportFile_cases`: the ways that the report of a file and its rules can go.
- Theorem `Lint.run_result_iff`: what each result of the report says of the rules.
- Theorem `Lint.run_longName`: the report of a path with a long name has no result.
-/

namespace DeployGate

/-! ## Long names -/

/-- In an empty directory a path of one name that is too long cannot be looked at. -/
theorem FileTree.hasPath_of_long_name {path : Path} {name : Text} (hnul : path.hasNul = false)
    (hsize : size path.toText ≤ 4095) (hnames : path.names = [name])
    (hname : 255 < size name) :
    empty.files.hasPath path = .error .nameTooLong := by
  have hparent : name ≠ ['.', '.'] := by
    rintro rfl
    contradiction
  have hat : empty.at? path = .error .nameTooLong := by
    simp [at?, hnames, empty, walk, hparent, hname, Nat.not_lt.mpr hsize]
  simp [Files.hasPath, hnul, files, Files.ofReads, read, hat, bind, Except.bind, Except.isOk,
    Except.toBool]
  rfl

/-! ## Rules and refusals -/

/-- A fault is a refusal of the value that the file holds. -/
def RulesFault.IsRefusal : RulesFault → Prop
  | .notMapping _ => True
  | .violation _ _ => True
  | .load _ => False
  | .unworded _ => False
  | .unknownKey _ => False

namespace Rules

variable {V : Validator} {base : Rules} {d : Datum}

/-- A value with violations is refused, if messages show all that is in it. -/
theorem overlayDatum_of_violations_ne_nil (hV : V.Draft7) (hworded : V.Worded) (base : Rules)
    (hd : ¬d.Unshown) (h : Schema.violations d ≠ []) :
    ∃ fault, base.overlayDatum V d = .error fault ∧ fault.IsRefusal := by
  cases d with
  | map es =>
      rcases exists_violation_of_map hV hworded base hd h with ⟨v, m, hrefused⟩
      exact ⟨_, hrefused, trivial⟩
  | _ => exact ⟨_, rfl, trivial⟩

end Rules

/-! ## The report -/

namespace Lint

variable {tools : Tools} {files : Files} {path : Path} {V : Validator} {d : Datum}

/-- The violations in a report are those that the schema forbids. -/
theorem ordered_eq_nil_iff (hV : V.Draft7) : ordered V d = [] ↔ Schema.violations d = [] := by
  rw [← hV.violations_eq_nil_iff]
  simp only [List.eq_nil_iff_forall_not_mem, mem_ordered_iff]

/-- The report of a value ends with zero if there are no violations, and with one if there are
some. -/
theorem reportDatum_ending (hV : V.Draft7) (hworded : V.Worded) (hd : ¬d.Unshown) :
    (Schema.violations d = [] → (reportDatum V d).ending = .result 0) ∧
      (Schema.violations d ≠ [] → (reportDatum V d).ending = .result 1) := by
  have hmessage := hworded d hd
  choose! wording hwording using hmessage
  rw [reportDatum_eq hV hwording, ne_eq, ← ordered_eq_nil_iff hV]
  constructor
  · intro hnone
    rw [if_pos (List.isEmpty_iff.mpr hnone)]
    rfl
  · intro hsome
    rw [if_neg (mt List.isEmpty_iff.mp hsome)]

/-- Nothing is read from a path that cannot be looked at. -/
theorem exists_load_error_of_hasPath_error (tools : Tools) {fault : FileFault}
    (h : files.hasPath path = .error fault) :
    ∃ f, Datum.load tools.formats files path = .error (.read f) := by
  cases ht : files.text path with
  | ok t =>
      rw [Files.hasPath_of_text ht] at h
      contradiction
  | error f => exact ⟨f, by simp [Datum.load, ht, Except.mapError, bind, Except.bind]⟩

/-- A path that is looked at and has no value is reported with a result of two. -/
theorem reportFile_of_load_error {isThere : Bool} {fault : LoadFault}
    (hpath : files.hasPath path = .ok isThere)
    (h : Datum.load tools.formats files path = .error fault) :
    (reportFile tools files path).ending = .result 2 := by
  rw [reportFile, hpath, h]
  cases isThere <;> rfl

/-- The report of a file that is looked at and the rules of the same file: rules are a result of
zero, a refusal of the value is a result of one, and a file without a value is a result of two. -/
theorem reportFile_cases {isThere : Bool} (hdraft : tools.validator.Draft7)
    (hworded : tools.validator.Worded)
    (h : ∀ d, Datum.load tools.formats files path = .ok d → ¬d.Unshown)
    (hpath : files.hasPath path = .ok isThere) :
    (∃ rules, Rules.load tools files path = .ok rules ∧
      (reportFile tools files path).ending = .result 0) ∨
    (∃ fault, Rules.load tools files path = .error fault ∧ fault.IsRefusal ∧
      (reportFile tools files path).ending = .result 1) ∨
    (∃ fault, Rules.load tools files path = .error fault ∧ ¬fault.IsRefusal ∧
      (reportFile tools files path).ending = .result 2) := by
  cases hd : Datum.load tools.formats files path with
  | error fault =>
      right
      right
      exact ⟨_, Rules.load_of_datum_error hd, not_false, reportFile_of_load_error hpath hd⟩
  | ok d =>
      rw [Rules.load_of_datum hd, reportFile_of_load hd]
      have hending := reportDatum_ending hdraft hworded (h d hd)
      by_cases hviolations : Schema.violations d = []
      · left
        rcases Rules.overlayDatum_of_violations_nil hdraft Rules.standard hviolations with
          ⟨es, -, hrules⟩
        exact ⟨_, hrules, hending.1 hviolations⟩
      · right
        left
        rcases Rules.overlayDatum_of_violations_ne_nil hdraft hworded Rules.standard (h d hd)
          hviolations with ⟨fault, hfault, hrefusal⟩
        exact ⟨fault, hfault, hrefusal, hending.2 hviolations⟩

/-- Rules are loaded from a mapping whose keys are all known. -/
theorem exists_known_keys {rules : Rules} (hdraft : tools.validator.Draft7)
    (h : Rules.load tools files path = .ok rules) :
    ∃ es, Datum.load tools.formats files path = .ok (.map es) ∧
      ∀ e ∈ es, ∃ f, Field.ofKey? e.1 = some f := by
  cases hd : Datum.load tools.formats files path with
  | error fault =>
      rw [Rules.load_of_datum_error hd] at h
      contradiction
  | ok d =>
      rw [Rules.load_of_datum hd] at h
      have hviolations := Rules.violations_of_overlayDatum_ok hdraft h
      rcases Rules.overlayDatum_of_violations_nil hdraft Rules.standard hviolations with
        ⟨es, rfl, -⟩
      exact ⟨es, rfl, Schema.exists_ofKey? hviolations⟩

/-- No unknown key is left for the rules to be looked up by. -/
theorem load_ne_unknownKey (hdraft : tools.validator.Draft7) (key : Datum) :
    Rules.load tools files path ≠ .error (.unknownKey key) := by
  intro h
  cases hd : Datum.load tools.formats files path with
  | error fault =>
      rw [Rules.load_of_datum_error hd] at h
      have hfault := Except.error.inj h
      contradiction
  | ok d =>
      rw [Rules.load_of_datum hd] at h
      rcases Rules.unreported_of_overlayDatum h rfl with
        ⟨es, rfl, ⟨v, vs, error, hv, hm⟩ | ⟨hv, -⟩⟩
      · simp [Rules.overlayDatum, hv, hm] at h
      · rcases Rules.overlayDatum_of_violations_nil hdraft Rules.standard
          (hdraft.violations_eq_nil_iff.mp hv) with ⟨es, -, hrules⟩
        rw [hrules] at h
        contradiction

/-- Let a validator obey the laws, and let messages show all integers in the value of a file, if
there is one.  The report of a path that cannot be looked at ends with that error, and the file at
the path is not read for rules either.  Any other report ends with a result: zero exactly if there
are rules, one exactly if the value is refused, and two exactly if the rules have any other fault.
No fault of rules is an unknown key that was let pass, and rules come from a mapping whose keys are
all known. -/
theorem run_result_iff {tools : Tools} {files : Files} {word : Text}
    (hdraft : tools.validator.Draft7) (hworded : tools.validator.Worded)
    (h : ∀ d, Datum.load tools.formats files (Path.ofText word) = .ok d → ¬d.Unshown) :
    (∀ fault, files.hasPath (Path.ofText word) = .error fault →
      run tools files [word] = .failing (.read (.file (Path.ofText word) fault)) ∧
      ∃ f, Rules.load tools files (Path.ofText word) = .error (.load (.read f))) ∧
    (∀ isThere, files.hasPath (Path.ofText word) = .ok isThere →
      (∃ code, code ≤ 2 ∧ (run tools files [word]).ending = .result code) ∧
      ((run tools files [word]).ending = .result 0 ↔
        ∃ rules, Rules.load tools files (Path.ofText word) = .ok rules) ∧
      ((run tools files [word]).ending = .result 1 ↔
        ∃ fault, Rules.load tools files (Path.ofText word) = .error fault ∧ fault.IsRefusal) ∧
      ((run tools files [word]).ending = .result 2 ↔
        ∃ fault, Rules.load tools files (Path.ofText word) = .error fault ∧
          ¬fault.IsRefusal)) ∧
    (∀ key, Rules.load tools files (Path.ofText word) ≠ .error (.unknownKey key)) ∧
    ∀ rules, Rules.load tools files (Path.ofText word) = .ok rules →
      ∃ es, Datum.load tools.formats files (Path.ofText word) = .ok (.map es) ∧
        ∀ e ∈ es, ∃ f, Field.ofKey? e.1 = some f := by
  have hrun : run tools files [word] = reportFile tools files (Path.ofText word) := rfl
  rw [hrun]
  refine ⟨fun fault hpath => ⟨by rw [reportFile, hpath], ?_⟩, fun isThere hpath => ?_,
    load_ne_unknownKey hdraft, fun rules hrules => exists_known_keys hdraft hrules⟩
  · rcases exists_load_error_of_hasPath_error tools hpath with ⟨f, hf⟩
    exact ⟨f, Rules.load_of_datum_error hf⟩
  · rcases reportFile_cases hdraft hworded h hpath with ⟨rules, hload, hending⟩ |
      ⟨fault, hload, hrefusal, hending⟩ | ⟨fault, hload, hrefusal, hending⟩
    · exact ⟨⟨0, by simp, hending⟩, by simp [hending, hload], by simp [hending, hload],
        by simp [hending, hload]⟩
    · exact ⟨⟨1, by simp, hending⟩, by simp [hending, hload],
        by simp [hending, hload, hrefusal], by simp [hending, hload, hrefusal]⟩
    · exact ⟨⟨2, by simp, hending⟩, by simp [hending, hload],
        by simp [hending, hload, hrefusal], by simp [hending, hload, hrefusal]⟩

/-- A rules file that holds a list is refused, and reported with a result of one. -/
theorem run_result_iff_list :
    Gate.rulesTools.validator.Draft7 ∧ Gate.rulesTools.validator.Worded ∧
    (∀ d, Datum.load Gate.rulesTools.formats (Files.ofText "[0]".toList) (Path.ofText "r".toList) =
      .ok d → ¬d.Unshown) ∧
    (Files.ofText "[0]".toList).hasPath (Path.ofText "r".toList) = .ok true ∧
    (run Gate.rulesTools (Files.ofText "[0]".toList) ["r".toList]).ending = .result 1 := by
  have hdraft := Validator.standard_draft7
  have hworded := Validator.standard_legible.worded
  have htext : (Files.ofText "[0]".toList).text (Path.ofText "r".toList) = .ok "[0]".toList :=
    Files.text_ofText (by decide) (Text.plain_of_all (by cbv))
  have hload : Datum.load Gate.rulesTools.formats (Files.ofText "[0]".toList)
      (Path.ofText "r".toList) = .ok (.list [.number (.int 0)]) :=
    Rules.datum_load_of_json htext rfl
  have hshow : (Datum.list [.number (.int 0)]).shown = .ok "[0]".toList := by cbv
  have hall : ∀ d, Datum.load Gate.rulesTools.formats (Files.ofText "[0]".toList)
      (Path.ofText "r".toList) = .ok d → ¬d.Unshown := by
    intro d hd
    rcases Except.ok.inj (hload.symm.trans hd) with rfl
    exact (Datum.shown_refusedIff _).not_of_ok hshow
  have hrules : ∃ fault, Rules.load Gate.rulesTools (Files.ofText "[0]".toList)
      (Path.ofText "r".toList) = .error fault ∧ fault.IsRefusal :=
    ⟨_, Rules.load_of_datum hload, trivial⟩
  have hpath := Files.hasPath_of_text htext
  exact ⟨hdraft, hworded, hall, hpath,
    ((run_result_iff hdraft hworded hall).2.1 true hpath).2.2.1.mpr hrules⟩

/-- A name that is longer than the names of files. -/
def longName : Text :=
  List.replicate 300 'a'

/-- The report of a path with a long name ends without a result, though no value is loaded from the
path that messages could not show. -/
theorem run_longName :
    Gate.rulesTools.validator.Draft7 ∧ Gate.rulesTools.validator.Worded ∧
    (∀ d, Datum.load Gate.rulesTools.formats FileTree.empty.files (Path.ofText longName) = .ok d →
      ¬d.Unshown) ∧
    (∃ f, Rules.load Gate.rulesTools FileTree.empty.files (Path.ofText longName) =
      .error (.load (.read f))) ∧
    run Gate.rulesTools FileTree.empty.files [longName] =
      .failing (.read (.file (Path.ofText longName) .nameTooLong)) := by
  have hnames : (Path.ofText longName).names = [longName] := by decide +kernel
  have hpath : FileTree.empty.files.hasPath (Path.ofText longName) = .error .nameTooLong :=
    FileTree.hasPath_of_long_name (by decide +kernel) (by decide +kernel) hnames (by decide +kernel)
  rcases exists_load_error_of_hasPath_error Gate.rulesTools hpath with ⟨f, hload⟩
  refine ⟨Validator.standard_draft7, Validator.standard_legible.worded, ?_,
    ⟨f, Rules.load_of_datum_error hload⟩, ?_⟩
  · intro d hd
    simp [hload] at hd
  · rw [run, reportFile, hpath]

end Lint

end DeployGate
