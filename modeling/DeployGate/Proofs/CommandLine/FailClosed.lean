import DeployGate.Proofs.CommandLine.Ending
import DeployGate.Proofs.Ocl.Concatenation
import DeployGate.Proofs.Text.Ascii

/-!
# The gate fails closed

A run of the gate lets a change through in one case only: there is a directory, there are rules
that hold, and the file in the directory is read, is a document, and passes all checks under
these rules.  Every other run with a result ends with one.  Without rules the deployment process
file is not even looked at.

Main results:

- Definition `Gate.LetsThrough`: what a run needs to let a change through.
- Theorem `Gate.checkFile_result_true_iff`: when a file is found good.
- Theorem `Gate.runArguments_congr_of_not_chosen`: a run without rules reads nothing but the
  rules file.
- Theorem `Gate.run_fails_closed`: all that a run can end with.
-/

namespace DeployGate

/-! ## Rules files -/

/-- The text of a path depends on no other path. -/
theorem Files.text_congr {files files' : Files} {path : Path}
    (h : files'.read path = files.read path) : files'.text path = files.text path := by
  rw [text, text, bytes, bytes, h]

/-- The rules of a file depend on no other file. -/
theorem Rules.load_congr {tools : Tools} {files files' : Files} {path : Path}
    (h : files'.read path = files.read path) :
    Rules.load tools files' path = Rules.load tools files path := by
  rw [load, load, loadOver, loadOver, Datum.load, Datum.load, Files.text_congr h]

namespace Gate

variable {tools : Tools} {files files' : Files} {path : Path} {rules : Rules} {a : Arguments}

/-! ## One file -/

/-- A document is found good exactly if it passes every check. -/
theorem checkDocument_result_true_iff {d : Ocl.Document} :
    (checkDocument d rules).ending = .result true ↔
      ∀ c ∈ Check.all, c.passes rules d.steps = true := by
  rw [← Check.firstFailure?_eq_none_iff, checkDocument, Ocl.Document.check]
  cases hfirst : Check.firstFailure? rules d.steps with
  | none => simp [Run.saying]
  | some c =>
      cases hmessage : c.message rules d.steps <;>
        simp [hmessage, Except.map, Run.saying, Run.failing]

/-- A file is found good exactly if it is read, is a document, and passes every check. -/
theorem checkFile_result_true_iff :
    (checkFile files path rules).ending = .result true ↔
      ∃ t d, files.text path = .ok t ∧ Ocl.Document.read t = .ok d ∧
        ∀ c ∈ Check.all, c.passes rules d.steps = true := by
  rw [checkFile]
  cases ht : files.text path with
  | error fault => cases fault <;> simp [Run.warning, Run.failing]
  | ok t =>
      simp only [checkText]
      cases hd : Ocl.Document.read t with
      | error e => simp [Run.warning, hd]
      | ok d => simp [hd, checkDocument_result_true_iff]

/-- A file that is found good is reported with one line and nothing else. -/
theorem checkFile_of_result_true (h : (checkFile files path rules).ending = .result true) :
    checkFile files path rules = .saying true Verdict.allPassed := by
  rcases checkFile_result_true_iff.mp h with ⟨t, d, ht, hd, hall⟩
  simp [checkFile, ht, checkText, hd, checkDocument, Ocl.Document.check,
    Check.firstFailure?_eq_none_iff.mpr hall]

/-! ## Whole runs -/

/-- A run has all it needs to let a change through: a directory, the standard rules or those of
the rules file, and in the directory a file that is read, is a document, and passes every check
under these rules. -/
inductive LetsThrough (tools : Tools) (files : Files) (a : Arguments) : Prop
  | mk {directory file t : Text} {rules : Rules} {d : Ocl.Document}
      (hdir : a.directory = some directory) (hrules : Chosen tools files a.rules rules)
      (hfile : a.file = .given file)
      (ht : files.text ((Path.ofText directory).join (Path.ofText file)) = .ok t)
      (hd : Ocl.Document.read t = .ok d)
      (hall : ∀ c ∈ Check.all, c.passes rules d.steps = true)

/-- A run with all it needs says so in one line and ends with zero. -/
theorem runArguments_of_letsThrough (h : LetsThrough tools files a) :
    runArguments tools files a = .saying 0 Verdict.allPassed := by
  cases h with
  | mk hdir hrules hfile ht hd hall =>
      have hgood := checkFile_of_result_true
        (checkFile_result_true_iff.mpr ⟨_, _, ht, hd, hall⟩)
      simp only [runArguments, hdir, chooseRules_eq_ok_iff.mpr hrules, hfile, hgood]
      rfl

/-- A run that ends with zero has all it needs. -/
theorem letsThrough_of_result_zero (h : (runArguments tools files a).ending = .result 0) :
    LetsThrough tools files a := by
  unfold runArguments at h
  split at h
  · have hone := Ending.result.inj h
    contradiction
  · next directory hdir =>
    split at h
    · next r hchoose =>
      have hone := result_of_chooseRules_error hchoose h
      contradiction
    · next rules hchoose =>
      split at h
      · contradiction
      · next file hfile =>
        rcases Run.exists_of_map_result h with ⟨passed, hending, hzero⟩
        have hpassed : passed = true := by
          cases passed with
          | true => rfl
          | false => contradiction
        subst hpassed
        rcases checkFile_result_true_iff.mp hending with ⟨t, d, ht, hd, hall⟩
        exact .mk hdir (chooseRules_eq_ok_iff.mp hchoose) hfile ht hd hall

/-! ## Runs without rules -/

/-- A run that ends because there are no rules writes nothing to the first output. -/
theorem out_of_chooseRules_error {setting : Option Setting} {r : Run Nat Fault}
    (h : chooseRules tools files setting = .error r) : r.out = [] := by
  rcases chooseRules_error_cases h with ⟨m, rfl⟩ | ⟨f, rfl⟩ <;> rfl

/-- The rules of a run depend on the rules file alone. -/
theorem chooseRules_congr {setting : Option Setting}
    (h : ∀ t, setting = some (.given t) →
      files'.read (Path.ofText t) = files.read (Path.ofText t)) :
    chooseRules tools files' setting = chooseRules tools files setting := by
  cases setting with
  | none => rfl
  | some setting =>
      cases setting with
      | dropped => rfl
      | given t => rw [chooseRules, chooseRules, Rules.load_congr (h t rfl)]

/-- A run with a directory and without rules writes nothing to the first output, and does the
same where the rules file is the same. -/
theorem runArguments_congr_of_not_chosen {directory : Text}
    (hdir : a.directory = some directory) (hnone : ∀ rules, ¬Chosen tools files a.rules rules)
    (h : ∀ t, a.rules = some (.given t) →
      files'.read (Path.ofText t) = files.read (Path.ofText t)) :
    (runArguments tools files a).out = [] ∧
      runArguments tools files' a = runArguments tools files a := by
  cases hchoose : chooseRules tools files a.rules with
  | ok rules => exact absurd (chooseRules_eq_ok_iff.mp hchoose) (hnone rules)
  | error r =>
      have hsame := (chooseRules_congr h).trans hchoose
      simp only [runArguments, hdir, hchoose, hsame]
      exact ⟨out_of_chooseRules_error hchoose, trivial⟩

/-- The gate fails closed.  Whatever the tools, the files and the command line, a run with a result
ends with zero exactly if it has all it needs to let a change through, and with one otherwise.  With
all it needs it writes one line and nothing else.  With a directory and without rules it writes
nothing to the first output, and it is the same run for all files that have the same rules
file, whatever the deployment process file holds. -/
theorem run_fails_closed {tools : Tools} {files : Files} {words : List Text} {a : Arguments}
    (hread : Arguments.read words = .run a) :
    (∀ code, (run tools files words).ending = .result code →
      (code = 0 ↔ LetsThrough tools files a) ∧ (¬LetsThrough tools files a → code = 1)) ∧
    (LetsThrough tools files a →
      run tools files words = ⟨.result 0, "All tests passed!\n".toList, []⟩) ∧
    (∀ directory, a.directory = some directory → (∀ rules, ¬Chosen tools files a.rules rules) →
      (run tools files words).out = [] ∧
      ∀ files' : Files, (∀ t, a.rules = some (.given t) →
          files'.read (Path.ofText t) = files.read (Path.ofText t)) →
        run tools files' words = run tools files words) := by
  have hrun : ∀ files, run tools files words = runArguments tools files a := by
    intro files
    rw [run, hread]
  simp only [hrun]
  refine ⟨?_, ?_, ?_⟩
  · intro code hcode
    constructor
    · constructor
      · rintro rfl
        exact letsThrough_of_result_zero hcode
      · intro h
        rw [runArguments_of_letsThrough h] at hcode
        exact (Ending.result.inj hcode).symm
    · intro hno
      rcases result_eq_zero_or_one hcode with rfl | rfl
      · exact absurd (letsThrough_of_result_zero hcode) hno
      · rfl
  · intro h
    rw [runArguments_of_letsThrough h]
    rfl
  · intro directory hdir hnone
    refine ⟨?_, fun files' hsame => ?_⟩
    · exact (runArguments_congr_of_not_chosen hdir hnone fun _ _ => rfl).1
    · exact (runArguments_congr_of_not_chosen hdir hnone hsame).2

/-- A step with a name and an action of the standard type. -/
def stepText (name : String) : Text :=
  ("a\x7bname=\"" ++ name ++ "\"\naction\x7baction_type=\"Octopus.Script\"\x7d\x7d").toList

/-- What that step is read as. -/
def stepNode (name : String) : Ocl.Node :=
  .block ⟨['a'], [], [.attribute ⟨"name".toList, .literal .string ('"' :: name.toList ++ ['"']), 1⟩,
    .block ⟨"action".toList, [], [.attribute ⟨"action_type".toList,
      .literal .string "\"Octopus.Script\"".toList, 2⟩], 2⟩], 1⟩

/-- A document of three steps that keep the standard rules. -/
def standardText : Text :=
  stepText "Generate GitHub Token" ++ '\n' :: (stepText "Check for Updates" ++
    '\n' :: stepText "Vulnerability Scan")

/-- A directory with that document and a rules file that holds a list. -/
def standardTree : FileTree :=
  .directory [(Arguments.standardFile, .file (Utf8.ascii standardText)),
    ("r".toList, .file (Utf8.ascii "[0]".toList))]

/-- All of that document is plain. -/
theorem plain_of_mem_standardText : ∀ c ∈ standardText, c.toNat < 128 ∧ c ≠ '\r' := by
  have hplain : (standardText.all fun c => c.toNat < 128 && c != '\r') = true := by
    rw [standardText, List.all_append, List.all_cons, List.all_append, List.all_cons]
    cbv
  simpa using hplain

/-- What that document is read as. -/
theorem read_standardText : ∃ d, Ocl.Document.read standardText = .ok d ∧
    ∀ c ∈ Check.all, c.passes Rules.standard d.steps = true := by
  have hfirst : Ocl.Document.read (stepText "Generate GitHub Token") =
      .ok [stepNode "Generate GitHub Token"] := by cbv
  have hsecond : Ocl.Document.read (stepText "Check for Updates") =
      .ok [stepNode "Check for Updates"] := by cbv
  have hlast : Ocl.Document.read (stepText "Vulnerability Scan") =
      .ok [stepNode "Vulnerability Scan"] := by cbv
  have hread := Ocl.read_append_eq hfirst (stepText "Check for Updates" ++
    '\n' :: stepText "Vulnerability Scan")
  rw [Ocl.read_append_eq hsecond, hlast] at hread
  exact ⟨_, hread, by decide⟩

/-- A directory with that document is let through.  With the list for rules it is not, whatever it
holds. -/
theorem run_fails_closed_standard :
    (Arguments.read [['.']] = .run ⟨some ['.'], .given Arguments.standardFile, none⟩ ∧
      run rulesTools standardTree.files [['.']] =
        ⟨.result 0, "All tests passed!\n".toList, []⟩) ∧
    Arguments.read ["-rr".toList, ['.']] =
      .run ⟨some ['.'], .given Arguments.standardFile, some (.given ['r'])⟩ ∧
    (run rulesTools standardTree.files ["-rr".toList, ['.']]).out = [] ∧
    ∀ files' : Files,
      files'.read (Path.ofText ['r']) = standardTree.files.read (Path.ofText ['r']) →
      run rulesTools files' ["-rr".toList, ['.']] =
        run rulesTools standardTree.files ["-rr".toList, ['.']] := by
  have hread : Arguments.read [['.']] =
      .run ⟨some ['.'], .given Arguments.standardFile, none⟩ := by decide
  have hrules : Arguments.read ["-rr".toList, ['.']] =
      .run ⟨some ['.'], .given Arguments.standardFile, some (.given ['r'])⟩ := by decide
  have hfile : standardTree.files.read
      ((Path.ofText ['.']).join (Path.ofText Arguments.standardFile)) =
      .ok (Utf8.ascii standardText) := by rfl
  have htext := Files.text_of_ascii (by decide) hfile plain_of_mem_standardText
  have hlist : standardTree.files.text (Path.ofText ['r']) = .ok "[0]".toList :=
    Files.text_of_ascii (by decide) rfl (Text.plain_of_all (by cbv))
  have hdatum : Datum.load rulesTools.formats standardTree.files (Path.ofText ['r']) =
      .ok (.list [.number (.int 0)]) := Rules.datum_load_of_json hlist rfl
  have hload : Rules.load rulesTools standardTree.files (Path.ofText ['r']) =
      .error (.notMapping (.list [.number (.int 0)])) := Rules.load_of_datum hdatum
  have hnone := not_chosen_of_load_error hload
  rcases read_standardText with ⟨d, hd, hall⟩
  rcases (run_fails_closed hrules).2.2 ['.'] rfl hnone with ⟨hout, hsame⟩
  refine ⟨⟨hread, (run_fails_closed hread).2.1 (.mk rfl .standard rfl htext hd hall)⟩, hrules,
    hout, fun files' h => hsame files' ?_⟩
  intro t ht
  rcases Option.some.inj ht with ⟨⟩
  exact h

end Gate

end DeployGate
