import DeployGate.Proofs.Process.Verdict
import DeployGate.Proofs.RulesFile.Overlay
import DeployGate.Proofs.Text.Printable

/-!
# The form of the least number of steps

A rules file may write the least number of steps as a double, since a double that equals an integer
is as good as that integer for the form of the file.  The rules keep what is written, so the number
is an integer behind the file exactly if it is not written as a double, and only then the message
about the number of steps shows it as an integer.

Main results:

- Theorem `Binary64.marked_toText`: a double is shown with a point, an exponent or a word, so it is
  never what an integer in front of a space is.
- Definition `Rules.ShowsPlainCount`: the message about the number of steps shows an integer.
- Theorem `Rules.overlayDatum_count_form`: what form the least number of steps has behind a file.
-/

namespace DeployGate

/-! ## Shown doubles -/

namespace Text

/-- A character that integers are shown with: a digit or a minus sign. -/
def isPlain (c : Char) : Bool :=
  c.isDigit || c == '-'

/-- Digits are plain. -/
theorem isPlain_of_mem_ofNat {n : Nat} {c : Char} (h : c ∈ ofNat n) : isPlain c = true := by
  have hdigit : c.isDigit = true := Nat.isDigit_of_mem_toDigits (by decide) (by decide) h
  rw [isPlain, hdigit, Bool.true_or]

/-- An integer is shown in plain characters. -/
theorem isPlain_of_mem_ofInt {k : Int} {c : Char} (h : c ∈ ofInt k) : isPlain c = true := by
  cases k with
  | ofNat n => exact isPlain_of_mem_ofNat h
  | negSucc n =>
      rcases List.mem_cons.mp h with rfl | h
      · rfl
      · exact isPlain_of_mem_ofNat h

/-- A run of zeros is plain. -/
theorem isPlain_of_mem_zeros {n : Nat} {c : Char} (h : c ∈ List.replicate n '0') :
    isPlain c = true := by
  rw [List.eq_of_mem_replicate h]
  rfl

/-- The plain characters in front of a text are followed by something else than a space. -/
def Marked (t : Text) : Prop :=
  ∃ u c v, t = u ++ c :: v ∧ (∀ d ∈ u, isPlain d = true) ∧ isPlain c = false ∧ c ≠ ' '

/-- Plain characters in front leave a text marked. -/
theorem Marked.append_left {u t : Text} (hu : ∀ d ∈ u, isPlain d = true) (ht : t.Marked) :
    (u ++ t).Marked := by
  rcases ht with ⟨w, c, v, rfl, hw, hc, hne⟩
  refine ⟨u ++ w, c, v, by simp, ?_, hc, hne⟩
  intro d hd
  rcases List.mem_append.mp hd with hd | hd
  · exact hu d hd
  · exact hw d hd

/-- A plain character in front leaves a text marked. -/
theorem Marked.cons {c : Char} {t : Text} (hc : isPlain c = true) (ht : t.Marked) :
    Marked (c :: t) := by
  have hfirst : ∀ d ∈ [c], isPlain d = true := by
    intro d hd
    rwa [List.mem_singleton.mp hd]
  exact ht.append_left hfirst

/-- A text that starts with a character that is neither plain nor a space is marked. -/
theorem marked_cons {c : Char} (hc : isPlain c = false) (hne : c ≠ ' ') (t : Text) :
    Marked (c :: t) :=
  ⟨[], c, t, rfl, by simp, hc, hne⟩

/-- A marked text is no integer in front of a space, whatever is behind it. -/
theorem Marked.append_ne {t : Text} (ht : t.Marked) (k : Int) (s s' : Text) :
    t ++ s ≠ ofInt k ++ ' ' :: s' := by
  rcases ht with ⟨u, c, v, rfl, hu, hc, hne⟩
  intro hsame
  have hleft : ((u ++ c :: v) ++ s).dropWhile isPlain = c :: (v ++ s) := by
    rw [List.append_assoc, List.dropWhile_append_of_pos hu, List.cons_append,
      List.dropWhile_cons_of_neg (by simp [hc])]
  have hspace : isPlain ' ' = false := rfl
  have hright : (ofInt k ++ ' ' :: s').dropWhile isPlain = ' ' :: s' := by
    rw [List.dropWhile_append_of_pos fun _ => isPlain_of_mem_ofInt,
      List.dropWhile_cons_of_neg (by simp [hspace])]
  rw [hsame, hright] at hleft
  exact hne (List.cons.inj hleft).1.symm

end Text

namespace Binary64

open Text

/-- The digits of a decimal without the zeros at their end are plain. -/
theorem isPlain_of_mem_normalized {d : Decimal} {c : Char} (h : c ∈ d.normalized.1) :
    isPlain c = true :=
  isPlain_of_mem_ofNat (trimEnd_subset _ _ h)

/-- A decimal has a point or an exponent however it is laid out. -/
theorem marked_write (layout : Layout) (d : Decimal) : (layout.write d).Marked := by
  have hdigits : ∀ c ∈ d.normalized.1, isPlain c = true := fun _ => isPlain_of_mem_normalized
  have hpoint : ∀ t : Text, Marked ('.' :: t) := marked_cons rfl (by decide)
  have hexponent : ∀ t : Text, Marked ('e' :: t) := marked_cons rfl (by decide)
  simp only [Layout.write]
  generalize d.normalized.1 = digits at hdigits ⊢
  generalize d.normalized.2 = order
  split
  · have hmark : ∀ t : Text, Marked ((if order < 0 then ['e', '-'] else ['e', '+']) ++ t) := by
      intro t
      split <;> exact hexponent _
    rcases digits with - | ⟨c, - | ⟨c', digits⟩⟩
    · exact hmark _
    · exact (hmark _).cons (hdigits c List.mem_cons_self)
    · exact (hpoint _).cons (hdigits c List.mem_cons_self)
  · cases order with
    | ofNat k =>
        have hwhole : ∀ c ∈ digits.take (k + 1), isPlain c = true :=
          fun c hc => hdigits c (List.mem_of_mem_take hc)
        dsimp only
        rw [List.append_assoc]
        exact ((hpoint _).append_left fun _ => isPlain_of_mem_zeros).append_left hwhole
    | negSucc k => exact (hpoint _).cons rfl

/-- A sign in front leaves a text marked. -/
theorem marked_sign (negative : Bool) {t : Text} (ht : t.Marked) :
    Marked ((if negative then ['-'] else []) ++ t) := by
  cases negative with
  | false => exact ht
  | true => exact ht.cons rfl

/-- A double is shown with a point, an exponent or a word. -/
theorem marked_toText (x : Binary64) : x.toText.Marked := by
  cases x with
  | nan => exact marked_cons rfl (by decide) _
  | infinite negative => exact marked_sign negative (marked_cons rfl (by decide) _)
  | finite negative m e =>
      rcases exists_ratio? negative m e with ⟨n, d, hratio, -, -⟩
      have hzero : Marked "0.0".toList := (marked_cons rfl (by decide) _).cons rfl
      simp only [toText, hratio]
      split
      · exact marked_sign negative hzero
      · exact marked_sign negative (marked_write _ _)

end Binary64

/-! ## The message about the number of steps -/

namespace Rules

variable {r : Rules} {k : Int}

/-- Wherever there are too few steps, the message says the least number as a plain integer. -/
def ShowsPlainCount (r : Rules) : Prop :=
  ∀ d : Ocl.Document, Check.stepCount.passes r d.steps = false →
    ∃ k : Int, r.minSteps.toInt? = some k ∧
      Check.stepCount.message r d.steps =
        .ok (Check.stepCount.wording (Text.ofInt k) (Text.ofInt d.steps.length))

/-- What the message about the number of steps is worded like. -/
theorem wording_stepCount (expected actual : Text) : Check.stepCount.wording expected actual =
    "The deployment process must have at least ".toList ++
      (expected ++ ' ' :: ("steps (was ".toList ++ actual ++ [')'])) := by
  have hspace : " steps (was ".toList = ' ' :: "steps (was ".toList := by decide
  have hwording : Check.stepCount.wording expected actual =
      "The deployment process must have at least ".toList ++ expected ++ " steps (was ".toList ++
        actual ++ [')'] := rfl
  rw [hwording, hspace]
  simp only [List.append_assoc, List.cons_append]

/-- What the message about the number of steps is, if the number of steps is shown. -/
theorem message_stepCount {steps : List Step} {actual : Text}
    (hactual : (Check.stepCount.actual steps).toText = .ok actual) :
    Check.stepCount.message r steps =
      r.minSteps.toText.map fun expected => Check.stepCount.wording expected actual := by
  rw [Check.message, hactual]
  cases hcount : r.minSteps.toText <;> simp [Check.expected, Fact.toText, hcount] <;> rfl

/-- No message shows an integer as the least number of steps if that is a double. -/
theorem message_ne_of_double {x : Binary64} (hx : r.minSteps = .double x) (steps : List Step)
    (k : Int) (t : Text) :
    Check.stepCount.message r steps ≠ .ok (Check.stepCount.wording (Text.ofInt k) t) := by
  intro hmessage
  cases hactual : (Check.stepCount.actual steps).toText with
  | error fault =>
      rw [Check.message, hactual] at hmessage
      contradiction
  | ok actual =>
      rw [message_stepCount hactual, hx] at hmessage
      have hwording : Check.stepCount.wording x.toText actual =
          Check.stepCount.wording (Text.ofInt k) t := Except.ok.inj hmessage
      rw [wording_stepCount, wording_stepCount, List.append_cancel_left_eq] at hwording
      exact x.marked_toText.append_ne k _ _ hwording

/-- A process without steps has too few if at least one is wanted. -/
theorem passes_nil (hcount : r.minSteps.toInt? = some k) (hpos : 0 < k) :
    Check.stepCount.passes r (Ocl.Document.steps []) = false := by
  rw [← Bool.not_eq_true]
  intro hpasses
  have hle := (Number.leInt_iff_of_toInt? hcount).mp hpasses
  exact absurd hle (Int.not_le.mpr hpos)

/-- An integer is shown as the least number of steps unless it is above zero and has too many
digits. -/
theorem showsPlainCount_iff_of_int (hcount : r.minSteps = .int k) :
    r.ShowsPlainCount ↔ (0 < k → ¬(Number.int k).Unshown) := by
  have hvalue : r.minSteps.toInt? = some k := by rw [hcount]; rfl
  constructor
  · intro h hpos
    rcases h [] (passes_nil hvalue hpos) with ⟨j, -, hmessage⟩
    have hnone : (Check.stepCount.actual (Ocl.Document.steps [])).toText = .ok (Text.ofInt 0) := rfl
    rw [message_stepCount hnone, hcount] at hmessage
    cases htext : (Number.int k).toText with
    | error fault =>
        rw [htext] at hmessage
        contradiction
    | ok t => exact (Number.toText_refusedIff (.int k)).not_of_ok htext
  · intro hshown d hfails
    have hfew : ¬Check.stepCount.Met r k d.steps := by
      rw [← Check.passes_iff_met hcount, hfails]
      exact Bool.false_ne_true
    have hpos : 0 < k := by
      have hlt := Int.not_le.mp hfew
      omega
    have hdigits : (Text.ofNat k.natAbs).length ≤ digitLimit := Nat.not_lt.mp (hshown hpos)
    rcases Check.exists_message_says hcount hdigits hfew with ⟨message, hmessage, hsays⟩
    cases hsays
    exact ⟨k, hvalue, hmessage⟩

/-- A double that equals an integer above zero is never shown as that integer. -/
theorem not_showsPlainCount_of_double {x : Binary64} (hx : r.minSteps = .double x)
    (hcount : r.minSteps.toInt? = some k) (hpos : 0 < k) : ¬r.ShowsPlainCount := by
  intro h
  rcases h [] (passes_nil hcount hpos) with ⟨j, -, hmessage⟩
  exact message_ne_of_double hx _ j _ hmessage

/-! ## The number behind a file -/

variable {base : Rules} {es : Datum.Entries}

/-- Behind a file without violations the least number of steps is what the file says, an integer
of at least one by its value, or it is as it was. -/
theorem minSteps_overlay (base : Rules) (hes : Schema.violations (.map es) = []) :
    (Datum.lookup? (.text Field.minSteps.key) es = none ∧
      (base.overlay es).minSteps = base.minSteps) ∨
    (Datum.lookup? (.text Field.minSteps.key) es = some (.number (base.overlay es).minSteps) ∧
      ∃ k, (base.overlay es).minSteps.toInt? = some k ∧ 1 ≤ k) := by
  have hvalues := (Schema.violations_map_eq_nil_iff.mp hes).2
  have hget : Datum.number (base.overlay es).minSteps =
      (Datum.lookup? (.text Field.minSteps.key) es).getD (.number base.minSteps) :=
    get_overlay (r := base) (f := .minSteps) hvalues
  cases hlookup : Datum.lookup? (.text Field.minSteps.key) es with
  | none =>
      rw [hlookup] at hget
      exact .inl ⟨rfl, Datum.number.inj hget⟩
  | some d =>
      have hproblems := hvalues .minSteps d hlookup
      rw [hlookup, Option.getD_some] at hget
      subst hget
      exact .inr ⟨rfl, exists_of_countProblems hproblems⟩

/-- Let a validator obey the laws.  A file without violations is laid over rules.  If the least
number of steps was an integer, it is one behind the file exactly if the file does not write it as a
double, and then messages show it as an integer unless it has too many digits.  A double is never
shown as an integer. -/
theorem overlayDatum_count_form {V : Validator} (hV : V.Draft7) {n : Int}
    (hbase : base.minSteps = .int n) (hes : Schema.violations (.map es) = []) :
    ∃ rules, base.overlayDatum V (.map es) = .ok rules ∧
      ((∃ k, rules.minSteps = .int k) ↔
        ∀ x, Datum.lookup? (.text Field.minSteps.key) es ≠ some (.number (.double x))) ∧
      (rules.ShowsPlainCount ↔
        ∃ k, rules.minSteps = .int k ∧ (0 < k → ¬(Number.int k).Unshown)) ∧
      ∀ x, rules.minSteps = .double x → ∀ (steps : List Step) (k : Int) (t : Text),
        Check.stepCount.message rules steps ≠
          .ok (Check.stepCount.wording (Text.ofInt k) t) := by
  have hrules : base.overlayDatum V (.map es) = .ok (base.overlay es) := by
    rcases overlayDatum_of_violations_nil hV base hes with ⟨es', hmap, hrules⟩
    rcases Datum.map.inj hmap with rfl
    exact hrules
  refine ⟨base.overlay es, hrules, ?_, ?_, fun x hx => message_ne_of_double hx⟩
  · rcases minSteps_overlay base hes with ⟨hnone, hsame⟩ | ⟨hsome, -⟩
    · rw [hnone, hsame, hbase]
      simp
    · rw [hsome]
      cases (base.overlay es).minSteps <;> simp
  · cases hcount : (base.overlay es).minSteps with
    | int k => simp [showsPlainCount_iff_of_int hcount]
    | double x =>
        rcases minSteps_overlay base hes with ⟨-, hsame⟩ | ⟨-, k, hvalue, hle⟩
        · rw [hsame, hbase] at hcount
          contradiction
        · simp [not_showsPlainCount_of_double hcount hvalue (by omega)]

/-- Five as a double. -/
def five : Binary64 :=
  .finite false (5 * Nat.pow 2 50) (-50)

/-- A rules file that wants five steps and writes that as a double. -/
def fiveSteps : Datum.Entries :=
  [(.text Field.minSteps.key, .number (.double five))]

/-- Behind a file that writes five as a double no message shows an integer. -/
theorem overlayDatum_count_form_fiveSteps :
    Validator.standard.Draft7 ∧ standard.minSteps = .int 3 ∧
    Schema.violations (.map fiveSteps) = [] ∧
    ∃ rules, standard.overlayDatum .standard (.map fiveSteps) = .ok rules ∧
      (¬∃ k, rules.minSteps = .int k) ∧ ¬rules.ShowsPlainCount := by
  have hV := Validator.standard_draft7
  have hbase : standard.minSteps = .int 3 := rfl
  have hes : Schema.violations (.map fiveSteps) = [] := rfl
  rcases overlayDatum_count_form hV hbase hes with ⟨rules, hrules, hint, hplain, -⟩
  have hdouble : ¬∃ k, rules.minSteps = .int k := fun h => hint.mp h five rfl
  refine ⟨hV, hbase, hes, rules, hrules, hdouble, fun h => ?_⟩
  rcases hplain.mp h with ⟨k, hk, -⟩
  exact hdouble ⟨k, hk⟩

/-- The standard rules want an integer, and behind a file without violations the rules want a
double, which the message shows with a point. -/
theorem overlayDatum_fiveSteps :
    standard.minSteps = .int 3 ∧ Schema.violations (.map fiveSteps) = [] ∧
      standard.overlayDatum .standard (.map fiveSteps) =
        .ok { standard with minSteps := .double five } ∧
      Check.stepCount.message { standard with minSteps := .double five } [] =
        .ok "The deployment process must have at least 5.0 steps (was 0)".toList :=
  ⟨rfl, rfl, rfl, rfl⟩

end Rules

end DeployGate
