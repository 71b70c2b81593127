import DeployGate.Proofs.RulesFile.PathOrder
import DeployGate.Proofs.RulesFile.Shown
import DeployGate.Proofs.RulesFile.Unshown
import DeployGate.RulesFile.Load

/-!
# The laws of validators

What is asked of a validator: that it finds what is wrong with a value, as the schema of rules
files says in the seventh draft of its language; that it does so once for each thing, in the order
of the schema; and that it has messages, each on one line, that name unknown keys.  The validator of
this library obeys these laws, and laying values over rules is the same with all validators that
obey the first of them.

Main results:

- Definitions `Validator.Draft7`, `Validator.FieldByField`, `Validator.Worded` and
  `Validator.Legible`: the laws.
- Theorem `Problem.namesKeys_of_message`: the message about unknown keys names all of them in the
  order of their words.
- Theorems `Validator.standard_draft7`, `Validator.standard_fieldByField` and
  `Validator.standard_legible`: the validator of this library obeys the laws.
- Theorem `Rules.overlayDatum_of_violations_nil`: a value without violations is laid over rules.
-/

namespace DeployGate

/-- Where every item of a list has a result, the list has these results. -/
theorem mapM_eq_ok_map {α β ε : Type} {f : α → Except ε β} {g : α → β} {as : List α}
    (h : ∀ a ∈ as, f a = .ok (g a)) : as.mapM f = .ok (as.map g) := by
  induction as with
  | nil => rfl
  | cons a as ih =>
      rw [List.mapM_cons, h a List.mem_cons_self, ih fun b hb => h b (List.mem_cons_of_mem a hb)]
      rfl

/-! ## Unknown keys -/

/-- The plain word of a value is at most that of another one. -/
def Datum.WordLE (k l : Datum) : Prop :=
  ∃ s t, k.plain = .ok s ∧ l.plain = .ok t ∧ s ≤ t

namespace Problem

/-- A message names keys: somewhere in it stands each of them as messages show it, in the order of
their words. -/
def NamesKeys (ks : List Datum) (message : Text) : Prop :=
  ∃ (ls : List Datum) (forms : List Text) (before behind : Text), ls.Perm ks ∧
    ls.Pairwise Datum.WordLE ∧ ls.mapM Datum.shown = .ok forms ∧
    message = before ++ Text.joinWith ", ".toList forms ++ behind

/-- Keys are listed by their words, and by their forms where the words are the same. -/
theorem listedBefore_iff {k l : Text × Text} :
    listedBefore k l = true ↔ toLex k ≤ toLex l := by
  rw [listedBefore, Prod.Lex.le_iff]
  split
  · next h => simp [h, Text.atMost_iff]
  · next h => simp [h, Text.atMost_iff, le_iff_lt_or_eq]

/-- The order of a list of keys is transitive. -/
theorem listedBefore_trans {j k l : Text × Text} (hjk : listedBefore j k = true)
    (hkl : listedBefore k l = true) : listedBefore j l = true := by
  rw [listedBefore_iff] at *
  exact hjk.trans hkl

/-- Any two keys are in order one way or the other. -/
theorem listedBefore_total (k l : Text × Text) : (listedBefore k l || listedBefore l k) = true := by
  rw [Bool.or_eq_true, listedBefore_iff, listedBefore_iff]
  exact le_total _ _

section Listing

variable {ks : List Datum} {word form : Datum → Text}

/-- Keys with known words and forms are listed by them. -/
theorem shownKeys_eq (hword : ∀ k ∈ ks, k.plain = .ok (word k))
    (hform : ∀ k ∈ ks, k.shown = .ok (form k)) :
    shownKeys ks =
      .ok ((ks.mergeSort fun k l => listedBefore (word k, form k) (word l, form l)).map form) := by
  have hpairs : (ks.mapM fun k => do
      let word ← k.plain
      let form ← k.shown
      pure (word, form)) = .ok (ks.map fun k => (word k, form k)) := by
    refine mapM_eq_ok_map fun k hk => ?_
    rw [hword k hk, hform k hk]
    rfl
  have hsorted := List.map_mergeSort (f := fun k => (word k, form k)) (s := listedBefore)
    (r := fun k l => listedBefore (word k, form k) (word l, form l)) (l := ks)
    fun _ _ _ _ => rfl
  rw [shownKeys, hpairs]
  change Except.ok (((ks.map _).mergeSort listedBefore).map Prod.snd) = _
  rw [← hsorted, List.map_map]
  rfl

/-- Keys that are listed are in the order of their words. -/
theorem pairwise_wordLE (hword : ∀ k ∈ ks, k.plain = .ok (word k)) :
    (ks.mergeSort fun k l => listedBefore (word k, form k) (word l, form l)).Pairwise
      Datum.WordLE := by
  have hlisted := List.pairwise_mergeSort
    (fun j k l => listedBefore_trans (j := (word j, form j)) (k := (word k, form k))
      (l := (word l, form l)))
    (fun k l => listedBefore_total (word k, form k) (word l, form l)) ks
  refine hlisted.imp_of_mem fun {k l} hk hl hle => ?_
  rw [List.mem_mergeSort] at hk hl
  refine ⟨word k, word l, hword k hk, hword l hl, ?_⟩
  rcases Prod.Lex.le_iff.mp (listedBefore_iff.mp hle) with hlt | ⟨heq, -⟩
  · exact hlt.le
  · exact heq.le

end Listing

/-- The wording about unknown keys shows all of them. -/
theorem exists_unknownKeysText (forms : List Text) : ∃ before behind,
    unknownKeysText forms = before ++ Text.joinWith ", ".toList forms ++ behind :=
  ⟨_, _, List.append_assoc _ _ _⟩

/-- The message about unknown keys names all of them. -/
theorem namesKeys_of_message {ks : List Datum} {m : Text}
    (h : message (.unknownKeys ks) = .ok m) : NamesKeys ks m := by
  have hshown : ¬Unshown (.unknownKeys ks) := (message_refusedIff _).not_of_ok h
  have hthere : ∀ k ∈ ks, ∃ word form, k.plain = .ok word ∧ k.shown = .ok form := by
    intro k hk
    have hk : ¬k.Unshown := fun hunshown => hshown ⟨k, hk, hunshown⟩
    rcases k.plain_refusedIff.exists_of_not hk with ⟨word, hword⟩
    rcases k.shown_refusedIff.exists_of_not hk with ⟨form, hform⟩
    exact ⟨word, form, hword, hform⟩
  choose! word form hword hform using hthere
  have hperm := List.mergeSort_perm ks
    fun k l => listedBefore (word k, form k) (word l, form l)
  have hforms := mapM_eq_ok_map fun k hk => hform k (hperm.subset hk)
  rw [message, shownKeys_eq hword hform] at h
  rcases exists_unknownKeysText ((ks.mergeSort
    fun k l => listedBefore (word k, form k) (word l, form l)).map form) with
    ⟨before, behind, htext⟩
  exact ⟨_, _, before, behind, hperm, pairwise_wordLE hword, hforms,
    (Except.ok.inj h).symm.trans htext⟩

end Problem

/-! ## What violations show -/

/-- The value of a key is the value of an entry. -/
theorem Datum.exists_mem_of_lookup? {key d : Datum} {es : Entries}
    (h : lookup? key es = some d) : ∃ k, (k, d) ∈ es := by
  induction es with
  | nil => contradiction
  | cons e es ih =>
      rw [lookup?] at h
      split at h
      · rcases Option.some.inj h with rfl
        exact ⟨e.1, List.mem_cons_self⟩
      · rcases ih h with ⟨k, hk⟩
        exact ⟨k, List.mem_cons_of_mem _ hk⟩

namespace Schema

variable {d : Datum} {v : Violation}

/-- What is wrong with the value of a field shows that value at most. -/
theorem unshown_of_mem_fieldProblems {f : Field} {p : Problem} (hp : p ∈ fieldProblems f d)
    (hshown : p.Unshown) : d.Unshown := by
  have hcount : p ∈ countProblems d → d.Unshown := by
    intro hmem
    unfold countProblems at hmem
    split at hmem
    · next x =>
      have hcases : p = .notInteger (.number x) ∨ p = .belowOne x := by
        rcases List.mem_append.mp hmem with h | h <;> split at h <;> simp_all
      rcases hcases with rfl | rfl
      · exact hshown
      · exact .number hshown
    · rcases List.mem_singleton.mp hmem with rfl
      exact hshown
  have hname : p ∈ nameProblems d → d.Unshown := by
    intro hmem
    unfold nameProblems at hmem
    split at hmem
    · split at hmem
      · rcases List.mem_singleton.mp hmem with rfl
        contradiction
      · contradiction
    · rcases List.mem_singleton.mp hmem with rfl
      exact hshown
  cases f with
  | minSteps => exact hcount hp
  | _ => exact hname hp

/-- A violation shows nothing but what is somewhere in the value. -/
theorem unshown_of_mem_violations (hv : v ∈ violations d) (hshown : v.problem.Unshown) :
    d.Unshown := by
  unfold violations at hv
  split at hv
  · next es =>
    rcases List.mem_append.mp hv with hkeys | hfields
    · split at hkeys
      · contradiction
      · rcases List.mem_singleton.mp hkeys with rfl
        rcases hshown with ⟨k, hk, hunshown⟩
        rcases List.mem_map.mp (List.mem_of_mem_filter hk) with ⟨e, he, rfl⟩
        exact .key he hunshown
    · rcases List.mem_flatMap.mp hfields with ⟨f, -, hfield⟩
      unfold fieldViolations at hfield
      split at hfield
      · next value hlookup =>
        rcases List.mem_map.mp hfield with ⟨p, hp, rfl⟩
        rcases Datum.exists_mem_of_lookup? hlookup with ⟨k, he⟩
        exact .value he (unshown_of_mem_fieldProblems hp hshown)
      · contradiction
  · rcases List.mem_singleton.mp hv with rfl
    exact hshown

/-- All violations of a value have messages, if messages show all that is in it. -/
theorem exists_message (hd : ¬d.Unshown) (hv : v ∈ violations d) :
    ∃ m, v.problem.message = .ok m :=
  v.problem.message_refusedIff.exists_of_not
    fun hunshown => hd (unshown_of_mem_violations hv hunshown)

/-- All keys of a value without violations are known. -/
theorem exists_ofKey? {es : Datum.Entries} (h : violations (.map es) = []) :
    ∀ e ∈ es, ∃ f, Field.ofKey? e.1 = some f := by
  have hunknown : unknownKeys es = [] := by
    have hkeys := (List.append_eq_nil_iff.mp h).1
    split at hkeys
    · next hempty => exact List.isEmpty_iff.mp hempty
    · contradiction
  intro e he
  have hknown := List.filter_eq_nil_iff.mp hunknown e.1 (List.mem_map_of_mem he)
  cases hkey : Field.ofKey? e.1 with
  | none => simp [hkey] at hknown
  | some f => exact ⟨f, rfl⟩

end Schema

/-! ## The laws -/

namespace Validator

/-- A validator finds what is wrong with a value by the schema of rules files and nothing else. -/
def Draft7 (V : Validator) : Prop :=
  ∀ d v, v ∈ V.violations d ↔ Schema.Wrong d v

/-- A validator finds each thing once, in the order of the schema. -/
def FieldByField (V : Validator) : Prop :=
  ∀ d, (V.violations d).Pairwise (Violation.Before Field.all)

/-- A validator has a message of every violation of a value, if messages show all integers in the
value. -/
def Worded (V : Validator) : Prop :=
  ∀ d, ¬d.Unshown → ∀ v ∈ V.violations d, ∃ m, V.message v = .ok m

/-- A validator has messages, breaks no line within one, and names all unknown keys. -/
structure Legible (V : Validator) : Prop where
  worded : V.Worded
  oneLine : ∀ v m, V.message v = .ok m → ∀ c ∈ m, Text.isLineBreak c = false
  names : ∀ path ks m, V.message ⟨path, .unknownKeys ks⟩ = .ok m → Problem.NamesKeys ks m

variable {V : Validator} {d : Datum}

/-- A lawful validator finds nothing exactly where the checks of this library find nothing. -/
theorem Draft7.violations_eq_nil_iff (hV : V.Draft7) :
    V.violations d = [] ↔ Schema.violations d = [] := by
  simp only [List.eq_nil_iff_forall_not_mem, hV d, Schema.mem_violations_iff]

/-- The validator of this library finds what is wrong. -/
theorem standard_draft7 : standard.Draft7 :=
  fun _ _ => Schema.mem_violations_iff

/-- The validator of this library finds it in the order of the schema. -/
theorem standard_fieldByField : standard.FieldByField :=
  fun d => (Schema.accounts_violations d).ordered

/-- A message of the validator of this library is the wording of a problem. -/
theorem standard_message_eq_ok_iff {v : Violation} {m : Text} :
    standard.message v = .ok m ↔ v.problem.message = .ok m := by
  cases h : v.problem.message <;> simp [standard, h, Except.mapError]

/-- The validator of this library is legible. -/
theorem standard_legible : standard.Legible where
  worded d hd v hv := by
    rcases Schema.exists_message hd hv with ⟨m, hm⟩
    exact ⟨m, standard_message_eq_ok_iff.mpr hm⟩
  oneLine v m hm c hc := by
    have hprintable := v.problem.printable_message m (standard_message_eq_ok_iff.mp hm)
    exact Text.not_isLineBreak_of_mem hprintable hc
  names path ks m hm := Problem.namesKeys_of_message (standard_message_eq_ok_iff.mp hm)

end Validator

/-! ## Rules and refusals -/

namespace Rules

variable {V : Validator} {base : Rules} {d : Datum} {es : Datum.Entries}

/-- A value without violations is a mapping that is laid over the rules. -/
theorem overlayDatum_of_violations_nil (hV : V.Draft7) (base : Rules)
    (h : Schema.violations d = []) :
    ∃ es, d = .map es ∧ base.overlayDatum V d = .ok (base.overlay es) := by
  cases d with
  | map es =>
      have hkeys : unknownKey? es = none := by
        rw [unknownKey?, List.find?_eq_none]
        intro k hk
        rcases List.mem_map.mp hk with ⟨e, he, rfl⟩
        rcases Schema.exists_ofKey? h e he with ⟨f, hf⟩
        simp [hf]
      exact ⟨es, rfl, by simp [overlayDatum, hV.violations_eq_nil_iff.mpr h, hkeys]⟩
  | _ => contradiction

/-- A value that is laid over rules has no violations. -/
theorem violations_of_overlayDatum_ok (hV : V.Draft7) {rules : Rules}
    (h : base.overlayDatum V d = .ok rules) : Schema.violations d = [] := by
  rw [← hV.violations_eq_nil_iff]
  unfold overlayDatum at h
  split at h
  · split at h
    · next hnone => exact hnone
    · split at h <;> contradiction
  · contradiction

/-- A mapping with violations is refused for the first one. -/
theorem overlayDatum_of_violations_cons (base : Rules) {v : Violation} {vs : List Violation}
    {m : Text} (hvs : V.violations (.map es) = v :: vs) (hm : V.message v = .ok m) :
    base.overlayDatum V (.map es) = .error (.violation v m) := by
  simp [overlayDatum, hvs, hm]

/-- A mapping with violations is refused for one, if messages show all that is in it. -/
theorem exists_violation_of_map (hV : V.Draft7) (hworded : V.Worded) (base : Rules)
    (hd : ¬(Datum.map es).Unshown) (h : Schema.violations (.map es) ≠ []) :
    ∃ v m, base.overlayDatum V (.map es) = .error (.violation v m) := by
  rcases List.exists_cons_of_ne_nil (mt hV.violations_eq_nil_iff.mp h) with ⟨v, vs, hvs⟩
  rcases hworded _ hd v (hvs ▸ List.mem_cons_self) with ⟨m, hm⟩
  exact ⟨v, m, base.overlayDatum_of_violations_cons hvs hm⟩

end Rules

end DeployGate
