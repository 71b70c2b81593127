import DeployGate.Proofs.RulesFile.Draft

/-!
# Rules files one over the other

Values that are laid over rules one after the other are each taken as a whole or not at all.
Whether one is taken is in the value alone.  Each field of the rules has the value that the last
one of those taken gives it.  That is so with every validator that obeys the laws.

Main results:

- Definitions `Rules.accepts`, `Rules.apply` and `Rules.applyAll`: which values are taken, and
  what the rules are behind one and behind all of them.
- Theorem `Rules.get_apply`: one value decides the fields whose keys it has.
- Theorem `Rules.apply_apply`: two mappings one after the other are their union.
- Theorem `Rules.wellFormed_applyAll`: the rules that the standard ones can become.
- Theorem `Rules.applyAll_last_writer`: what rules become by any values.
-/

namespace DeployGate

/-! ## Mappings -/

namespace Datum

/-- Only a text is the same key as a text. -/
theorem sameKey_text_iff {k : Datum} {t : Text} : sameKey k (.text t) = true ↔ k = .text t := by
  cases k <;> simp [sameKey, asNumber?]

/-- The value that a mapping gives a field. -/
def valueOf? (f : Field) : Datum → Option Datum
  | .map es => lookup? (.text f.key) es
  | _ => none

/-- The entries of two mappings; where both have a key, the value is that of the second. -/
def union (es fs : Entries) : Entries :=
  (es.map fun e => (e.1, (lookup? e.1 fs).getD e.2)) ++
    fs.filter fun e => (lookup? e.1 es).isNone

/-- A key is looked up in entries, and then in those behind them. -/
theorem lookup?_append (key : Datum) (es fs : Entries) :
    lookup? key (es ++ fs) = (lookup? key es).or (lookup? key fs) := by
  induction es with
  | nil => rfl
  | cons e es ih =>
      rw [List.cons_append, lookup?, lookup?, ih]
      split <;> rfl

/-- Where values change by key, the value of a text changes as its key says. -/
theorem lookup?_map (t : Text) (g : Datum → Datum → Datum) (es : Entries) :
    lookup? (.text t) (es.map fun e => (e.1, g e.1 e.2)) =
      (lookup? (.text t) es).map (g (.text t)) := by
  induction es with
  | nil => rfl
  | cons e es ih =>
      rw [List.map_cons, lookup?, lookup?, ih]
      split
      · next hkey => rw [sameKey_text_iff.mp hkey]; rfl
      · rfl

/-- Where entries are chosen by key, the value of a text is there if its key is chosen. -/
theorem lookup?_filter (t : Text) (p : Datum → Bool) (es : Entries) :
    lookup? (.text t) (es.filter fun e => p e.1) =
      if p (.text t) then lookup? (.text t) es else none := by
  induction es with
  | nil => simp [lookup?]
  | cons e es ih =>
      rw [List.filter_cons, lookup?]
      split
      · next hchosen =>
        rw [lookup?, ih]
        split
        · next hkey =>
          rw [sameKey_text_iff.mp hkey] at hchosen
          rw [if_pos hchosen]
        · rfl
      · next hchosen =>
        rw [ih]
        split
        · next htext =>
          split
          · next hkey =>
            rw [sameKey_text_iff.mp hkey] at hchosen
            exact absurd htext hchosen
          · rfl
        · rfl

/-- The second of two mappings gives a key its value in the union, and else the first. -/
theorem lookup?_union (t : Text) (es fs : Entries) :
    lookup? (.text t) (union es fs) = (lookup? (.text t) fs).or (lookup? (.text t) es) := by
  rw [union, lookup?_append, lookup?_map t fun k v => (lookup? k fs).getD v,
    lookup?_filter t fun k => (lookup? k es).isNone]
  cases lookup? (.text t) es <;> cases lookup? (.text t) fs <;> rfl

end Datum

/-! ## Values without violations -/

namespace Schema

/-- A mapping has no violations exactly if its keys are known and nothing is wrong with the
value of any field. -/
theorem violations_map_eq_nil_iff {es : Datum.Entries} :
    violations (.map es) = [] ↔
      (∀ e ∈ es, ∃ f, Field.ofKey? e.1 = some f) ∧
      ∀ f d, Datum.lookup? (.text f.key) es = some d → fieldProblems f d = [] := by
  constructor
  · intro h
    refine ⟨exists_ofKey? h, fun f d hd => List.eq_nil_iff_forall_not_mem.mpr fun p hp => ?_⟩
    have hmem := mem_violations_map_iff.mpr (.inr ⟨f, d, hd, p, hp, rfl⟩)
    rw [h] at hmem
    contradiction
  · intro h
    rcases h with ⟨hkeys, hvalues⟩
    refine List.eq_nil_iff_forall_not_mem.mpr fun v hv => ?_
    rcases mem_violations_map_iff.mp hv with ⟨hne, -⟩ | ⟨f, d, hd, p, hp, -⟩
    · rcases List.exists_mem_of_ne_nil _ hne with ⟨k, hk⟩
      rcases List.mem_filter.mp hk with ⟨hmem, hunknown⟩
      rcases List.mem_map.mp hmem with ⟨e, he, rfl⟩
      rcases hkeys e he with ⟨f, hf⟩
      exact of_decide_eq_true hunknown f (Field.ofKey?_eq_some_iff.mp hf)
    · rw [hvalues f d hd] at hp
      contradiction

/-- Nothing is wrong with what a value without violations gives a field. -/
theorem fieldProblems_of_valueOf? {d v : Datum} {f : Field} (h : violations d = [])
    (hv : d.valueOf? f = some v) : fieldProblems f v = [] := by
  cases d with
  | map es => exact (violations_map_eq_nil_iff.mp h).2 f v hv
  | _ => contradiction

end Schema

namespace Rules

variable {V : Validator} {r s : Rules} {d : Datum} {f g : Field}

/-! ## Fields -/

/-- The value of a field of rules. -/
def get (r : Rules) : Field → Datum
  | .minSteps => .number r.minSteps
  | .firstStepName => .text r.firstStepName
  | .secondStepName => .text r.secondStepName
  | .lastStepName => .text r.lastStepName
  | .actionType => .text r.actionType

/-- Rules with the same values are the same. -/
theorem eq_of_get (h : ∀ f, r.get f = s.get f) : r = s := by
  rcases r with ⟨m, a, b, c, t⟩
  rcases s with ⟨m', a', b', c', t'⟩
  have hcount := h .minSteps
  have hfirst := h .firstStepName
  have hsecond := h .secondStepName
  have hlast := h .lastStepName
  have htype := h .actionType
  simp_all [get]

/-- A field has the value that it is given, if nothing is wrong with the value. -/
theorem get_set (h : Schema.fieldProblems f d = []) : (r.set f d).get f = d := by
  cases f <;> cases d <;> simp_all [Schema.fieldProblems, Schema.countProblems,
    Schema.nameProblems, set, get]

/-- The other fields keep their values. -/
theorem get_set_of_ne (h : g ≠ f) : (r.set f d).get g = r.get g := by
  cases f <;> cases d <;> cases g <;> first | rfl | contradiction

/-- Give a field the value that a mapping gives it. -/
def setEntry (es : Datum.Entries) (r : Rules) (f : Field) : Rules :=
  match Datum.lookup? (.text f.key) es with
  | some d => r.set f d
  | none => r

/-- A mapping is laid over rules field by field. -/
theorem overlay_eq_foldl (r : Rules) (es : Datum.Entries) :
    r.overlay es = Field.all.foldl (setEntry es) r := rfl

variable {es fs : Datum.Entries}

/-- One field has the value that a mapping gives it, the others keep theirs. -/
theorem get_setEntry
    (h : ∀ f d, Datum.lookup? (.text f.key) es = some d → Schema.fieldProblems f d = []) :
    (setEntry es r g).get f =
      if f = g then (Datum.lookup? (.text g.key) es).getD (r.get f) else r.get f := by
  unfold setEntry
  cases hd : Datum.lookup? (.text g.key) es with
  | none => simp
  | some d =>
      by_cases hsame : f = g
      · simp [hsame, get_set (h g d hd)]
      · simp [hsame, get_set_of_ne hsame]

/-- Fields have the values that a mapping gives them, the others keep theirs. -/
theorem get_foldl_setEntry
    (h : ∀ f d, Datum.lookup? (.text f.key) es = some d → Schema.fieldProblems f d = [])
    (gs : List Field) (r : Rules) (f : Field) :
    (gs.foldl (setEntry es) r).get f =
      if f ∈ gs then (Datum.lookup? (.text f.key) es).getD (r.get f) else r.get f := by
  induction gs generalizing r with
  | nil => rfl
  | cons g gs ih =>
      rw [List.foldl_cons, ih, get_setEntry h]
      by_cases hsame : f = g
      · subst hsame
        cases Datum.lookup? (.text f.key) es <;> simp
      · simp [hsame]

/-- A mapping whose values nothing is wrong with gives the fields their values. -/
theorem get_overlay
    (h : ∀ f d, Datum.lookup? (.text f.key) es = some d → Schema.fieldProblems f d = []) :
    (r.overlay es).get f = (Datum.lookup? (.text f.key) es).getD (r.get f) := by
  rw [overlay_eq_foldl, get_foldl_setEntry h, if_pos (Field.mem_all f)]

/-! ## One value -/

/-- Whether a value is laid over rules. -/
def accepts (V : Validator) (r : Rules) (d : Datum) : Bool :=
  match r.overlayDatum V d with
  | .ok _ => true
  | .error _ => false

/-- The rules behind a value: the value laid over them, or the same rules if it is not. -/
def apply (V : Validator) (r : Rules) (d : Datum) : Rules :=
  match r.overlayDatum V d with
  | .ok rules => rules
  | .error _ => r

/-- The rules behind values that come one after the other. -/
def applyAll (V : Validator) (r : Rules) (ds : List Datum) : Rules :=
  ds.foldl (apply V) r

/-- A value is laid over rules exactly if it has no violations. -/
theorem accepts_iff (hV : V.Draft7) : r.accepts V d = true ↔ Schema.violations d = [] := by
  unfold accepts
  constructor
  · intro h
    split at h
    · next rules hrules => exact violations_of_overlayDatum_ok hV hrules
    · contradiction
  · intro h
    rcases overlayDatum_of_violations_nil hV r h with ⟨es, -, hrules⟩
    rw [hrules]

/-- Whether a value is laid over rules is not in the rules. -/
theorem accepts_congr (hV : V.Draft7) (r s : Rules) : r.accepts V = s.accepts V := by
  funext d
  rw [Bool.eq_iff_iff, accepts_iff hV, accepts_iff hV]

/-- A value that is not laid over rules leaves them as they are. -/
theorem apply_of_not_accepts (h : r.accepts V d = false) : r.apply V d = r := by
  unfold accepts at h
  unfold apply
  cases hread : r.overlayDatum V d with
  | ok rules => simp [hread] at h
  | error fault => rfl

/-- A value that is laid over rules decides the fields whose keys it has. -/
theorem get_apply (hV : V.Draft7) (h : r.accepts V d = true) :
    (r.apply V d).get f = (d.valueOf? f).getD (r.get f) := by
  have hnone := (accepts_iff hV).mp h
  rcases overlayDatum_of_violations_nil hV r hnone with ⟨es, rfl, hrules⟩
  rw [apply, hrules]
  exact get_overlay (Schema.violations_map_eq_nil_iff.mp hnone).2

/-! ## Values one after the other -/

/-- Each field has the last value that one of the values laid over the rules gives it, and the
value it had if none does. -/
theorem get_applyAll (hV : V.Draft7) (r : Rules) (ds : List Datum) (f : Field) :
    (r.applyAll V ds).get f =
      ((ds.filter (r.accepts V)).filterMap (Datum.valueOf? f)).getLast?.getD (r.get f) := by
  induction ds generalizing r with
  | nil => rfl
  | cons d ds ih =>
      have hlater := ih (r.apply V d)
      rw [accepts_congr hV _ r] at hlater
      rw [applyAll, List.foldl_cons, ← applyAll, hlater]
      cases haccepts : r.accepts V d with
      | false => rw [apply_of_not_accepts haccepts, List.filter_cons_of_neg (by simp [haccepts])]
      | true =>
          rw [get_apply hV haccepts, List.filter_cons_of_pos haccepts]
          cases hvalue : d.valueOf? f with
          | none => simp [hvalue]
          | some v => simp [hvalue, List.getLast?_cons]

/-- The union of two mappings is laid over rules if both mappings are. -/
theorem accepts_union (hV : V.Draft7) (hes : r.accepts V (.map es) = true)
    (hfs : r.accepts V (.map fs) = true) : r.accepts V (.map (Datum.union es fs)) = true := by
  rw [accepts_iff hV, Schema.violations_map_eq_nil_iff] at *
  rcases hes with ⟨hkeys, hvalues⟩
  rcases hfs with ⟨hkeys', hvalues'⟩
  constructor
  · intro e he
    rcases List.mem_append.mp he with he | he
    · rcases List.mem_map.mp he with ⟨e', he', rfl⟩
      exact hkeys e' he'
    · exact hkeys' e (List.mem_of_mem_filter he)
  · intro f d hd
    rw [Datum.lookup?_union, Option.or_eq_some_iff] at hd
    rcases hd with hd | ⟨-, hd⟩
    · exact hvalues' f d hd
    · exact hvalues f d hd

/-- Two mappings laid over rules one after the other are their union laid over them. -/
theorem apply_apply (hV : V.Draft7) (hes : r.accepts V (.map es) = true)
    (hfs : r.accepts V (.map fs) = true) :
    (r.apply V (.map es)).apply V (.map fs) = r.apply V (.map (Datum.union es fs)) := by
  have hunion := accepts_union hV hes hfs
  rw [accepts_congr hV r (r.apply V (.map es))] at hfs
  apply eq_of_get
  intro f
  rw [get_apply hV hfs, get_apply hV hes, get_apply hV hunion, Datum.valueOf?, Datum.valueOf?,
    Datum.valueOf?, Datum.lookup?_union]
  cases Datum.lookup? (.text f.key) fs <;> rfl

/-! ## Reachable rules -/

/-- Rules that a rules file could say: the least number of steps equals an integer of at least
one, and no name is empty. -/
structure WellFormed (r : Rules) : Prop where
  minSteps : ∃ n, r.minSteps.toInt? = some n ∧ 1 ≤ n
  firstStepName : r.firstStepName ≠ []
  secondStepName : r.secondStepName ≠ []
  lastStepName : r.lastStepName ≠ []
  actionType : r.actionType ≠ []

/-- A name that nothing is wrong with is not empty. -/
theorem ne_nil_of_nameProblems {t : Text} (h : Schema.nameProblems (.text t) = []) : t ≠ [] := by
  rcases Schema.nameProblems_eq_nil_iff.mp h with ⟨t', ht, hne⟩
  rwa [Datum.text.inj ht]

/-- A count that nothing is wrong with equals an integer of at least one. -/
theorem exists_of_countProblems {x : Number} (h : Schema.countProblems (.number x) = []) :
    ∃ n, x.toInt? = some n ∧ 1 ≤ n := by
  rcases Schema.countProblems_eq_nil_iff.mp h with ⟨x', n, hx, hn, hle⟩
  rw [← Datum.number.inj hx] at hn
  exact ⟨n, Number.toInt?_eq_some_iff.mpr hn, hle⟩

/-- Rules are well formed where nothing is wrong with any value. -/
theorem wellFormed_of_fieldProblems (h : ∀ f, Schema.fieldProblems f (r.get f) = []) :
    r.WellFormed where
  minSteps := exists_of_countProblems (h .minSteps)
  firstStepName := ne_nil_of_nameProblems (h .firstStepName)
  secondStepName := ne_nil_of_nameProblems (h .secondStepName)
  lastStepName := ne_nil_of_nameProblems (h .lastStepName)
  actionType := ne_nil_of_nameProblems (h .actionType)

/-- A value that is laid over rules leaves no field with a wrong value. -/
theorem fieldProblems_get_apply (hV : V.Draft7) (h : ∀ f, Schema.fieldProblems f (r.get f) = [])
    (d : Datum) (f : Field) : Schema.fieldProblems f ((r.apply V d).get f) = [] := by
  cases haccepts : r.accepts V d with
  | false => rw [apply_of_not_accepts haccepts, h f]
  | true =>
      rw [get_apply hV haccepts]
      cases hvalue : d.valueOf? f with
      | none => exact h f
      | some v => exact Schema.fieldProblems_of_valueOf? ((accepts_iff hV).mp haccepts) hvalue

/-- No values that come one after the other leave a field with a wrong value. -/
theorem fieldProblems_get_applyAll (hV : V.Draft7)
    (h : ∀ f, Schema.fieldProblems f (r.get f) = []) (ds : List Datum) (f : Field) :
    Schema.fieldProblems f ((r.applyAll V ds).get f) = [] := by
  induction ds generalizing r with
  | nil => exact h f
  | cons d ds ih => exact ih (fieldProblems_get_apply hV h d)

/-- The rules that the standard ones can become are well formed. -/
theorem wellFormed_applyAll (hV : V.Draft7) (ds : List Datum) :
    (standard.applyAll V ds).WellFormed := by
  have hstandard : ∀ f, Schema.fieldProblems f (standard.get f) = [] := by
    intro f
    cases f <;> rfl
  exact wellFormed_of_fieldProblems (fieldProblems_get_applyAll hV hstandard ds)

/-! ## Any values -/

/-- Let a validator obey the laws.  Rules files one over the other are taken as a whole or not at
all, and the last one that speaks of a field decides it.  Whether a value is taken is in the value
alone, and one that is not taken changes nothing.  So two mappings one after the other are their
union, and whatever comes after the standard rules, the rules are well formed. -/
theorem applyAll_last_writer {V : Validator} (hV : V.Draft7) :
    (∀ (r s : Rules) d, r.accepts V d = s.accepts V d) ∧
    (∀ (r : Rules) d, r.accepts V d = false → r.apply V d = r) ∧
    (∀ (r : Rules) ds f, (r.applyAll V ds).get f =
      ((ds.filter (r.accepts V)).filterMap (Datum.valueOf? f)).getLast?.getD (r.get f)) ∧
    (∀ (r : Rules) es fs, r.accepts V (.map es) = true → r.accepts V (.map fs) = true →
      r.accepts V (.map (Datum.union es fs)) = true ∧
        (r.apply V (.map es)).apply V (.map fs) = r.apply V (.map (Datum.union es fs))) ∧
    ∀ ds, (standard.applyAll V ds).WellFormed := by
  refine ⟨?_, ?_, ?_, ?_, ?_⟩
  · intro r s d
    rw [accepts_congr hV r s]
  · intro r d h
    exact apply_of_not_accepts h
  · intro r ds f
    exact get_applyAll hV r ds f
  · intro r es fs hes hfs
    exact ⟨accepts_union hV hes hfs, apply_apply hV hes hfs⟩
  · intro ds
    exact wellFormed_applyAll hV ds

/-- A mapping with a number of steps and a type, one with another number, and a list. -/
def laidValues : List Datum :=
  [.map [(.text "minSteps".toList, .number (.int 4)), (.text "actionType".toList, .text ['t'])],
    .map [(.text "minSteps".toList, .number (.int 7))], .list []]

/-- The list is not taken, and the two mappings are laid over the standard rules as their union
is: the second number and the type. -/
theorem applyAll_last_writer_twoMappings :
    Validator.standard.Draft7 ∧
    (standard.applyAll .standard laidValues).get .minSteps = .number (.int 7) ∧
    (standard.applyAll .standard laidValues).get .actionType = .text ['t'] ∧
    standard.apply .standard (.list []) = standard ∧
    (standard.apply .standard (.map [(.text "minSteps".toList, .number (.int 4)),
        (.text "actionType".toList, .text ['t'])])).apply .standard
      (.map [(.text "minSteps".toList, .number (.int 7))]) =
    standard.apply .standard (.map [(.text "minSteps".toList, .number (.int 7)),
      (.text "actionType".toList, .text ['t'])]) := by
  have hV := Validator.standard_draft7
  rcases applyAll_last_writer hV with ⟨-, hkept, hlast, hunion, -⟩
  refine ⟨hV, ?_, ?_, hkept _ _ (by rfl), ?_⟩
  · rw [hlast]
    rfl
  · rw [hlast]
    rfl
  · exact (hunion standard _ _ (by rfl) (by rfl)).2

end Rules

end DeployGate
