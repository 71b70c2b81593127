import DeployGate.Proofs.Text.Printable
import DeployGate.RulesFile.Validator

/-!
# What messages show of values

Numbers are shown in digits and texts in quotation marks, so that all that messages show of a
value is printable, and so is every message about a rules file.

Main results:

- Definition `IfThere`: what a result is, if it is there, has a property.
- Theorem `Datum.printable_shown`: a shown value is printable.
- Theorem `Problem.printable_message`: the message of a problem is printable.
-/

namespace DeployGate

/-! ## Results that are there -/

/-- What a result is, if it is there, has a property. -/
def IfThere {α ε : Type} (P : α → Prop) (r : Except ε α) : Prop :=
  ∀ a, r = .ok a → P a

namespace IfThere

variable {α β ε : Type} {P : α → Prop} {Q : β → Prop} {r : Except ε α}

/-- A result that has a property has it if it is there. -/
theorem ok {a : α} (h : P a) : IfThere P (.ok a : Except ε α) := by
  intro b hb
  rw [← Except.ok.inj hb]
  exact h

/-- No error is there. -/
theorem error (e : ε) : IfThere P (.error e : Except ε α) := by
  intro a ha
  contradiction

/-- A step behind a result has to give a property from the one of the result only. -/
theorem bind {f : α → Except ε β} (hr : IfThere P r) (hf : ∀ a, P a → IfThere Q (f a)) :
    IfThere Q (r >>= f) := by
  cases r with
  | error e => exact error e
  | ok a => exact hf a (hr a rfl)

/-- A changed result has a property if what it is made from gives it. -/
theorem map {f : α → β} (hr : IfThere P r) (hf : ∀ a, P a → Q (f a)) :
    IfThere Q (r.map f) := by
  cases r with
  | error e => exact error e
  | ok a => exact ok (hf a (hr a rfl))

/-- The results for the items of a list have a property if each of them has it. -/
theorem mapM {f : α → Except ε β} (hf : ∀ a, IfThere Q (f a)) (as : List α) :
    IfThere (∀ b ∈ ·, Q b) (as.mapM f) := by
  induction as with
  | nil => exact ok (by simp)
  | cons a as ih =>
      rw [List.mapM_cons]
      exact (hf a).bind fun b hb => ih.bind fun bs hbs => ok (List.forall_mem_cons.mpr ⟨hb, hbs⟩)

end IfThere

open Text

/-! ## Numbers -/

namespace Binary64

/-- A decimal is printable however it is laid out. -/
theorem printable_write (layout : Layout) (d : Decimal) : (layout.write d).Printable := by
  have hdigits : d.normalized.1.Printable := (printable_ofNat d.digits).subset (trimEnd_subset _ _)
  have hzeros := printable_replicate (c := '0') (by decide)
  have hzero : isPrintable '0' = true := by decide
  have hpoint : isPrintable '.' = true := by decide
  simp only [Layout.write]
  generalize d.normalized.1 = digits at hdigits ⊢
  generalize d.normalized.2 = order
  split
  · have hmark : Text.Printable (if order < 0 then ['e', '-'] else ['e', '+']) := by
      split <;> decide
    have hpower := printable_ofNat order.natAbs
    rcases digits with - | ⟨c, - | ⟨c', digits⟩⟩
    · simp [hmark, hzeros, hpower]
    · simp_all
    · simp_all
  · cases order with
    | ofNat k =>
        have hwhole := hdigits.subset (List.take_subset (k + 1) digits)
        have hrest := hdigits.subset (List.drop_subset (k + 1) digits)
        dsimp only
        split <;> simp [hwhole, hrest, hzeros, hzero, hpoint]
    | negSucc k => simp [hdigits, hzeros, hzero, hpoint]

/-- A double is printable. -/
theorem printable_toText (x : Binary64) : x.toText.Printable := by
  have hsign : ∀ negative : Bool, Text.Printable (if negative then ['-'] else []) := by decide
  cases x with
  | nan => decide
  | infinite negative => cases negative <;> decide
  | finite negative m e =>
      rw [toText]
      split
      · split
        · exact printable_append.mpr ⟨hsign negative, by decide⟩
        · exact printable_append.mpr ⟨hsign negative, printable_write _ _⟩
      · exact hsign negative

end Binary64

/-- A number is printable where it is shown. -/
theorem Number.printable_toText (x : Number) : IfThere Text.Printable x.toText := by
  cases x with
  | double x => exact .ok x.printable_toText
  | int n =>
      rw [toText, showInt]
      split
      · exact .error _
      · exact .ok (printable_ofInt n)

/-! ## Values -/

namespace Datum

mutual

/-- A value is printable where it is shown. -/
theorem printable_shown : ∀ d : Datum, IfThere Text.Printable d.shown
  | .null => .ok (by decide)
  | .bool b => .ok (by cases b <;> decide)
  | .number x => x.printable_toText
  | .text t => .ok (printable_quoted t)
  | .date d => by
      refine .ok ?_
      have hparts : ∀ t ∈ [Text.ofNat d.year, Text.ofNat d.month, Text.ofNat d.day],
          t.Printable := by simp [printable_ofNat]
      have hname : Text.Printable "datetime.date(".toList := by decide
      have hclose : Text.Printable [')'] := by decide
      have hcomma : Text.Printable ", ".toList := by decide
      exact printable_append.mpr
        ⟨printable_append.mpr ⟨hname, printable_joinWith hcomma hparts⟩, hclose⟩
  | .list ds => by
      rw [shown]
      refine (printable_shownItems ds).bind fun parts hparts => .ok ?_
      have hcomma : Text.Printable ", ".toList := by decide
      exact printable_cons.mpr ⟨by decide, printable_append.mpr
        ⟨printable_joinWith hcomma hparts, by decide⟩⟩
  | .map es => by
      rw [shown]
      refine (printable_shownEntries es).bind fun parts hparts => .ok ?_
      have hcomma : Text.Printable ", ".toList := by decide
      exact printable_cons.mpr ⟨by decide, printable_append.mpr
        ⟨printable_joinWith hcomma hparts, by decide⟩⟩
  | .foreign v => by
      rw [shown]
      split
      · exact .error _
      · exact .ok v.printable

/-- Items are printable where they are shown. -/
theorem printable_shownItems : ∀ ds : List Datum,
    IfThere (∀ t ∈ ·, Text.Printable t) (shownItems ds)
  | [] => .ok (by simp)
  | d :: ds => by
      rw [shownItems]
      exact (printable_shown d).bind fun t ht => (printable_shownItems ds).bind fun ts hts =>
        .ok (List.forall_mem_cons.mpr ⟨ht, hts⟩)

/-- Entries are printable where they are shown. -/
theorem printable_shownEntries : ∀ es : Entries,
    IfThere (∀ t ∈ ·, Text.Printable t) (shownEntries es)
  | [] => .ok (by simp)
  | (k, v) :: es => by
      rw [shownEntries]
      refine (printable_shown k).bind fun key hkey => (printable_shown v).bind fun value hvalue =>
        (printable_shownEntries es).bind fun ts hts => .ok ?_
      have hentry : Text.Printable (key ++ ':' :: ' ' :: value) := by
        have hcolon : isPrintable ':' = true := by decide
        have hspace : isPrintable ' ' = true := by decide
        simp [hkey, hvalue, hcolon, hspace]
      exact List.forall_mem_cons.mpr ⟨hentry, hts⟩

end

end Datum

/-! ## Problems -/

namespace Problem

/-- Keys are printable where they are shown. -/
theorem printable_shownKeys (keys : List Datum) :
    IfThere (∀ t ∈ ·, Text.Printable t) (shownKeys keys) := by
  have hpair : ∀ k : Datum, IfThere (fun p : Text × Text => p.2.Printable) (do
      let word ← k.plain
      let form ← k.shown
      pure (word, form)) := by
    intro k
    have hword : IfThere (fun _ => True) k.plain := fun _ _ => trivial
    exact hword.bind fun word _ => k.printable_shown.bind fun form hform => .ok hform
  unfold shownKeys
  refine (IfThere.mapM hpair keys).bind fun pairs hpairs => .ok ?_
  intro t ht
  rcases List.mem_map.mp ht with ⟨p, hp, rfl⟩
  exact hpairs p (List.mem_mergeSort.mp hp)

/-- The message of a problem is printable. -/
theorem printable_message (p : Problem) : IfThere Text.Printable p.message := by
  have hshown : ∀ (d : Datum) (rest : Text), rest.Printable →
      IfThere Text.Printable (d.shown.map (· ++ rest)) := by
    intro d rest hrest
    exact d.printable_shown.map fun t ht => printable_append.mpr ⟨ht, hrest⟩
  cases p with
  | notMapping d => exact hshown d _ (by decide)
  | notInteger d => exact hshown d _ (by decide)
  | notText d => exact hshown d _ (by decide)
  | belowOne x =>
      exact x.printable_toText.map fun t ht => printable_append.mpr ⟨ht, by decide⟩
  | emptyText => exact .ok (by decide)
  | unknownKeys keys =>
      refine (printable_shownKeys keys).map fun forms hforms => ?_
      have hopen : Text.Printable "Additional properties are not allowed (".toList := by decide
      have hcomma : Text.Printable ", ".toList := by decide
      have hverb : Text.Printable (if forms.length = 1 then " was".toList else " were".toList) := by
        split <;> decide
      have hclose : Text.Printable " unexpected)".toList := by decide
      exact printable_append.mpr ⟨printable_append.mpr ⟨printable_append.mpr
        ⟨hopen, printable_joinWith hcomma hforms⟩, hverb⟩, hclose⟩

end Problem

end DeployGate
