import DeployGate.Text.Margin

/-!
# Heredocs

A heredoc is a body of whole lines between an opener and a line that holds its
marker alone, blanks and a carriage return around it apart.

Main results:

- `Heredoc.body_append_closer` shows that a found body and its closing line lie at
  the start of the text that was searched.
-/

namespace DeployGate

namespace Ocl

namespace Heredoc

/-! ## The closing line -/

/-- The blanks and at most one carriage return that a text starts with, if the line
ends behind them. -/
def trailer? (t : Text) : Option Text :=
  let blanks := t.takeWhile Text.isBlank
  match t.drop blanks.length with
  | [] => some blanks
  | '\n' :: _ => some blanks
  | ['\r'] => some (blanks ++ ['\r'])
  | '\r' :: '\n' :: _ => some (blanks ++ ['\r'])
  | _ => none

/-- The marker that a text starts with and what may follow it on its line, if nothing
else does. -/
def markerLine? (marker t : Text) : Option Text :=
  ((Text.after? marker t).bind trailer?).map (marker ++ ·)

/-- The closing line that a text starts with: blanks, the marker, blanks, and at most
one carriage return.  As many blanks as possible stand in front of the marker. -/
def closer? (marker : Text) : Text → Option Text
  | [] => markerLine? marker []
  | c :: t =>
    if Text.isBlank c then ((closer? marker t).map (c :: ·)).or (markerLine? marker (c :: t))
    else markerLine? marker (c :: t)

/-- What may follow a marker lies where it is looked for. -/
theorem isPrefix_of_trailer? {t u : Text} (h : trailer? t = some u) : u <+: t := by
  have hb : t.takeWhile Text.isBlank <+: t := List.takeWhile_prefix _
  obtain ⟨r, hr⟩ := hb
  have hd : t.drop (t.takeWhile Text.isBlank).length = r := by
    conv => lhs; arg 2; rw [← hr]
    exact List.drop_left
  simp only [trailer?, hd] at h
  split at h
  · obtain rfl := Option.some.inj h
    exact ⟨[], hr⟩
  · obtain rfl := Option.some.inj h
    exact ⟨_, hr⟩
  · obtain rfl := Option.some.inj h
    exact ⟨[], by rw [List.append_nil]; exact hr⟩
  · next u =>
    obtain rfl := Option.some.inj h
    exact ⟨'\n' :: u, by rw [List.append_assoc]; exact hr⟩
  · simp at h

/-- A marker and what may follow it lie where they are looked for. -/
theorem isPrefix_of_markerLine? {marker t u : Text} (h : markerLine? marker t = some u) :
    u <+: t := by
  obtain ⟨v, hv, rfl⟩ := Option.map_eq_some_iff.1 h
  obtain ⟨r, hr, hv⟩ := Option.bind_eq_some_iff.1 hv
  rw [Text.after?_eq_some_iff.1 hr]
  exact (List.prefix_append_right_inj marker).2 (isPrefix_of_trailer? hv)

/-- A closing line lies where it is looked for. -/
theorem isPrefix_of_closer? {marker t u : Text} (h : closer? marker t = some u) : u <+: t := by
  induction t generalizing u with
  | nil => exact isPrefix_of_markerLine? h
  | cons c t ih =>
    simp only [closer?] at h
    split at h
    · rcases Option.or_eq_some_iff.1 h with h | ⟨-, h⟩
      · obtain ⟨v, hv, rfl⟩ := Option.map_eq_some_iff.1 h
        exact List.cons_prefix_cons.2 ⟨rfl, ih hv⟩
      · exact isPrefix_of_markerLine? h
    · exact isPrefix_of_markerLine? h

/-! ## The body -/

/-- A heredoc without its opener: the body, whose lines all end in a line feed, and
the closing line. -/
structure Parts where
  body : Text
  closer : Text
  deriving DecidableEq, Repr

/-- The first closing line of a text and the body in front of it.  A closing line
starts where a line does, and `atStart` says whether one starts here. -/
def search (marker : Text) (atStart : Bool) (t : Text) : Option Parts :=
  match if atStart then closer? marker t else none with
  | some closer => some ⟨[], closer⟩
  | none =>
    match t with
    | [] => none
    | c :: t => (search marker (c == '\n') t).map fun p => { p with body := c :: p.body }

/-- The body and the closing line of a heredoc whose body starts a line. -/
def find? (marker t : Text) : Option Parts :=
  search marker true t

/-- The body and the closing line of a heredoc whose body starts at an offset of a
text.  The rest of a line that has started before the offset closes nothing. -/
def findAt? (text : Text) (offset : Nat) (marker : Text) : Option Parts :=
  let before := text.take offset
  search marker (before.isEmpty || before.getLast? == some '\n') (text.drop offset)

/-- The body of a heredoc that starts at an index of a text, and the offset behind its
closing line.  From an index in front of the text the search starts with the text, and
the body is what lies between the index, counted from the end, and the closing line. -/
def bodyFrom? (text : Text) (index : Int) (marker : Text) : Option (Text × Nat) :=
  let offset := min index.toNat text.length
  (findAt? text offset marker).map fun p =>
    let closing := offset + p.body.length
    let first := if index < 0 then (text.length + index).toNat else offset
    ((text.take closing).drop first, closing + p.closer.length)

/-- The body and the closing line that a search finds lie at the start of the text. -/
theorem body_append_closer_of_search {marker : Text} {atStart : Bool} {t : Text} {p : Parts}
    (h : search marker atStart t = some p) : ∃ rest, t = p.body ++ p.closer ++ rest := by
  induction t generalizing atStart p with
  | nil =>
    unfold search at h
    split at h
    · next closer hc =>
      obtain rfl := Option.some.inj h
      split at hc
      · obtain ⟨rest, hr⟩ := isPrefix_of_closer? hc
        exact ⟨rest, hr.symm⟩
      · simp at hc
    · simp at h
  | cons c t ih =>
    unfold search at h
    split at h
    · next closer hc =>
      obtain rfl := Option.some.inj h
      split at hc
      · obtain ⟨rest, hr⟩ := isPrefix_of_closer? hc
        exact ⟨rest, hr.symm⟩
      · simp at hc
    · obtain ⟨q, hq, rfl⟩ := Option.map_eq_some_iff.1 h
      obtain ⟨rest, hr⟩ := ih hq
      exact ⟨rest, by rw [hr]; rfl⟩

/-- The body and the closing line that are found in a text lie at its start. -/
theorem body_append_closer {marker t : Text} {p : Parts} (h : find? marker t = some p) :
    ∃ rest, t = p.body ++ p.closer ++ rest :=
  body_append_closer_of_search h

/-! ## The value -/

/-- What a heredoc says: its body, without the common margin if it is an indented one,
and without the line ends at its end. -/
def value (indented : Bool) (body : Text) : Text :=
  Text.trimEnd (fun c => c == '\r' || c == '\n')
    (if indented then Text.withoutMargin body else body)

end Heredoc

end Ocl

end DeployGate
