import DeployGate.Ocl.Session
import DeployGate.Proofs.Ocl.Failure
import DeployGate.Proofs.Ocl.Relocation

/-!
# Sessions at every place

A session can be anywhere among its tokens, also behind their end, and may go on behind a failed
call.  Wherever it is, a call goes forward only, and what it gives and how far it goes is in the
tokens ahead.  Whatever has been called before, the whole document is read as from the start.

Main results:

- Theorem `Call.exists_passes`: how far a call goes from any cursor, and what it blames.
- Theorem `Call.run_shift`: a call sees the tokens ahead and not the number of those passed.
- Theorem `Session.calls_anywhere`: both of sessions, with what many calls do.
-/

namespace DeployGate

namespace Ocl

/-! ## Cursors some tokens on -/

namespace Cursor

/-- A cursor in front of the same tokens behind more of them. -/
def shift (n : Nat) (c : Cursor) : Cursor :=
  { c with position := c.position + n }

@[simp] theorem ahead_shift (n : Nat) (c : Cursor) : (c.shift n).ahead = c.ahead := rfl

/-- A cursor behind more tokens is one whose lines stay as they are. -/
theorem relocate_id (n : Nat) (c : Cursor) : c.relocate id n = c.shift n := by
  have hsame : Token.mapLine id = id := rfl
  rw [relocate, hsame, List.map_id]
  rfl

/-- Tokens are passed behind more tokens as they are here. -/
theorem skip_shift (k n : Nat) (c : Cursor) : (c.shift n).skip k = (c.skip k).shift n := by
  simp [skip, shift, Nat.add_right_comm]

end Cursor

mutual

/-- A value whose lines stay as they are stays as it is. -/
theorem Value.mapLines_id : (v : Value) → v.mapLines id = v
  | .literal _ _ => rfl
  | .list vs => by rw [mapLines, Value.mapLinesItems_id vs]
  | .dictionary es => by rw [mapLines, Value.mapLinesEntries_id es]

/-- Values whose lines stay as they are stay as they are. -/
theorem Value.mapLinesItems_id : (vs : List Value) → mapLinesItems id vs = vs
  | [] => rfl
  | v :: vs => by rw [mapLinesItems, Value.mapLines_id v, Value.mapLinesItems_id vs]

/-- Entries whose lines stay as they are stay as they are. -/
theorem Value.mapLinesEntries_id : (es : List Attribute) → mapLinesEntries id es = es
  | [] => rfl
  | ⟨_, v, _⟩ :: es => by
      rw [mapLinesEntries, Value.mapLines_id v, Value.mapLinesEntries_id es]
      rfl

end

mutual

/-- A part of a document whose lines stay as they are stays as it is. -/
theorem Node.mapLines_id : (n : Node) → n.mapLines id = n
  | .attribute a => by
      rw [mapLines, Attribute.mapLines, Value.mapLines_id]
      rfl
  | .block ⟨_, _, cs, _⟩ => by
      rw [mapLines, Node.mapLinesChildren_id cs]
      rfl

/-- Parts of a document whose lines stay as they are stay as they are. -/
theorem Node.mapLinesChildren_id : (ns : List Node) → mapLinesChildren id ns = ns
  | [] => rfl
  | n :: ns => by rw [mapLinesChildren, Node.mapLines_id n, Node.mapLinesChildren_id ns]

end

/-- Lines that stay as they are change no value. -/
theorem Value.mapLines_eq_id : mapLines id = id :=
  funext Value.mapLines_id

/-- Lines that stay as they are change no statement. -/
theorem Mode.mapLines_eq_id (m : Mode) : m.mapLines id = id := by
  funext s
  cases m with
  | block => exact s.mapLines_id
  | dictionary =>
      rw [mapLines_dictionary, Attribute.mapLines, Value.mapLines_id]
      rfl

/-- A reading elsewhere whose lines stay as they are has the same result. -/
theorem Reading.relocate_id {α : Type} (n : Nat) (r : Reading α) :
    r.relocate id n id = (r.1, r.2.shift n) := by
  rcases r with ⟨e | a, c⟩
  · rw [relocate_error, Cursor.relocate_id]
    rfl
  · rw [relocate_ok, Cursor.relocate_id]
    rfl

/-! ## Calls at a cursor -/

namespace Call

/-- The calls that read part of a document. -/
def Reads : Call → Prop
  | .value => True
  | .items => True
  | .statement _ => True
  | .body _ _ => True
  | _ => False

/-- The calls that read one value or one statement. -/
def ReadsOne : Call → Prop
  | .value => True
  | .statement _ => True
  | _ => False

/-- The number of tokens that a call passes at least if it succeeds. -/
def least : Call → Nat
  | .next => 1
  | .expect _ => 1
  | .value => 1
  | .statement _ => 1
  | _ => 0

/-- A call that reads one part reads part of a document. -/
theorem ReadsOne.reads {k : Call} (h : k.ReadsOne) : k.Reads := by
  cases k with
  | value => trivial
  | statement m => trivial
  | _ => exact h.elim

/-- A call that reads one part passes a token at least. -/
theorem ReadsOne.least_eq {k : Call} (h : k.ReadsOne) : k.least = 1 := by
  cases k with
  | value => rfl
  | statement m => rfl
  | _ => exact h.elim

/-- How far a call goes from a cursor.  It passes the end at most once, and not at all if it reads
part of a document.  If it fails, the line that is blamed is the one of what is next where it
stops, or of what it has passed last. -/
structure Passes (k : Call) (c : Cursor) (n : Nat) : Prop where
  cursor_eq : (k.run c).2 = c.skip n
  le : n ≤ c.ahead.length + 1
  least_le : ∀ a, (k.run c).1 = .ok a → k.least ≤ n
  le_of_reads : ∀ a, (k.run c).1 = .ok a → k.Reads → n ≤ c.ahead.length
  blames : ∀ e, (k.run c).1 = .error e →
    ∃ i, (i = n ∨ i + 1 = n) ∧ e.line = (c.skip i).line

variable {c : Cursor} {k : Call}

/-- A call that reads passes the tokens of what it reads, or stops at a failed check. -/
theorem exists_passes_of_reading {α : Type} {f : α → Answer} {r : Reading α}
    {P : List Token → Prop} (hrun : k.run c = r.map f)
    (hok : ∀ a next, r = (.ok a, next) → c.Begins P next)
    (hleast : ∀ us, P us → k.least ≤ us.length) (hfails : r.FailsAhead c) :
    ∃ n, k.Passes c n := by
  rcases r with ⟨e | a, next⟩
  · rcases hfails e next rfl with ⟨i, hi, hcheck⟩
    have hstop : ∃ n, next = c.skip n ∧ (i = n ∨ i + 1 = n) := by
      rcases hcheck.stop_eq with hhere | hlater
      · exact ⟨i, hhere, .inl rfl⟩
      · refine ⟨i + 1, ?_, .inr rfl⟩
        rw [hlater, Cursor.advance_eq_skip, Cursor.skip_skip]
    rcases hstop with ⟨n, rfl, hin⟩
    have herror : ∀ a, ¬(k.run c).1 = .ok a := by simp [hrun]
    refine ⟨n, ⟨by rw [hrun]; rfl, by omega, ?_, ?_, ?_⟩⟩
    · intro a ha
      exact absurd ha (herror a)
    · intro a ha
      exact absurd ha (herror a)
    · intro f hf
      rw [hrun] at hf
      cases hf
      exact ⟨i, hin, hcheck.line_eq⟩
  · rcases hok a next rfl with ⟨us, hus, hP, rfl⟩
    have hlength := hus.length_le
    refine ⟨us.length, ⟨by rw [hrun]; rfl, by omega, fun _ _ => hleast us hP,
      fun _ _ _ => hlength, ?_⟩⟩
    intro e he
    rw [hrun] at he
    cases he

/-- A call that always succeeds and reads nothing passes as many tokens as it says. -/
theorem passes_of_ok {a : Answer} {n : Nat} (hrun : k.run c = (.ok a, c.skip n))
    (hle : n ≤ c.ahead.length + 1) (hleast : k.least ≤ n) (hreads : ¬k.Reads) :
    k.Passes c n where
  cursor_eq := by rw [hrun]
  le := hle
  least_le _ _ := hleast
  le_of_reads _ _ hk := absurd hk hreads
  blames e he := by
    rw [hrun] at he
    cases he

/-- Passing a token of a given kind passes one token, whatever its kind is. -/
theorem passes_expect (kind : Text) (c : Cursor) : (Call.expect kind).Passes c 1 := by
  have hnext : ((Call.expect kind).run c).2 = c.skip 1 := by
    simp only [run, Cursor.expect]
    split <;> exact Cursor.advance_eq_skip c
  refine ⟨hnext, by omega, fun _ _ => Nat.le_refl 1, fun _ _ hk => hk.elim, ?_⟩
  intro e he
  simp only [run, Cursor.expect] at he
  split at he
  · cases he
  · cases he
    exact ⟨0, .inr rfl, rfl⟩

/-- From every cursor, every call goes forward by some number of tokens. -/
theorem exists_passes (k : Call) (c : Cursor) : ∃ n, k.Passes c n := by
  have hfails := failures c
  cases k with
  | peek => exact ⟨0, passes_of_ok rfl (Nat.zero_le _) (Nat.le_refl 0) id⟩
  | next =>
      refine ⟨1, passes_of_ok (a := c.next) ?_ (by omega) (Nat.le_refl 1) id⟩
      rw [run, Cursor.advance_eq_skip]
  | expect kind => exact ⟨1, passes_expect kind c⟩
  | pastNewlines =>
      have hle : c.newlines ≤ c.ahead.length := (List.takeWhile_sublist _).length_le
      exact ⟨c.newlines, passes_of_ok rfl (by omega) (Nat.zero_le _) id⟩
  | value =>
      refine exists_passes_of_reading (r := c.value.reading) rfl
        (P := fun us => ∃ v, Derives .value us v) ?_ ?_ hfails.value
      · intro v next hread
        exact (value_reading_iff.mp hread).imp fun us hus => ⟨v, hus⟩
      · intro us hus
        rcases hus with ⟨v, hv⟩
        rcases hv.value_head with ⟨t, ts, rfl, -⟩
        exact Nat.succ_pos _
  | items =>
      refine exists_passes_of_reading (r := c.items.reading) rfl (P := fun _ => True) ?_
        (fun _ _ => Nat.zero_le _) hfails.items
      intro vs next hread
      exact (items_reading_iff.mp hread).imp fun _ _ => trivial
  | statement m =>
      refine exists_passes_of_reading (r := (c.statement m).reading) rfl
        (P := fun us => ∃ s, Derives (.statement m) us s) ?_ ?_ (hfails.statement m)
      · intro s next hread
        exact (statement_reading_iff.mp hread).imp fun us hus => ⟨s, hus⟩
      · intro us hus
        rcases hus with ⟨s, hs⟩
        rcases hs.statement_head with ⟨t, ts, name, rfl, -⟩
        exact Nat.succ_pos _
  | body m nested =>
      refine exists_passes_of_reading (r := (c.body m nested).reading) rfl
        (P := fun _ => True) ?_ (fun _ _ => Nat.zero_le _) (hfails.body m nested)
      intro ss next hread
      exact ((sound c).body m nested ss next hread).1.imp fun _ _ => trivial

/-! ## Calls behind other tokens -/

/-- What a reader gives elsewhere, where the lines stay as they are. -/
theorem answer_shift {α : Type} {f : α → Answer} {n i j : Nat} {o : Outcome i α}
    {o' : Outcome j α} (h : o'.reading = o.reading.relocate id n id) :
    o'.answer f = ((o.answer f).1, (o.answer f).2.shift n) := by
  rw [Reading.relocate_id] at h
  have hresult : o'.result = o.result := congrArg Prod.fst h
  have hcursor : o'.cursor = o.cursor.shift n := congrArg Prod.snd h
  rw [Outcome.answer, hresult, hcursor]
  rfl

/-- A call sees the tokens ahead, and not how many have been passed. -/
theorem run_shift (k : Call) (n : Nat) (c : Cursor) :
    k.run (c.shift n) = ((k.run c).1, (k.run c).2.shift n) := by
  rcases relocates id n c with ⟨hvalue, hitems, hstatement, hbody⟩
  simp only [Value.mapLines_eq_id, Mode.mapLines_eq_id, List.map_id_fun]
    at hvalue hitems hstatement hbody
  have hadvance : (c.shift n).advance = c.advance.shift n := by
    rw [Cursor.advance_eq_skip, Cursor.advance_eq_skip, Cursor.skip_shift]
  cases k with
  | peek => rfl
  | next =>
      rw [run, hadvance]
      rfl
  | expect kind =>
      have hkind : (c.shift n).kind = c.kind := rfl
      simp only [run, Cursor.expect, hkind, hadvance]
      split <;> rfl
  | pastNewlines => exact congrArg (Prod.mk _) (Cursor.skip_shift c.newlines n c)
  | value =>
      rw [← Cursor.relocate_id n c]
      exact answer_shift hvalue
  | items =>
      rw [← Cursor.relocate_id n c]
      exact answer_shift hitems
  | statement m =>
      rw [← Cursor.relocate_id n c]
      exact answer_shift (hstatement m)
  | body m nested =>
      rw [← Cursor.relocate_id n c]
      exact answer_shift (hbody m nested)

/-- A call goes equally far behind more tokens. -/
theorem Passes.shift {k : Call} {c : Cursor} {i : Nat} (h : k.Passes c i) (n : Nat) :
    k.Passes (c.shift n) i where
  cursor_eq := by rw [run_shift, h.cursor_eq, Cursor.skip_shift]
  le := h.le
  least_le := by
    rw [run_shift]
    exact h.least_le
  le_of_reads := by
    rw [run_shift]
    exact h.le_of_reads
  blames := by
    rw [run_shift]
    intro e he
    rcases h.blames e he with ⟨j, hj, hline⟩
    refine ⟨j, hj, ?_⟩
    rw [hline, Cursor.skip_shift]
    rfl

/-- Calls from cursors in front of the same tokens and the same end give the same and go equally
far. -/
theorem run_congr (k : Call) {c d : Cursor} (hahead : c.ahead = d.ahead)
    (hend : c.endLine = d.endLine) :
    (k.run c).1 = (k.run d).1 ∧ ∃ n, k.Passes c n ∧ k.Passes d n := by
  -- Both are the cursor that has passed nothing yet, behind more tokens.
  have hc : (Cursor.mk c.ahead c.endLine 0).shift c.position = c := by simp [Cursor.shift]
  have hd : (Cursor.mk c.ahead c.endLine 0).shift d.position = d := by
    simp [Cursor.shift, hahead, hend]
  rcases exists_passes k (Cursor.mk c.ahead c.endLine 0) with ⟨n, hn⟩
  have hpasses := hn.shift c.position
  have hpasses' := hn.shift d.position
  rw [hc] at hpasses
  rw [hd] at hpasses'
  refine ⟨?_, n, hpasses, hpasses'⟩
  rw [← hc, ← hd, run_shift, run_shift]

end Call

/-! ## Sessions -/

namespace Session

variable {s s' : Session} {k : Call} {p p' : Nat}

/-- A session with its cursor behind a number of tokens; behind the last one the end is
passed. -/
def goTo (s : Session) (p : Nat) : Session :=
  ⟨s.tokens, s.tokens.start.skip p⟩

/-- The number of tokens of a session, which is the place of its end. -/
def size (s : Session) : Nat :=
  s.tokens.tokens.length

@[simp] theorem tokens_goTo (s : Session) (p : Nat) : (s.goTo p).tokens = s.tokens := rfl

@[simp] theorem cursor_goTo (s : Session) (p : Nat) :
    (s.goTo p).cursor = s.tokens.start.skip p := rfl

@[simp] theorem goTo_goTo (s : Session) (p q : Nat) : (s.goTo p).goTo q = s.goTo q := rfl

/-- The tokens ahead at a place. -/
theorem ahead_goTo (s : Session) (p : Nat) :
    (s.goTo p).cursor.ahead = s.tokens.tokens.drop p := rfl

/-- A session on a text is at the start of the tokens of the text. -/
theorem exists_tokens_of_ofText {t : Text} (h : ofText t = .ok s) :
    ∃ ts, Ocl.tokens t = .ok ts ∧ s = ⟨ts, ts.start⟩ := by
  unfold ofText at h
  cases hts : Ocl.tokens t with
  | error e =>
      rw [hts] at h
      cases h
  | ok ts =>
      rw [hts] at h
      cases h
      exact ⟨ts, rfl, rfl⟩

/-- A call ends at the place that is as many tokens on as the call passes. -/
theorem call_goTo {n : Nat} (h : k.Passes (s.goTo p).cursor n) :
    ((s.goTo p).call k).2 = s.goTo (p + n) := by
  rw [call, h.cursor_eq, cursor_goTo, Cursor.skip_skip]
  rfl

/-- What a call does from one place of a session to another.  It goes forward, and behind the end
it goes one place on at most.  If it reads a value or a statement, it goes on and ends at the end
at the latest, and so does one that reads the rest of a list or of a body and starts no later.  If
it fails, the line that is blamed is that of the place where it stops or of the one before. -/
structure Moves (s : Session) (k : Call) (p q : Nat) : Prop where
  call_eq : ((s.goTo p).call k).2 = s.goTo q
  le : p ≤ q
  le_behind : q ≤ max p s.size + 1
  lt_of_ok : ∀ a, ((s.goTo p).call k).1 = .ok a → k.ReadsOne → p < q ∧ q ≤ s.size
  le_size_of_ok : ∀ a, ((s.goTo p).call k).1 = .ok a → k.Reads → p ≤ s.size → q ≤ s.size
  line_eq : ∀ e, ((s.goTo p).call k).1 = .error e →
    ∃ i, (i = q ∨ i + 1 = q) ∧ e.line = (s.goTo i).cursor.line

/-- A call moves as far as it passes tokens. -/
theorem moves_of_passes {n : Nat} (h : k.Passes (s.goTo p).cursor n) : s.Moves k p (p + n) := by
  have hlength : (s.goTo p).cursor.ahead.length = s.size - p := by
    rw [ahead_goTo, List.length_drop, size]
  have hle := h.le
  refine ⟨call_goTo h, by omega, by omega, ?_, ?_, ?_⟩
  · intro a ha hone
    have hleast := h.least_le a ha
    have hreads := h.le_of_reads a ha hone.reads
    rw [hone.least_eq] at hleast
    omega
  · intro a ha hreads hp
    have hend := h.le_of_reads a ha hreads
    omega
  · intro e he
    rcases h.blames e he with ⟨i, hi, hline⟩
    refine ⟨p + i, by omega, ?_⟩
    rw [hline, cursor_goTo, cursor_goTo, Cursor.skip_skip]

/-- From every place, every call moves to some place. -/
theorem exists_moves (s : Session) (k : Call) (p : Nat) : ∃ q, s.Moves k p q := by
  rcases Call.exists_passes k (s.goTo p).cursor with ⟨n, hn⟩
  exact ⟨p + n, moves_of_passes hn⟩

/-- What a call gives, and how far it goes, is in the tokens from its place on. -/
theorem call_congr (k : Call) (hahead : s.tokens.tokens.drop p = s'.tokens.tokens.drop p')
    (hend : s.tokens.endLine = s'.tokens.endLine) :
    ((s.goTo p).call k).1 = ((s'.goTo p').call k).1 ∧
      ∃ n, ((s.goTo p).call k).2 = s.goTo (p + n) ∧
        ((s'.goTo p').call k).2 = s'.goTo (p' + n) := by
  rcases Call.run_congr (c := (s.goTo p).cursor) (d := (s'.goTo p').cursor) k hahead hend with
    ⟨hresult, n, hn, hn'⟩
  exact ⟨hresult, n, call_goTo hn, call_goTo hn'⟩

/-- Many calls go forward, and each of them gives an answer. -/
theorem exists_calls (s : Session) (ks : List Call) (p : Nat) :
    ∃ q, p ≤ q ∧ ((s.goTo p).calls ks).2 = s.goTo q ∧
      ((s.goTo p).calls ks).1.length = ks.length := by
  induction ks generalizing p with
  | nil => exact ⟨p, Nat.le_refl p, rfl, rfl⟩
  | cons k ks ih =>
      rcases exists_moves s k p with ⟨i, hmoves⟩
      rcases ih i with ⟨q, hiq, hcalls, hlength⟩
      refine ⟨q, Nat.le_trans hmoves.le hiq, ?_, ?_⟩
      · rw [calls, hmoves.call_eq, hcalls]
      · rw [calls, hmoves.call_eq, List.length_cons, hlength, List.length_cons]

/-- The whole document is read from the start, whatever calls have been made. -/
theorem document_calls (s : Session) (ks : List Call) : (s.calls ks).2.document = s.document := by
  rw [document, document, tokens_calls]

/-- The whole document of a session on a text is the one that the text spells. -/
theorem document_of_ofText {t : Text} (h : ofText t = .ok s) :
    s.document.1 = Document.read t := by
  rcases exists_tokens_of_ofText h with ⟨ts, hts, rfl⟩
  rw [Document.read, hts]
  rfl

/-- A session on a text behaves from every place, also behind its end.  Every call moves forward;
what it gives and how far it goes is in the tokens ahead; and whatever calls are made, each of them
gives an answer and the document is read behind them as if there had been none. -/
theorem calls_anywhere {t : Text} (h : ofText t = .ok s) :
    s.goTo 0 = s ∧
      (∀ k p, ∃ q, s.Moves k p q) ∧
      (∀ (k : Call) (s' : Session) (p p' : Nat),
        s.tokens.tokens.drop p = s'.tokens.tokens.drop p' →
        s.tokens.endLine = s'.tokens.endLine →
        ((s.goTo p).call k).1 = ((s'.goTo p').call k).1 ∧
          ∃ n, ((s.goTo p).call k).2 = s.goTo (p + n) ∧
            ((s'.goTo p').call k).2 = s'.goTo (p' + n)) ∧
      ∀ (ks : List Call) (p : Nat),
        (∃ q, p ≤ q ∧ ((s.goTo p).calls ks).2 = s.goTo q ∧
          ((s.goTo p).calls ks).1.length = ks.length) ∧
        ((s.goTo p).calls ks).2.document = s.document ∧
        s.document.1 = Document.read t := by
  refine ⟨?_, exists_moves s, fun k s' p p' => call_congr k, ?_⟩
  · rcases exists_tokens_of_ofText h with ⟨ts, -, rfl⟩
    rfl
  · intro ks p
    exact ⟨exists_calls s ks p, document_calls (s.goTo p) ks, document_of_ofText h⟩

/-- A list whose items nothing separates. -/
def unseparated : Text := "k = [1 2]".toList

/-- The session at the start of a list whose items nothing separates. -/
def unseparatedSession : Session :=
  let ts : TokenList := ⟨[⟨.name ['k'], 1⟩, ⟨.mark .equals, 1⟩, ⟨.mark .bracketOpen, 1⟩,
    ⟨.number ['1'], 1⟩, ⟨.number ['2'], 1⟩, ⟨.mark .bracketClose, 1⟩], 1⟩
  ⟨ts, ts.start⟩

/-- The list is not read, the value where reading stopped is, and then the bracket behind it and
twice the end are passed; the document is not read behind that, for the same reason as in front. -/
theorem calls_anywhere_unseparated :
    ofText unseparated = .ok unseparatedSession ∧
      ((unseparatedSession.goTo 2).calls [.value, .value, .next, .next, .next]).2 =
        unseparatedSession.goTo 8 ∧
      ((unseparatedSession.goTo 2).calls [.value, .value, .next, .next, .next]).2.document.1 =
        .error ⟨1, .commaExpected ['2']⟩ := by
  have htext : ofText unseparated = .ok unseparatedSession := by cbv
  have hplace : ((unseparatedSession.goTo 2).calls [.value, .value, .next, .next, .next]).2 =
      unseparatedSession.goTo 8 := by cbv
  have hread : Document.read unseparated = .error ⟨1, .commaExpected ['2']⟩ := by cbv
  rcases calls_anywhere htext with ⟨-, -, -, hruns⟩
  rcases hruns [.value, .value, .next, .next, .next] 2 with ⟨-, hdocument, hsame⟩
  refine ⟨htext, hplace, ?_⟩
  rw [hdocument, hsame, hread]

end Session

end Ocl

end DeployGate
