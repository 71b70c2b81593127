import DeployGate.Ocl.Lexeme

/-!
# Scans

A scan cuts a text into lexemes from its start, as far as it goes.

Main results:

- `Scan.text_append_remainder` shows that a scan loses nothing.
- `Scan.remainder_eq_nil_iff` says that it reaches the end of the text exactly if it
  meets no fault.
-/

namespace DeployGate

namespace Ocl

/-- A text cut into lexemes as far as it goes, and why it goes no further. -/
structure Scan where
  lexemes : List Lexeme
  fault : Option Lexeme.Fault
  deriving DecidableEq, Repr

/-- Cut a text into lexemes from its start. -/
def Scan.of : Text → Scan
  | [] => ⟨[], none⟩
  | c :: t =>
    match Lexeme.read c t with
    | .ok l =>
      let s := Scan.of (t.drop (l.text.length - 1))
      ⟨l :: s.lexemes, s.fault⟩
    | .error f => ⟨[], some f⟩
  termination_by t => t.length
  decreasing_by
    rw [List.length_drop, List.length_cons]
    omega

namespace Scan

/-- What a scan of a text leaves unread. -/
def remainder : Text → Text
  | [] => []
  | c :: t =>
    match Lexeme.read c t with
    | .ok l => remainder (t.drop (l.text.length - 1))
    | .error _ => c :: t
  termination_by t => t.length
  decreasing_by
    rw [List.length_drop, List.length_cons]
    omega

/-- The lexemes of a text and what its scan leaves unread are the text. -/
theorem text_append_remainder (t : Text) :
    (Scan.of t).lexemes.flatMap Lexeme.text ++ remainder t = t := by
  fun_induction Scan.of t with
  | case1 => simp [remainder]
  | case2 c t l hl s ih =>
    rw [remainder, hl]
    simp only [List.flatMap_cons, List.append_assoc]
    rw [ih, Lexeme.text_append_of_read hl]
  | case3 c t f hf => simp [remainder, hf]

/-- A scan leaves something unread exactly if it meets a fault. -/
theorem remainder_eq_nil_iff (t : Text) : remainder t = [] ↔ (Scan.of t).fault = none := by
  fun_induction Scan.of t with
  | case1 => simp [remainder]
  | case2 c t l hl s ih =>
    rw [remainder, hl]
    exact ih
  | case3 c t f hf => simp [remainder, hf]

end Scan

end Ocl

end DeployGate
