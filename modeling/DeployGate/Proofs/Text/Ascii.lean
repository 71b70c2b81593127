import DeployGate.Files.Basic
import DeployGate.Proofs.Text.Encoding

/-!
# Plain files

A file that spells an ASCII text byte by byte, without carriage returns, reads as that text.

Main results:

- Theorem `Utf8.decode_ascii`: the bytes of an ASCII text spell it.
- Theorem `Files.text_of_ascii`: a path that reads as the bytes of an ASCII text has that text.
- Definition `Files.ofText`: files of which every path reads as one ASCII text.
-/

namespace DeployGate

namespace Utf8

/-- The bytes of an ASCII text, one for each character. -/
def ascii (t : Text) : List UInt8 :=
  t.map fun c => UInt8.ofNat c.toNat

/-- An ASCII character is spelled by one byte. -/
theorem encode_eq_ascii {t : Text} (h : ∀ c ∈ t, c.toNat < 128) : encode t = ascii t := by
  induction t with
  | nil => rfl
  | cons c t ih =>
      have hc : c.val.toNat ≤ 127 := Nat.le_of_lt_succ (h c List.mem_cons_self)
      have hchar : String.utf8EncodeChar c = [UInt8.ofNat c.toNat] := by
        rw [String.utf8EncodeChar, if_pos hc]
        rfl
      have htail := ih fun d hd => h d (List.mem_cons_of_mem c hd)
      rw [encode, List.flatMap_cons, ← encode, htail, hchar]
      rfl

/-- The bytes of an ASCII text spell it. -/
theorem decode_ascii {t : Text} (h : ∀ c ∈ t, c.toNat < 128) : decode (ascii t) = .ok t := by
  rw [← encode_eq_ascii h, decode_encode]

/-- No byte order mark is in front of an ASCII text. -/
theorem withoutMark_ascii {t : Text} (h : ∀ c ∈ t, c.toNat < 128) :
    withoutMark (ascii t) = ascii t := by
  have hfirst : t.head? ≠ some '\ufeff' := by
    intro hhead
    exact absurd (h _ (List.mem_of_mem_head? hhead)) (by decide)
  rw [← encode_eq_ascii h, withoutMark_encode, textWithoutMark_of_head?_ne hfirst]

end Utf8

/-- A text without carriage returns has its line ends as they are. -/
theorem Text.normalizeLineEnds_of_not_mem {t : Text} (h : '\r' ∉ t) : t.normalizeLineEnds = t := by
  fun_induction normalizeLineEnds t with
  | case1 => rfl
  | case2 t ih => simp at h
  | case3 t hno ih => simp at h
  | case4 c t hno hno' ih => rw [ih (by simp_all)]

/-- A path that reads as the bytes of an ASCII text without carriage returns has that text. -/
theorem Files.text_of_ascii {files : Files} {path : Path} {t : Text} (hnul : path.hasNul = false)
    (hread : files.read path = .ok (Utf8.ascii t)) (h : ∀ c ∈ t, c.toNat < 128 ∧ c ≠ '\r') :
    files.text path = .ok t := by
  have hascii : ∀ c ∈ t, c.toNat < 128 := fun c hc => (h c hc).1
  have hreturn : '\r' ∉ t := fun hmem => (h '\r' hmem).2 rfl
  simp [text, bytes, hnul, hread, Except.mapError, bind, Except.bind, decode,
    Utf8.withoutMark_ascii hascii, Utf8.decode_ascii hascii,
    Text.normalizeLineEnds_of_not_mem hreturn]

/-- The characters of a text are ASCII ones other than the carriage return if a look at each of
them says so. -/
theorem Text.plain_of_all {t : Text} (h : (t.all fun c => c.toNat < 128 && c != '\r') = true) :
    ∀ c ∈ t, c.toNat < 128 ∧ c ≠ '\r' := by
  simpa using h

/-- Files of which every path reads as the bytes of an ASCII text. -/
def Files.ofText (t : Text) : Files :=
  .ofReads (fun _ => .ok (Utf8.ascii t)) fun _ => true

/-- Every path has the text that all of them read as. -/
theorem Files.text_ofText {path : Path} {t : Text} (hnul : path.hasNul = false)
    (h : ∀ c ∈ t, c.toNat < 128 ∧ c ≠ '\r') : (ofText t).text path = .ok t :=
  text_of_ascii hnul rfl h

end DeployGate
