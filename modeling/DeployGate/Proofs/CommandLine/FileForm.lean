import DeployGate.CommandLine.Gate
import DeployGate.Proofs.Text.Ascii

/-!
# Forms of a file

A text can be stored with or without a byte order mark in front, and with any of three line ends.
Whoever reads the file, as a document or as rules, cannot tell the forms apart: the text that is
read is the same, and so are the faults of bytes that spell no text, with their places.

Main results:

- Definition `Text.withLineEnds`: a text with a line end for each of its line feeds.
- Definition `Files.ReadAlike`: bytes of which all readers of a file see the same.
- Theorem `Text.normalizeLineEnds_withLineEnds`: the line ends of a text are read as line feeds.
- Theorem `Gate.file_form_unseen`: byte order marks and line ends are not seen.
-/

namespace DeployGate

/-! ## Line ends -/

namespace Text

variable {t e : Text} {c : Char}

/-- A text with a line end for each of its line feeds. -/
def withLineEnds (t e : Text) : Text :=
  t.flatMap fun c => if c = '\n' then e else [c]

/-- A line feed becomes a line end. -/
theorem withLineEnds_lineFeed_cons (t e : Text) :
    withLineEnds ('\n' :: t) e = e ++ t.withLineEnds e := rfl

/-- Other characters stay as they are. -/
theorem withLineEnds_cons_of_ne (hc : c ≠ '\n') (t e : Text) :
    withLineEnds (c :: t) e = c :: t.withLineEnds e := by
  simp [withLineEnds, hc]

/-- With carriage returns alone a text has no line feeds. -/
theorem line_feed_not_mem_withLineEnds (t : Text) : '\n' ∉ t.withLineEnds ['\r'] := by
  induction t with
  | nil => simp [withLineEnds]
  | cons c t ih =>
      by_cases hc : c = '\n'
      · subst hc
        simpa [withLineEnds_lineFeed_cons] using ih
      · rw [withLineEnds_cons_of_ne hc]
        simpa [Ne.symm hc] using ih

/-- A carriage return that no line feed follows is read as a line feed. -/
theorem normalizeLineEnds_return_cons (h : t.head? ≠ some '\n') :
    normalizeLineEnds ('\r' :: t) = '\n' :: normalizeLineEnds t := by
  rw [normalizeLineEnds]
  rintro u rfl
  exact h rfl

/-- Other characters are read as they are. -/
theorem normalizeLineEnds_cons_of_ne (hc : c ≠ '\r') (t : Text) :
    normalizeLineEnds (c :: t) = c :: normalizeLineEnds t := by
  rw [normalizeLineEnds]
  · rintro u rfl
    contradiction
  · exact hc

/-- Whatever the line ends of a text are, they are read as line feeds. -/
theorem normalizeLineEnds_withLineEnds (he : e = ['\r', '\n'] ∨ e = ['\r']) (ht : '\r' ∉ t) :
    (t.withLineEnds e).normalizeLineEnds = t := by
  induction t with
  | nil => rfl
  | cons c t ih =>
      rcases not_or.mp (mt List.mem_cons.mpr ht) with ⟨hc, htail⟩
      by_cases hfeed : c = '\n'
      · subst hfeed
        rw [withLineEnds_lineFeed_cons]
        rcases he with rfl | rfl
        · exact congrArg _ (ih htail)
        · have hhead : (withLineEnds t ['\r']).head? ≠ some '\n' := fun h =>
            line_feed_not_mem_withLineEnds t (List.mem_of_mem_head? h)
          rw [List.singleton_append, normalizeLineEnds_return_cons hhead, ih htail]
      · rw [withLineEnds_cons_of_ne hfeed, normalizeLineEnds_cons_of_ne (Ne.symm hc), ih htail]

end Text

/-! ## Byte order marks -/

namespace Utf8

/-- Bytes that neither start with a byte order mark nor end within one are read from the first
one on. -/
theorem withoutMark_of_not_isPrefix {bytes : List UInt8} (h : ¬byteOrderMark <+: bytes)
    (hone : bytes ≠ [0xEF]) (htwo : bytes ≠ [0xEF, 0xBB]) : withoutMark bytes = bytes := by
  rw [withoutMark, if_neg (mt List.isPrefixOf_iff_prefix.mp h)]
  split
  · next hwithin =>
    rcases isPrefix_mark_iff.mp (List.isPrefixOf_iff_prefix.mp hwithin) with
      hnil | hinits | hinits | hmark
    · exact hnil.symm
    · contradiction
    · contradiction
    · rw [hmark] at h
      exact absurd List.prefix_rfl h
  · rfl

/-- A text loses a byte order mark whatever its line ends are. -/
theorem textWithoutMark_withLineEnds {e : Text} (he : e = ['\r', '\n'] ∨ e = ['\r'])
    (t : Text) : textWithoutMark (t.withLineEnds e) = (textWithoutMark t).withLineEnds e := by
  cases t with
  | nil => rfl
  | cons c t =>
      by_cases hfeed : c = '\n'
      · subst hfeed
        rcases he with rfl | rfl <;> rfl
      · rw [Text.withLineEnds_cons_of_ne hfeed]
        by_cases hmark : c = '\ufeff'
        · subst hmark
          rfl
        · rw [textWithoutMark_of_head?_ne (by simpa using hmark),
            textWithoutMark_of_head?_ne (by simpa using hmark), Text.withLineEnds_cons_of_ne hfeed]

/-- A text without a byte order mark holds no character that it did not hold. -/
theorem textWithoutMark_subset (t : Text) : textWithoutMark t ⊆ t := by
  unfold textWithoutMark
  split
  · exact List.subset_cons_self ..
  · exact List.Subset.refl _

end Utf8

/-! ## Files -/

namespace Files

variable {path : Path} {bytes bytes' : List UInt8}

/-- Files of which one path reads as some bytes. -/
def write (files : Files) (path : Path) (bytes : List UInt8) : Files where
  look := Function.update files.look path (.ok ())
  read := Function.update files.read path (.ok bytes)
  look_of_read := by
    intro p bs h
    by_cases hp : p = path
    · rw [hp, Function.update_self]
    · rw [Function.update_of_ne hp] at h ⊢
      exact files.look_of_read p bs h

/-- Bytes of which all readers of a file see the same: the text in it, the value that it is loaded
as or the fault that it has, whatever the formats make of a text, and what comes of checking
it. -/
structure ReadAlike (path : Path) (bytes bytes' : List UInt8) : Prop where
  text (files : Files) : (files.write path bytes).text path = (files.write path bytes').text path
  datum (formats : Formats) (files : Files) :
    Datum.load formats (files.write path bytes) path =
      Datum.load formats (files.write path bytes') path
  check (files : Files) (rules : Rules) :
    Gate.checkFile (files.write path bytes) path rules =
      Gate.checkFile (files.write path bytes') path rules

/-- The text of a path that reads as some bytes. -/
theorem text_write (files : Files) (path : Path) (bytes : List UInt8) :
    (files.write path bytes).text path =
      if path.hasNul then .error .nulInPath else decode (Utf8.withoutMark bytes) := by
  by_cases hnul : path.hasNul = true
  · rw [text, Files.bytes, if_pos hnul, if_pos hnul]
    rfl
  · rw [text, Files.bytes, if_neg hnul, if_neg hnul, write]
    dsimp only
    rw [Function.update_self]
    rfl

/-- Bytes that spell the same text, or have the same fault, behind their byte order marks are read
alike. -/
theorem ReadAlike.of_decode
    (h : decode (Utf8.withoutMark bytes) = decode (Utf8.withoutMark bytes')) (path : Path) :
    ReadAlike path bytes bytes' := by
  have htext (files : Files) :
      (files.write path bytes).text path = (files.write path bytes').text path := by
    rw [text_write, text_write, h]
  refine ⟨htext, fun formats files => ?_, fun files rules => ?_⟩
  · rw [Datum.load, Datum.load, htext]
  · rw [Gate.checkFile, Gate.checkFile, htext]

/-- The bytes of a text spell it without a byte order mark, with line feeds for its line ends. -/
theorem decode_withoutMark_encode (t : Text) :
    decode (Utf8.withoutMark (Utf8.encode t)) =
      .ok (Utf8.textWithoutMark t).normalizeLineEnds := by
  rw [Utf8.withoutMark_encode, decode, Utf8.decode_encode]

end Files

namespace Gate

open Files

/-- The form of a file is not seen, whatever the formats are that its text is read in.  Bytes that
neither start with a byte order mark nor end within one are read alike with a mark in front, whether
they spell a text or not; and the bytes of a text without carriage returns are read alike with
another line end for each line feed. -/
theorem file_form_unseen (path : Path) :
    (∀ bytes, ¬Utf8.byteOrderMark <+: bytes → bytes ≠ [0xEF] → bytes ≠ [0xEF, 0xBB] →
      ReadAlike path (Utf8.byteOrderMark ++ bytes) bytes) ∧
    (∀ t e : Text, '\r' ∉ t → e = ['\r', '\n'] ∨ e = ['\r'] →
      ReadAlike path (Utf8.encode (t.withLineEnds e)) (Utf8.encode t)) := by
  constructor
  · intro bytes hmark hone htwo
    have hsame := Utf8.withoutMark_of_not_isPrefix hmark hone htwo
    exact .of_decode (by rw [withoutMark_mark hsame]) path
  · intro t e ht he
    have hreturn : '\r' ∉ Utf8.textWithoutMark t := fun hmem =>
      ht (Utf8.textWithoutMark_subset t hmem)
    apply ReadAlike.of_decode
    rw [decode_withoutMark_encode, decode_withoutMark_encode, Utf8.textWithoutMark_withLineEnds he,
      Text.normalizeLineEnds_withLineEnds he hreturn, Text.normalizeLineEnds_of_not_mem hreturn]

/-- Bytes that are no UTF-8, and a text with a heredoc and a comment, are read alike in another
form. -/
theorem file_form_unseen_heredoc :
    ReadAlike ⟨0, [['f']]⟩ (Utf8.byteOrderMark ++ [0x61, 0xFF]) [0x61, 0xFF] ∧
      ReadAlike ⟨0, [['f']]⟩
        (Utf8.encode (Text.withLineEnds "a=<<-E\n x\n\nE\n# é".toList ['\r']))
        (Utf8.encode "a=<<-E\n x\n\nE\n# é".toList) :=
  ⟨(file_form_unseen _).1 _ (by decide) (by decide) (by decide),
    (file_form_unseen _).2 _ _ (by decide) (.inr rfl)⟩

end Gate

end DeployGate
