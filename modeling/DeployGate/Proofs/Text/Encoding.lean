import Mathlib
import DeployGate.Text.Utf8

/-!
# The bytes of a text

Every text is spelled by bytes, up to four for each character, and the decoder reads the text back
from them.  A byte order mark is the bytes of a character, so a text whose bytes start with one
starts with that character.

Main results:

- Definition `Utf8.encode`: the bytes that spell a text.
- Theorem `Utf8.decodeAt_sequence`: what a first byte and those that continue it spell.
- Theorem `Utf8.decode_encode`: the bytes of a text spell it.
- Theorem `Utf8.withoutMark_encode`: bytes lose a byte order mark as the text does.
-/

namespace DeployGate

namespace Utf8

/-- The bytes that spell a text. -/
def encode (t : Text) : List UInt8 :=
  t.flatMap String.utf8EncodeChar

variable {b c d : UInt8} {bs rest : List UInt8} {n offset : Nat}

/-! ## Bytes by their numbers -/

/-- A number below 256 is that of a byte. -/
theorem toNat_ofNat_of_lt (h : n < 256) : (UInt8.ofNat n).toNat = n := by
  rw [UInt8.toNat_ofNat', Nat.mod_eq_of_lt h]

/-- How many bytes follow a first byte of a sequence of more than one. -/
theorem followers?_eq_some (h : 194 ≤ b.toNat ∧ b.toNat ≤ 223 ∧ n = 1 ∨
    224 ≤ b.toNat ∧ b.toNat ≤ 239 ∧ n = 2 ∨ 240 ≤ b.toNat ∧ b.toNat ≤ 244 ∧ n = 3) :
    followers? b = some n := by
  simp only [followers?, UInt8.le_iff_toNat_le, Bool.and_eq_true, decide_eq_true_eq,
    UInt8.reduceToNat]
  rcases h with ⟨hlow, hhigh, rfl⟩ | ⟨hlow, hhigh, rfl⟩ | ⟨hlow, hhigh, rfl⟩ <;>
    split_ifs <;> first | rfl | omega

/-- A byte continues a sequence exactly if it is between 128 and 191. -/
theorem isContinuation_iff : isContinuation b = true ↔ 128 ≤ b.toNat ∧ b.toNat ≤ 191 := by
  simp [isContinuation, UInt8.le_iff_toNat_le]

/-- What may stand behind a first byte continues the sequence, and behind four of them it is
bounded further. -/
theorem isSecond_iff : isSecond b c = true ↔ (128 ≤ c.toNat ∧ c.toNat ≤ 191) ∧
    (b.toNat = 224 → 160 ≤ c.toNat) ∧ (b.toNat = 237 → c.toNat ≤ 159) ∧
    (b.toNat = 240 → 144 ≤ c.toNat) ∧ (b.toNat = 244 → c.toNat ≤ 143) := by
  simp only [isSecond, Bool.and_eq_true, Bool.or_eq_true, isContinuation_iff, bne_iff_ne, ne_eq,
    ← UInt8.toNat_inj, UInt8.le_iff_toNat_le, decide_eq_true_eq, UInt8.reduceToNat,
    ← imp_iff_not_or, and_assoc]

/-- Bytes that continue a sequence are read up to its end. -/
theorem continuations_of_all {ds : List UInt8} (h : ∀ d ∈ ds, isContinuation d = true)
    (rest : List UInt8) :
    continuations isContinuation ds.length (ds ++ rest) = (ds, .inr rest) := by
  induction ds with
  | nil => rfl
  | cons d ds ih =>
      have hrest := ih fun e he => h e (List.mem_cons_of_mem d he)
      simp [continuations, h d List.mem_cons_self, hrest]

/-- A sequence of a first byte, a second one that may follow it, and further ones spells one
character. -/
theorem decodeAt_sequence (ds : List UInt8) (hlead : followers? b = some (ds.length + 1))
    (hc : isSecond b c = true) (hds : ∀ d ∈ ds, isContinuation d = true) (offset : Nat)
    (rest : List UInt8) :
    decodeAt offset (b :: c :: ds ++ rest) =
      (decodeAt (offset + 1 + (c :: ds).length) rest).map
        (Char.ofNat ((c :: ds).foldl appendBits (leadBits b (ds.length + 1))) :: ·) := by
  have hread : continuations (isSecond b) (ds.length + 1) (c :: (ds ++ rest)) =
      (c :: ds, .inr rest) := by
    rw [continuations, if_pos hc, continuations_of_all hds]
  rw [List.cons_append, List.cons_append, decodeAt, hlead]
  simp only
  split
  · next heq =>
    rw [hread] at heq
    simp at heq
  · next heq =>
    rw [hread] at heq
    injection heq with hbytes hrest
    injection hrest with hrest
    subst hbytes hrest
    cases decodeAt (offset + 1 + (c :: ds).length) rest <;> rfl

variable {v : Nat}

/-- One byte spells a character of seven bits. -/
theorem decodeAt_one (hb : b.toNat = v) (hhigh : v ≤ 127) (offset : Nat) (rest : List UInt8) :
    decodeAt offset (b :: rest) = (decodeAt (offset + 1) rest).map (Char.ofNat v :: ·) := by
  have hlead : followers? b = some 0 := by
    have hle : b ≤ 0x7F := by
      rw [UInt8.le_iff_toNat_le, hb]
      exact hhigh
    rw [followers?, if_pos hle]
  rw [decodeAt, hlead]
  simp only [continuations, List.length_nil, Nat.add_zero, List.foldl_nil, leadBits, if_pos, hb]
  cases decodeAt (offset + 1) rest <;> rfl

/-- Two bytes spell a character of eleven bits. -/
theorem decodeAt_two (hb : b.toNat = v / 64 + 192) (hc : c.toNat = v % 64 + 128)
    (hlow : 128 ≤ v) (hhigh : v ≤ 2047) (offset : Nat) (rest : List UInt8) :
    decodeAt offset (b :: c :: rest) =
      (decodeAt (offset + 2) rest).map (Char.ofNat v :: ·) := by
  have hlead : followers? b = some 1 := followers?_eq_some (by omega)
  have hsecond : isSecond b c = true := isSecond_iff.mpr (by omega)
  have hvalue : [c].foldl appendBits (leadBits b 1) = v := by
    have hbits : leadBits b 1 = v / 64 := by
      change b.toNat % 32 = v / 64
      omega
    rw [List.foldl_cons, List.foldl_nil, appendBits, hbits, hc]
    omega
  have hsequence := decodeAt_sequence [] hlead hsecond (by simp) offset rest
  rwa [List.length_nil, Nat.zero_add, hvalue] at hsequence

/-- Three bytes spell a character of sixteen bits, which is no surrogate. -/
theorem decodeAt_three (hb : b.toNat = v / 4096 + 224) (hc : c.toNat = v / 64 % 64 + 128)
    (hd : d.toNat = v % 64 + 128) (hlow : 2048 ≤ v) (hhigh : v ≤ 65535)
    (hvalid : v < 55296 ∨ 57343 < v) (offset : Nat) (rest : List UInt8) :
    decodeAt offset (b :: c :: d :: rest) =
      (decodeAt (offset + 3) rest).map (Char.ofNat v :: ·) := by
  have hlead : followers? b = some 2 := followers?_eq_some (by omega)
  have hsecond : isSecond b c = true := isSecond_iff.mpr (by omega)
  have hthird : ∀ e ∈ [d], isContinuation e = true := by
    simpa using isContinuation_iff.mpr (by omega)
  have hvalue : [c, d].foldl appendBits (leadBits b 2) = v := by
    have hbits : leadBits b 2 = v / 4096 := by
      change b.toNat % 16 = v / 4096
      omega
    simp only [List.foldl_cons, List.foldl_nil, appendBits, hbits, hc, hd]
    omega
  have hsequence := decodeAt_sequence [d] hlead hsecond hthird offset rest
  rwa [List.length_singleton, hvalue] at hsequence

/-- Four bytes spell a character of twenty-one bits. -/
theorem decodeAt_four {e : UInt8} (hb : b.toNat = v / 262144 + 240)
    (hc : c.toNat = v / 4096 % 64 + 128) (hd : d.toNat = v / 64 % 64 + 128)
    (he : e.toNat = v % 64 + 128) (hlow : 65536 ≤ v) (hhigh : v ≤ 1114111) (offset : Nat)
    (rest : List UInt8) :
    decodeAt offset (b :: c :: d :: e :: rest) =
      (decodeAt (offset + 4) rest).map (Char.ofNat v :: ·) := by
  have hlead : followers? b = some 3 := followers?_eq_some (by omega)
  have hsecond : isSecond b c = true := isSecond_iff.mpr (by omega)
  have hbehind : ∀ f ∈ [d, e], isContinuation f = true := by
    have hthird : isContinuation d = true := isContinuation_iff.mpr (by omega)
    have hfourth : isContinuation e = true := isContinuation_iff.mpr (by omega)
    simp [hthird, hfourth]
  have hvalue : [c, d, e].foldl appendBits (leadBits b 3) = v := by
    have hbits : leadBits b 3 = v / 262144 := by
      change b.toNat % 8 = v / 262144
      omega
    simp only [List.foldl_cons, List.foldl_nil, appendBits, hbits, hc, hd, he]
    omega
  have hsequence := decodeAt_sequence [d, e] hlead hsecond hbehind offset rest
  rwa [show [d, e].length + 1 = 3 from rfl, hvalue] at hsequence

/-- The bytes of a character in front of others spell it. -/
theorem decodeAt_utf8EncodeChar (x : Char) (offset : Nat) (rest : List UInt8) :
    decodeAt offset (String.utf8EncodeChar x ++ rest) =
      (decodeAt (offset + (String.utf8EncodeChar x).length) rest).map (x :: ·) := by
  have hchar : Char.ofNat x.toNat = x := Char.ofNat_toNat x
  have hvalid : x.toNat < 55296 ∨ 57343 < x.toNat ∧ x.toNat < 1114112 := x.valid
  have hval : x.val.toNat = x.toNat := rfl
  simp only [String.utf8EncodeChar, hval]
  split_ifs with hone htwo hthree
  · have hb := toNat_ofNat_of_lt (n := x.toNat) (by omega)
    have hspell := decodeAt_one hb hone offset rest
    rwa [hchar] at hspell
  · have hb := toNat_ofNat_of_lt (n := x.toNat / 64 % 32 + 192) (by omega)
    have hc := toNat_ofNat_of_lt (n := x.toNat % 64 + 128) (by omega)
    have hspell := decodeAt_two (hb.trans (by omega)) hc (by omega) htwo offset rest
    rwa [hchar] at hspell
  · have hb := toNat_ofNat_of_lt (n := x.toNat / 4096 % 16 + 224) (by omega)
    have hc := toNat_ofNat_of_lt (n := x.toNat / 64 % 64 + 128) (by omega)
    have hd := toNat_ofNat_of_lt (n := x.toNat % 64 + 128) (by omega)
    have hspell := decodeAt_three (hb.trans (by omega)) hc hd (by omega) hthree (by omega) offset
      rest
    rwa [hchar] at hspell
  · have hb := toNat_ofNat_of_lt (n := x.toNat / 262144 % 8 + 240) (by omega)
    have hc := toNat_ofNat_of_lt (n := x.toNat / 4096 % 64 + 128) (by omega)
    have hd := toNat_ofNat_of_lt (n := x.toNat / 64 % 64 + 128) (by omega)
    have he := toNat_ofNat_of_lt (n := x.toNat % 64 + 128) (by omega)
    have hspell := decodeAt_four (hb.trans (by omega)) hc hd he (by omega) (by omega) offset rest
    rwa [hchar] at hspell

/-- The bytes of a text spell it, wherever they start. -/
theorem decodeAt_encode (t : Text) (offset : Nat) : decodeAt offset (encode t) = .ok t := by
  induction t generalizing offset with
  | nil => rw [encode, List.flatMap_nil, decodeAt]
  | cons x t ih =>
      rw [encode, List.flatMap_cons, ← encode, decodeAt_utf8EncodeChar, ih]
      rfl

/-- The bytes of a text spell it. -/
theorem decode_encode (t : Text) : decode (encode t) = .ok t :=
  decodeAt_encode t 0

/-! ## Byte order marks -/

/-- A text without one byte order mark at its start. -/
def textWithoutMark : Text → Text
  | '\ufeff' :: t => t
  | t => t

/-- A text that starts with another character stays as it is. -/
theorem textWithoutMark_of_head?_ne {t : Text} (h : t.head? ≠ some '\ufeff') :
    textWithoutMark t = t := by
  unfold textWithoutMark
  split
  · simp at h
  · rfl

/-- A byte order mark spells a character. -/
theorem encode_mark_cons (t : Text) : encode ('\ufeff' :: t) = byteOrderMark ++ encode t := rfl

/-- A text whose bytes start with a byte order mark starts with the character that it spells. -/
theorem head?_of_mark_isPrefix {t : Text} (h : byteOrderMark <+: encode t) :
    t.head? = some '\ufeff' := by
  rcases h with ⟨rest, hrest⟩
  have hspell : (decodeAt 3 rest).map ('\ufeff' :: ·) = .ok t := by
    rw [← decode_encode t, ← hrest]
    exact (decodeAt_utf8EncodeChar '\ufeff' 0 rest).symm
  cases hread : decodeAt 3 rest with
  | error fault =>
      rw [hread] at hspell
      contradiction
  | ok u =>
      rw [hread] at hspell
      rw [← Except.ok.inj hspell]
      rfl

/-- What a byte order mark starts with. -/
theorem isPrefix_mark_iff {bytes : List UInt8} : bytes <+: byteOrderMark ↔
    bytes = [] ∨ bytes = [0xEF] ∨ bytes = [0xEF, 0xBB] ∨ bytes = byteOrderMark := by
  rw [← List.mem_inits]
  simp [byteOrderMark, List.inits]

/-- The start of a byte order mark spells nothing. -/
theorem eq_of_encode_isPrefix_mark {t : Text} (h : encode t <+: byteOrderMark) :
    t = [] ∨ t = ['\ufeff'] := by
  have hspell := decode_encode t
  rcases isPrefix_mark_iff.mp h with hnil | hone | htwo | hmark
  · rw [hnil, decode, decodeAt] at hspell
    exact .inl (Except.ok.inj hspell).symm
  · have hcut : decode [0xEF] = .error ⟨0, [0xEF], .cut⟩ := by cbv
    rw [hone, hcut] at hspell
    contradiction
  · have hcut : decode [0xEF, 0xBB] = .error ⟨0, [0xEF, 0xBB], .cut⟩ := by cbv
    rw [htwo, hcut] at hspell
    contradiction
  · have hchar : decode byteOrderMark = .ok ['\ufeff'] := decode_encode ['\ufeff']
    rw [hmark, hchar] at hspell
    exact .inr (Except.ok.inj hspell).symm

/-- The bytes of a text lose a byte order mark as the text does. -/
theorem withoutMark_encode (t : Text) : withoutMark (encode t) = encode (textWithoutMark t) := by
  by_cases hmark : t.head? = some '\ufeff'
  · rcases List.head?_eq_some_iff.mp hmark with ⟨u, rfl⟩
    rw [encode_mark_cons, withoutMark, if_pos (by simp)]
    rfl
  · have hfront : ¬byteOrderMark <+: encode t := mt head?_of_mark_isPrefix hmark
    rw [textWithoutMark_of_head?_ne hmark, withoutMark, if_neg (by simpa using hfront)]
    split
    · next hwithin =>
      rcases eq_of_encode_isPrefix_mark (List.isPrefixOf_iff_prefix.mp hwithin) with rfl | rfl
      · rfl
      · simp at hmark
    · rfl

end Utf8

end DeployGate
