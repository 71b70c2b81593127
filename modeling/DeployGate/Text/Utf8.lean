import DeployGate.Text.Basic

/-!
# UTF-8

The decoder accepts exactly the well-formed byte sequences: no overlong form, no
surrogate, nothing above the last code point.  A sequence that cannot be
continued is reported with the bytes that were recognised of it.

Main results:

- `Utf8.continuations_append` shows that the bytes read for one character and
  the rest are the bytes given.
-/

namespace DeployGate

namespace Utf8

/-! ## Faults -/

/-- Why bytes are not UTF-8. -/
inductive Cause where
  /-- A byte that starts no sequence. -/
  | start
  /-- A sequence whose next byte does not continue it. -/
  | continuation
  /-- A sequence that the end of the data cuts off. -/
  | cut
  deriving DecidableEq, Repr

/-- A place where bytes are not UTF-8: the offset, the bytes recognised there, and
the cause. -/
structure Fault where
  offset : Nat
  bytes : List UInt8
  cause : Cause
  deriving DecidableEq, Repr

/-- The wording of a cause. -/
def Cause.message : Cause → Text
  | .start => "invalid start byte".toList
  | .continuation => "invalid continuation byte".toList
  | .cut => "unexpected end of data".toList

/-- The wording of a fault. -/
def Fault.message (f : Fault) : Text :=
  let place := match f.bytes with
    | [b] => "byte 0x".toList ++ Text.toHex 2 b.toNat ++ " in position ".toList ++
        Text.ofNat f.offset
    | bs => "bytes in position ".toList ++ Text.ofNat f.offset ++ ['-'] ++
        Text.ofNat (f.offset + bs.length - 1)
  "'utf-8' codec can't decode ".toList ++ place ++ [':', ' '] ++ f.cause.message

/-! ## One character -/

/-- A byte from `0x80` to `0xBF`. -/
def isContinuation (b : UInt8) : Bool :=
  0x80 ≤ b && b ≤ 0xBF

/-- Whether a byte may come second after the given first byte: overlong forms,
surrogates and code points above the last are excluded here. -/
def isSecond (first b : UInt8) : Bool :=
  isContinuation b &&
    (first != 0xE0 || 0xA0 ≤ b) && (first != 0xED || b ≤ 0x9F) &&
    (first != 0xF0 || 0x90 ≤ b) && (first != 0xF4 || b ≤ 0x8F)

/-- The number of bytes after the given first byte, if it starts a sequence. -/
def followers? (first : UInt8) : Option Nat :=
  if first ≤ 0x7F then some 0
  else if 0xC2 ≤ first && first ≤ 0xDF then some 1
  else if 0xE0 ≤ first && first ≤ 0xEF then some 2
  else if 0xF0 ≤ first && first ≤ 0xF4 then some 3
  else none

/-- The low six bits of a continuation byte behind the bits read so far. -/
def appendBits (code : Nat) (b : UInt8) : Nat :=
  code * 64 + b.toNat % 64

/-- Read up to `wanted` continuation bytes; the first of them has to satisfy `ok`.
The result is the bytes read and, if they are all there, the rest. -/
def continuations (ok : UInt8 → Bool) :
    Nat → List UInt8 → List UInt8 × (Cause ⊕ List UInt8)
  | 0, bs => ([], .inr bs)
  | _ + 1, [] => ([], .inl .cut)
  | n + 1, b :: bs =>
    if ok b then
      let (read, outcome) := continuations isContinuation n bs
      (b :: read, outcome)
    else ([], .inl .continuation)

/-- The bits of a first byte that belong to the code point. -/
def leadBits (first : UInt8) (followers : Nat) : Nat :=
  if followers = 0 then first.toNat else first.toNat % Nat.pow 2 (6 - followers)

/-- The bytes that continue a sequence, when they are all there, lie in front of
the rest. -/
theorem continuations_append {ok : UInt8 → Bool} {n : Nat} {bs read rest : List UInt8}
    (h : continuations ok n bs = (read, .inr rest)) : bs = read ++ rest := by
  induction n generalizing ok bs read with
  | zero => simp only [continuations, Prod.mk.injEq, Sum.inr.injEq] at h; simp [← h.1, h.2]
  | succ n ih =>
    cases bs with
    | nil => simp [continuations] at h
    | cons b bs =>
      simp only [continuations] at h
      split at h
      · simp only [Prod.mk.injEq] at h
        have hc : continuations isContinuation n bs =
            ((continuations isContinuation n bs).1, .inr rest) := by rw [← h.2]
        have := ih hc
        rw [← h.1]; simpa using this
      · simp at h

/-! ## The whole text -/

/-- Decode bytes that start at the given offset. -/
def decodeAt (offset : Nat) : List UInt8 → Except Fault Text
  | [] => .ok []
  | b :: bs =>
    match followers? b with
    | none => .error ⟨offset, [b], .start⟩
    | some n =>
      match h : continuations (isSecond b) n bs with
      | (read, .inl cause) => .error ⟨offset, b :: read, cause⟩
      | (read, .inr rest) => do
        let code := read.foldl appendBits (leadBits b n)
        let t ← decodeAt (offset + 1 + read.length) rest
        pure (Char.ofNat code :: t)
  termination_by bs => bs.length
  decreasing_by
    rw [continuations_append h, List.length_cons, List.length_append]
    omega

/-- The text that UTF-8 bytes spell, or the first fault in them. -/
def decode (bytes : List UInt8) : Except Fault Text :=
  decodeAt 0 bytes

/-- The three bytes that spell a byte order mark. -/
def byteOrderMark : List UInt8 :=
  [0xEF, 0xBB, 0xBF]

/-- Bytes without one leading byte order mark.  Data that ends within the mark is
empty. -/
def withoutMark (bytes : List UInt8) : List UInt8 :=
  if byteOrderMark.isPrefixOf bytes then bytes.drop 3
  else if bytes.isPrefixOf byteOrderMark then []
  else bytes

end Utf8

end DeployGate
