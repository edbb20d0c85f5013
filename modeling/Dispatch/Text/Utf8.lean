/-
UTF-8 in the strict sense: shortest forms only, no surrogates, nothing above U+10FFFF.

`decode` reads one character off the front. `pieces` reads a whole byte string as characters and
stray bytes, so that every byte string is text of some kind: a byte at which no character starts
stands for itself.
-/
import Dispatch.Bytes

namespace Dispatch.Text.Utf8

/-- The bytes of a character. -/
def encode (c : Char) : Bytes := String.utf8EncodeChar c

/-- The bytes of a text. -/
def encodeAll (cs : List Char) : Bytes := cs.flatMap encode

/-- Bytes that only follow a first byte. -/
def isContinuation (b : UInt8) : Bool := 0x80 ≤ b && b < 0xc0

/-- The six bits that a continuation byte carries. -/
def low6 (b : UInt8) : Nat := b.toNat - 0x80

/-- The character with code point `n`, when `n` is one and is at least `least`. -/
def scalar? (least n : Nat) : Option Char :=
  if least ≤ n ∧ n.isValidChar then some (Char.ofNat n) else none

/-- The character at the front and the bytes after it. -/
def decode : Bytes → Option (Char × Bytes)
  | [] => none
  | a :: rest =>
    if a < 0x80 then some (Char.ofNat a.toNat, rest)
    else if a < 0xc0 then none
    else if a < 0xe0 then
      match rest with
      | b :: rest =>
        if isContinuation b then
          (scalar? 0x80 ((a.toNat - 0xc0) * 0x40 + low6 b)).map (·, rest)
        else none
      | _ => none
    else if a < 0xf0 then
      match rest with
      | b :: c :: rest =>
        if isContinuation b && isContinuation c then
          (scalar? 0x800 ((a.toNat - 0xe0) * 0x1000 + low6 b * 0x40 + low6 c)).map (·, rest)
        else none
      | _ => none
    else if a < 0xf8 then
      match rest with
      | b :: c :: d :: rest =>
        if isContinuation b && isContinuation c && isContinuation d then
          (scalar? 0x10000 ((a.toNat - 0xf0) * 0x40000 + low6 b * 0x1000 + low6 c * 0x40 + low6 d)).map
            (·, rest)
        else none
      | _ => none
    else none

/-- A character takes at least one byte. -/
theorem length_lt_of_decode {bs rest : Bytes} {c : Char} (h : decode bs = some (c, rest)) :
    rest.length < bs.length := by
  unfold decode at h
  split at h
  · simp at h
  · repeat' split at h
    all_goals
      simp only [Option.some.injEq, Prod.mk.injEq, Option.map_eq_some_iff, reduceCtorEq] at h
    all_goals
      first
      | (obtain ⟨_, rfl⟩ := h; simp only [List.length_cons]; omega)
      | (obtain ⟨_, _, _, rfl⟩ := h; simp only [List.length_cons]; omega)

/-- A piece of a byte string read as text. -/
inductive Piece where
  | char (c : Char)
  /-- A byte at which no character starts. -/
  | stray (b : UInt8)
  deriving DecidableEq, Repr

/-- The bytes of a piece. -/
def Piece.bytes : Piece → Bytes
  | .char c => encode c
  | .stray b => [b]

/-- A byte string as characters and stray bytes, from the front. -/
def pieces : Bytes → List Piece
  | [] => []
  | b :: bs =>
    match _h : decode (b :: bs) with
    | some (c, rest) => .char c :: pieces rest
    | none => .stray b :: pieces bs
termination_by bs => bs.length
decreasing_by
  · exact length_lt_of_decode (by assumption)
  · simp

/-- The text that a byte string spells, when it is valid throughout. -/
def decodeAll? (bs : Bytes) : Option (List Char) :=
  (pieces bs).mapM fun
    | .char c => some c
    | .stray _ => none

/-- Whether a byte string is valid throughout. -/
def isValid (bs : Bytes) : Bool :=
  (pieces bs).all fun
    | .char _ => true
    | .stray _ => false

end Dispatch.Text.Utf8
