/-
Heads of wire items. An item starts with a byte that holds a major type (three bits) and an additional
information (five bits). Information below 24 is the head's argument itself; 24 to 27 announce an
argument of 1, 2, 4 or 8 bytes, most significant first; 31 announces an indefinite length.

`Head.read` takes a head off the front of the data. `Head.write` writes a head in its shortest form.
-/
import Dispatch.Bytes

namespace Dispatch.Wire

/-- Why data is not one item. -/
inductive Malformed where
  /-- There is no data. -/
  | empty
  /-- The data ends inside the item. -/
  | truncated
  /-- A head or a combination of heads that no item has. -/
  | illFormed
  /-- Data goes on after the item. -/
  | extraneous
  /-- Items are nested too deeply. -/
  | tooDeep
  | tooManyElements
  | tooManyPairs
  /-- A length beyond every signed number of 64 bits. -/
  | tooLong
  deriving DecidableEq, Repr

/-- The start of an item. -/
structure Head where
  /-- 0 unsigned, 1 negative, 2 bytes, 3 text, 4 array, 5 map, 6 tag, 7 simple or float. -/
  major : Nat
  info : Nat
  arg : Nat
  deriving DecidableEq, Repr

namespace Head

/-- Whether a head leaves the length open. -/
def isIndefinite (h : Head) : Bool := h.info == 31

/-- The number of bytes, most significant first. -/
def number (bs : Bytes) : Nat := bs.foldl (fun n b => n * 256 + b.toNat) 0

/-- The lowest `width` bytes of a number, most significant first. -/
def numeral : (width : Nat) → (n : Nat) → Bytes
  | 0, _ => []
  | width + 1, n => numeral width (n / 256) ++ [n.toUInt8]

/-- The first `n` bytes and the rest, when there are as many. -/
def takeExactly (n : Nat) (bs : Bytes) : Option (Bytes × Bytes) :=
  let (front, rest) := bs.splitAt n
  if front.length = n then some (front, rest) else none

/-- The number of bytes of an argument, from 24 on. -/
def width : (info : Nat) → Nat
  | 24 => 1
  | 25 => 2
  | 26 => 4
  | _ => 8

/-- The major types whose items may have an indefinite length. -/
def mayBeIndefinite (major : Nat) : Bool := 2 ≤ major && major ≤ 5

/-- Take a head off the front. -/
def read : Bytes → Except Malformed (Head × Bytes)
  | [] => .error .truncated
  | b :: rest =>
    let major := b.toNat / 32
    let info := b.toNat % 32
    if info < 24 then .ok (⟨major, info, info⟩, rest)
    else if info < 28 then
      match takeExactly (width info) rest with
      | none => .error .truncated
      | some (front, rest) =>
        let arg := number front
        if major = 7 ∧ info = 24 ∧ arg < 32 then .error .illFormed
        else .ok (⟨major, info, arg⟩, rest)
    else if info = 31 ∧ mayBeIndefinite major then .ok (⟨major, info, info⟩, rest)
    else .error .illFormed

/-- The shortest head of a major type and an argument below 2^64. -/
def write (major n : Nat) : Bytes :=
  let first (info : Nat) : UInt8 := (major * 32 + info).toUInt8
  if n < 24 then [first n]
  else if n < 0x100 then first 24 :: numeral 1 n
  else if n < 0x10000 then first 25 :: numeral 2 n
  else if n < 0x100000000 then first 26 :: numeral 4 n
  else first 27 :: numeral 8 n

end Head

end Dispatch.Wire
