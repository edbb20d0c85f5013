/-
Wire items, and the pass that reads data as one item or says what is wrong with it.

The reader has limits: 32 levels of nesting, 131072 elements of an array, 131072 pairs of a map. An
array or a map takes a level, and so does a tag right after a tag. `Item.read levels` reads an item
that may take that many levels more; every item takes at least one byte off the data.
-/
import Dispatch.Wire.Head

namespace Dispatch.Wire

/-- An item, free of the ways in which heads and lengths can be written. -/
inductive Item where
  | unsigned (n : Nat)
  /-- The integer `-1 - n`. -/
  | negative (n : Nat)
  | bytes (bs : Bytes)
  /-- The chunks of a text; a text of definite length is one chunk. -/
  | text (chunks : List Bytes)
  | array (items : List Item)
  | map (pairs : List (Item × Item))
  | tag (n : Nat) (content : Item)
  /-- 20 false, 21 true, 22 null, 23 undefined; the others only have their number. -/
  | simple (n : Nat)
  | float

/-- The most levels of nesting. -/
def maxLevels : Nat := 32

/-- The most elements of an array, and the most pairs of a map. -/
def maxCount : Nat := 131072

/-- The byte that ends an indefinite length. -/
def breakByte : UInt8 := 0xff

namespace Item

/-- A step that takes something off the front of the data. -/
abbrev Reader (α : Type) := Bytes → Except Malformed (α × Bytes)

/-- The least length that is refused, 2^63. -/
def lengthLimit : Nat := 0x8000000000000000

/-- The contents of a string of a known length. -/
def readString (length : Nat) : Reader Bytes := fun bs =>
  if lengthLimit ≤ length then .error .tooLong
  else
    match Head.takeExactly length bs with
    | some result => .ok result
    | none => .error .truncated

/-- The chunks of a string of indefinite length: strings of its own major type and of known lengths, up
to the break. There are no more than `most` of them. -/
def readChunks (major : Nat) : (most : Nat) → Reader (List Bytes)
  | _, [] => .error .truncated
  | 0, _ :: _ => .error .truncated
  | most + 1, b :: bs =>
    if b = breakByte then .ok ([], bs)
    else if b.toNat / 32 ≠ major ∨ b.toNat % 32 = 31 then .error .illFormed
    else do
      let (head, bs) ← Head.read (b :: bs)
      let (chunk, bs) ← readString head.arg bs
      let (chunks, bs) ← readChunks major most bs
      .ok (chunk :: chunks, bs)

/-- The chunks of a string after its head. -/
def readText (head : Head) : Reader (List Bytes) := fun bs =>
  if head.isIndefinite then readChunks head.major bs.length bs
  else do
    let (chunk, bs) ← readString head.arg bs
    .ok ([chunk], bs)

/-- A known number of items. -/
def readMany (item : Reader Item) : (count : Nat) → Reader (List Item)
  | 0, bs => .ok ([], bs)
  | count + 1, bs => do
    let (x, bs) ← item bs
    let (xs, bs) ← readMany item count bs
    .ok (x :: xs, bs)

/-- Items up to the break, `left` and one more at most. -/
def readUntilBreak (item : Reader Item) (left : Nat) : Reader (List Item)
  | [] => .error .truncated
  | b :: bs =>
    if b = breakByte then .ok ([], bs)
    else do
      let (x, bs) ← item (b :: bs)
      match left with
      | 0 => .error .tooManyElements
      | left + 1 =>
        let (xs, bs) ← readUntilBreak item left bs
        .ok (x :: xs, bs)

/-- A known number of pairs of a key and a value. -/
def readPairs (item : Reader Item) : (count : Nat) → Reader (List (Item × Item))
  | 0, bs => .ok ([], bs)
  | count + 1, bs => do
    let (key, bs) ← item bs
    let (value, bs) ← item bs
    let (pairs, bs) ← readPairs item count bs
    .ok ((key, value) :: pairs, bs)

/-- The value of a pair in a map of indefinite length: a break here leaves its key alone. -/
def readValue (item : Reader Item) : Reader Item
  | [] => .error .truncated
  | b :: bs => if b = breakByte then .error .illFormed else item (b :: bs)

/-- Pairs up to the break, `left` and one more at most. -/
def readPairsUntilBreak (item : Reader Item) (left : Nat) : Reader (List (Item × Item))
  | [] => .error .truncated
  | b :: bs =>
    if b = breakByte then .ok ([], bs)
    else do
      let (key, bs) ← item (b :: bs)
      let (value, bs) ← readValue item bs
      match left with
      | 0 => .error .tooManyPairs
      | left + 1 =>
        let (pairs, bs) ← readPairsUntilBreak item left bs
        .ok ((key, value) :: pairs, bs)

/-- The elements of an array after its head. -/
def readElements (item : Reader Item) (head : Head) : Reader (List Item) := fun bs =>
  if head.isIndefinite then readUntilBreak item maxCount bs
  else if lengthLimit ≤ head.arg then .error .tooLong
  else if maxCount < head.arg then .error .tooManyElements
  else readMany item head.arg bs

/-- The pairs of a map after its head. -/
def readEntries (item : Reader Item) (head : Head) : Reader (List (Item × Item)) := fun bs =>
  if head.isIndefinite then readPairsUntilBreak item maxCount bs
  else if lengthLimit ≤ head.arg then .error .tooLong
  else if maxCount < head.arg then .error .tooManyPairs
  else readPairs item head.arg bs

/-- What follows the head of an item that is not a tag. The items inside are read by `inner`, which is
missing when no level is left. -/
def readAfter (inner : Option (Reader Item)) (head : Head) : Reader Item := fun bs =>
  match head.major with
  | 0 => .ok (.unsigned head.arg, bs)
  | 1 => .ok (.negative head.arg, bs)
  | 2 => do
    let (chunks, bs) ← readText head bs
    .ok (.bytes chunks.flatten, bs)
  | 3 => do
    let (chunks, bs) ← readText head bs
    .ok (.text chunks, bs)
  | 4 =>
    match inner with
    | none => .error .tooDeep
    | some item => do
      let (items, bs) ← readElements item head bs
      .ok (.array items, bs)
  | 5 =>
    match inner with
    | none => .error .tooDeep
    | some item => do
      let (pairs, bs) ← readEntries item head bs
      .ok (.map pairs, bs)
  | 7 => .ok (if 25 ≤ head.info then .float else .simple head.arg, bs)
  | _ => .error .illFormed

/-- An item, given the reader of the items inside it. -/
def readWith (inner : Option (Reader Item)) : Reader Item := fun bs => do
  let (head, bs) ← Head.read bs
  if head.major = 6 then
    let (next, rest) ← Head.read bs
    if next.major = 6 then
      match inner with
      | none => .error .tooDeep
      | some item =>
        let (content, bs) ← item bs
        .ok (.tag head.arg content, bs)
    else
      let (content, bs) ← readAfter inner next rest
      .ok (.tag head.arg content, bs)
  else readAfter inner head bs

/-- An item that takes at most `levels` levels. -/
def read : (levels : Nat) → Reader Item
  | 0 => readWith none
  | levels + 1 => readWith (some (read levels))

/-- The one item that the data holds. -/
def ofBytes (data : Bytes) : Except Malformed Item :=
  if data.isEmpty then .error .empty
  else do
    let (item, rest) ← read maxLevels data
    if rest.isEmpty then .ok item else .error .extraneous

end Item

end Dispatch.Wire
