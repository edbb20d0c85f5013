/-
The encoded form of a value: a map with the kind under 1, an integer under 2 and bytes under 3. Zero
and the empty byte string are left out.

Writing gives one spelling. Reading takes every item from which the three fields can be made: tags
are looked through, keys come in any order, unknown ones are passed over, and the first entry for a
field counts. The first field that cannot be made is the answer.
-/
import Dispatch.Text.Utf8
import Dispatch.Wire.Item

namespace Dispatch.Wire

/-- Why an item does not have the form that is asked for. -/
inductive Mistyped where
  /-- An item of another type, or a number out of range. -/
  | wrongType
  /-- A text that is not UTF-8. -/
  | badText
  /-- A tag on an item that it cannot have. -/
  | badTag
  deriving DecidableEq, Repr

/-! ## Looking through tags -/

/-- An item under its tags. -/
inductive Content where
  /-- An item that is not a tag. -/
  | plain (item : Item)
  /-- The integer with these bytes, most significant first: `n`, or `-1 - n` when negative. -/
  | bignum (negative : Bool) (bs : Bytes)

/-- Look through the tags of an item. Tags 0 to 3 have to stand right before an item of their type;
2 and 3 make an integer of a byte string; every other tag says nothing. -/
def Item.content : Item → Except Mistyped Content
  | .tag 0 (.text chunks) => .ok (.plain (.text chunks))
  | .tag 0 _ => .error .badTag
  | .tag 1 (.unsigned n) => .ok (.plain (.unsigned n))
  | .tag 1 (.negative n) => .ok (.plain (.negative n))
  | .tag 1 .float => .ok (.plain .float)
  | .tag 1 _ => .error .badTag
  | .tag 2 (.bytes bs) => .ok (.bignum false bs)
  | .tag 2 _ => .error .badTag
  | .tag 3 (.bytes bs) => .ok (.bignum true bs)
  | .tag 3 _ => .error .badTag
  | .tag _ item => item.content
  | item => .ok (.plain item)

/-! ## Items as fields -/

/-- Whether a simple value is null or undefined, which leave a field as it is. -/
def isNull (n : Nat) : Bool := n == 22 || n == 23

/-- Whether a simple value is a truth value. -/
def isTruth (n : Nat) : Bool := n == 20 || n == 21

/-- What is wrong with an item that is not of the type asked for: a text that is not UTF-8 is so
whatever is asked for. -/
def mismatch : Item → Mistyped
  | .text chunks => if chunks.all Text.Utf8.isValid then .wrongType else .badText
  | _ => .wrongType

/-- The integer an item stands for; null counts as zero. -/
def Content.integer : Content → Except Mistyped Int
  | .plain (.unsigned n) => .ok n
  | .plain (.negative n) => .ok (-1 - (n : Int))
  | .plain (.simple n) => if isNull n then .ok 0 else if isTruth n then .error .wrongType else .ok n
  | .plain item => .error (mismatch item)
  | .bignum false bs => .ok (Head.number bs)
  | .bignum true bs => .ok (-1 - (Head.number bs : Int))

/-- An item as a number of eight bits. -/
def Item.asByte (item : Item) : Except Mistyped UInt8 := do
  let n ← (← item.content).integer
  if 0 ≤ n ∧ n < 256 then .ok (UInt8.ofNat n.toNat) else .error .wrongType

/-- An item as a signed number of 64 bits. -/
def Item.asInt64 (item : Item) : Except Mistyped Int64 := do
  let n ← (← item.content).integer
  if Int64.minValue.toInt ≤ n ∧ n ≤ Int64.maxValue.toInt then .ok (Int64.ofInt n) else .error .wrongType

/-- An item as bytes: a byte string, or an array of numbers of eight bits. -/
def Item.asBytes (item : Item) : Except Mistyped Bytes := do
  match ← item.content with
  | .plain (.bytes bs) => .ok bs
  | .plain (.array items) => items.mapM Item.asByte
  | .plain (.simple n) => if isNull n then .ok [] else .error .wrongType
  | .plain item => .error (mismatch item)
  | .bignum _ bs => .ok bs

/-! ## Envelopes -/

/-- The fields of an encoded value. -/
structure Envelope where
  kind : UInt8
  int : Int64
  bytes : Bytes
  deriving DecidableEq, Repr

namespace Envelope

/-- The envelope of which nothing is known. -/
def zero : Envelope := ⟨0, 0, []⟩

/-- The fields of an envelope that have been met so far. -/
structure Fields where
  kind : Option UInt8
  int : Option Int64
  bytes : Option Bytes

/-- The fields of an envelope. -/
inductive Field where
  | kind
  | int
  | bytes
  deriving DecidableEq, Repr

/-- The field with a number. -/
def Field.ofNumber? (n : Nat) : Option Field :=
  if n = 1 then some .kind else if n = 2 then some .int else if n = 3 then some .bytes else none

/-- The field with a spelt number. -/
def Field.ofText? (text : Bytes) : Option Field :=
  if text = Bytes.ofString "1" then some .kind
  else if text = Bytes.ofString "2" then some .int
  else if text = Bytes.ofString "3" then some .bytes
  else none

/-- The field that a key names; a key may be a number or a text. -/
def Field.ofKey : Item → Except Mistyped (Option Field)
  | .unsigned n => .ok (ofNumber? n)
  | .negative n => if (n : Int) ≤ Int64.maxValue.toInt then .ok none else .error .wrongType
  | .text chunks => if chunks.all Text.Utf8.isValid then .ok (ofText? chunks.flatten) else .error .badText
  | _ => .error .wrongType

/-- The fields after one more entry; only the first entry for a field counts. -/
def Fields.enter (fields : Fields) (entry : Item × Item) : Except Mistyped Fields := do
  match ← Field.ofKey entry.1 with
  | none => .ok fields
  | some .kind =>
    if fields.kind.isSome then .ok fields else .ok { fields with kind := some (← entry.2.asByte) }
  | some .int =>
    if fields.int.isSome then .ok fields else .ok { fields with int := some (← entry.2.asInt64) }
  | some .bytes =>
    if fields.bytes.isSome then .ok fields else .ok { fields with bytes := some (← entry.2.asBytes) }

/-- The envelope with these fields. -/
def ofFields (fields : Fields) : Envelope :=
  ⟨fields.kind.getD 0, fields.int.getD 0, fields.bytes.getD []⟩

/-- An item as an envelope. -/
def ofItem (item : Item) : Except Mistyped Envelope := do
  match ← item.content with
  | .plain (.map pairs) => return ofFields (← pairs.foldlM Fields.enter ⟨none, none, none⟩)
  | .plain (.simple n) => if isNull n then .ok zero else .error .wrongType
  | .plain item => .error (mismatch item)
  | .bignum _ _ => .error .wrongType

/-- An item as a list of envelopes. -/
def listOfItem (item : Item) : Except Mistyped (List Envelope) := do
  match ← item.content with
  | .plain (.array items) => items.mapM ofItem
  | .plain (.simple n) => if isNull n then .ok [] else .error .wrongType
  | .plain item => .error (mismatch item)
  | .bignum _ _ => .error .wrongType

/-! ## Writing -/

/-- An integer as an item of its own. -/
def writeInt (n : Int64) : Bytes :=
  match n.toInt with
  | .ofNat n => Head.write 0 n
  | .negSucc n => Head.write 1 n

/-- The integer's entry, left out for zero. -/
def writeIntEntry (n : Int64) : Bytes := if n = 0 then [] else Head.write 0 2 ++ writeInt n

/-- The bytes' entry, left out when there are none. -/
def writeBytesEntry (bs : Bytes) : Bytes :=
  if bs.isEmpty then [] else Head.write 0 3 ++ Head.write 2 bs.length ++ bs

/-- The number of entries that are not left out. -/
def entryCount (e : Envelope) : Nat :=
  1 + (if e.int = 0 then 0 else 1) + (if e.bytes.isEmpty then 0 else 1)

/-- The one spelling of an envelope. -/
def write (e : Envelope) : Bytes :=
  Head.write 5 e.entryCount ++ Head.write 0 1 ++ Head.write 0 e.kind.toNat ++ writeIntEntry e.int ++
    writeBytesEntry e.bytes

/-- The one spelling of a list of envelopes. -/
def writeAll (es : List Envelope) : Bytes := Head.write 4 es.length ++ es.flatMap write

end Envelope

end Dispatch.Wire
