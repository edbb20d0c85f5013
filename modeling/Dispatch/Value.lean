/-
Values: nil, the two booleans, 64-bit integers (fixnums) and strings of bytes.

A string also carries its storage, a number no other string has. Storage tells copies of one text
apart (`same`), and nothing else depends on it: `equal` and `order` look at contents only, and so
does the inspect form.
-/
import Dispatch.Decimal
import Dispatch.Kind
import Dispatch.Text.Quoted

namespace Dispatch

/-- A value that messages are sent to and carry. -/
inductive Value where
  | nil
  | bool (b : Bool)
  | fixnum (n : Int64)
  /-- The text `bytes`, kept at `storage`. -/
  | string (storage : Nat) (bytes : Bytes)
  deriving DecidableEq, Repr

instance : Inhabited Value := ⟨.nil⟩

namespace Value

def kind : Value → Kind
  | .nil => .nil
  | .bool _ => .bool
  | .fixnum _ => .fixnum
  | .string _ _ => .string

/-! ## Reading a value -/

/-- Only nil and false count as false in a condition. -/
def isTruthy : Value → Bool
  | .nil => false
  | .bool b => b
  | _ => true

/-- The integer of a fixnum. -/
def fixnum? : Value → Option Int64
  | .fixnum n => some n
  | _ => none

/-- The truth value of a boolean. -/
def bool? : Value → Option Bool
  | .bool b => some b
  | _ => none

/-- The contents of a string. -/
def bytes? : Value → Option Bytes
  | .string _ bs => some bs
  | _ => none

/-- The integer of a fixnum, zero for every other value. -/
def fixnumOrZero (v : Value) : Int64 := v.fixnum?.getD 0

/-- The contents of a string, nothing for every other value. -/
def text (v : Value) : Bytes := v.bytes?.getD []

/-- The number of bytes of a string, zero for every other value. -/
def size (v : Value) : Nat := v.text.length

/-! ## Equality and order -/

/-- Whether two values are one and the same: by storage for strings, by content otherwise. -/
def same : Value → Value → Bool
  | .nil, .nil => true
  | .bool a, .bool b => a == b
  | .fixnum a, .fixnum b => a == b
  | .string a _, .string b _ => a == b
  | _, _ => false

/-- Whether two values hold the same content. -/
def equal : Value → Value → Bool
  | .nil, .nil => true
  | .bool a, .bool b => a == b
  | .fixnum a, .fixnum b => a == b
  | .string _ a, .string _ b => a == b
  | _, _ => false

/-- The order of values: by kind, then false before true, fixnums by number, strings by length and
then bytewise. -/
def order (v w : Value) : Ordering :=
  match v, w with
  | .bool a, .bool b => compare a.toNat b.toNat
  | .fixnum a, .fixnum b => compare a.toInt b.toInt
  | .string _ a, .string _ b => (compare a.length b.length).then (Bytes.lex a b)
  | _, _ => compare v.kind.tag w.kind.tag

/-- The values in ascending order; values of equal content keep their places among each other. -/
def sort (vs : List Value) : List Value := vs.mergeSort fun v w => (order v w).isLE

/-! ## Showing a value -/

/-- The text of a value for logs and people. -/
def inspect : Value → Bytes
  | .nil => Bytes.ofString "nil"
  | .bool true => Bytes.ofString "true"
  | .bool false => Bytes.ofString "false"
  | .fixnum n => Decimal.ofInt n.toInt
  | .string _ bs => Text.quote bs

/-- The text of a list of values: the inspect forms between brackets, one space apart. -/
def inspectAll (vs : List Value) : Bytes :=
  Bytes.ofString "[" ++ Bytes.joinWith [0x20] (vs.map inspect) ++ Bytes.ofString "]"

end Value

end Dispatch
