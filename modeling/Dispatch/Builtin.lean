/-
The eighteen built-in methods: for each its kind, its name, the number of its arguments and what it
does. `Builtin.all` lists them in the order in which a new machine takes them up; `Builtin.find?` is
the dictionary by kind and name.

A built-in may also be invoked outside a send, on a receiver of another kind. Then a fixnum method
takes the receiver for zero, and a string method that needs the contents of its receiver crashes.
-/
import Dispatch.Method

namespace Dispatch

/-- The built-in methods. -/
inductive Builtin where
  | nilToS
  | nilIsNil
  | nilEq
  | boolToS
  | boolNot
  | boolEq
  | fixnumAdd
  | fixnumSub
  | fixnumLess
  | fixnumNeg
  | fixnumEq
  | fixnumToS
  | stringAdd
  | stringSlice
  | stringEq
  | stringSize
  | stringIsEmpty
  | stringToS
  deriving DecidableEq, Repr

namespace Builtin

/-- The built-in methods in the order in which a machine takes them up. -/
def all : List Builtin :=
  [.nilToS, .nilIsNil, .nilEq, .boolToS, .boolNot, .boolEq,
   .fixnumAdd, .fixnumSub, .fixnumLess, .fixnumNeg, .fixnumEq, .fixnumToS,
   .stringAdd, .stringSlice, .stringEq, .stringSize, .stringIsEmpty, .stringToS]

/-- The kind of receivers a method is for. -/
def kind : Builtin → Kind
  | .nilToS | .nilIsNil | .nilEq => .nil
  | .boolToS | .boolNot | .boolEq => .bool
  | .fixnumAdd | .fixnumSub | .fixnumLess | .fixnumNeg | .fixnumEq | .fixnumToS => .fixnum
  | .stringAdd | .stringSlice | .stringEq | .stringSize | .stringIsEmpty | .stringToS => .string

/-- The name a method answers to. -/
def name : Builtin → Name
  | .nilToS | .boolToS | .fixnumToS | .stringToS => Bytes.ofString "to_s"
  | .nilIsNil => Bytes.ofString "nil?"
  | .nilEq | .boolEq | .fixnumEq | .stringEq => Bytes.ofString "=="
  | .boolNot => Bytes.ofString "!"
  | .fixnumAdd | .stringAdd => Bytes.ofString "+"
  | .fixnumSub => Bytes.ofString "-"
  | .fixnumLess => Bytes.ofString "<"
  | .fixnumNeg => Bytes.ofString "-@"
  | .stringSlice => Bytes.ofString "[]"
  | .stringSize => Bytes.ofString "size"
  | .stringIsEmpty => Bytes.ofString "empty?"

/-- The number of arguments a method takes. -/
def arity : Builtin → Nat
  | .nilToS | .nilIsNil | .boolToS | .boolNot | .fixnumNeg | .fixnumToS | .stringSize | .stringIsEmpty
  | .stringToS => 0
  | .nilEq | .boolEq | .fixnumAdd | .fixnumSub | .fixnumLess | .fixnumEq | .stringAdd | .stringEq => 1
  | .stringSlice => 2

/-- The built-in of a kind and a name. -/
def find? (k : Kind) (n : Name) : Option Builtin :=
  all.find? fun b => b.kind == k && b.name == n

/-! ## What they do -/

/-- A new string as the answer. -/
def answerString (bs : Bytes) : Program := .newString bs .done

/-- A failure with no value beside it. -/
def refuse (e : Failure) : Program := .fail e .nil

/-- The failure of arithmetic whose result does not fit. -/
def overflow (method : Name) : Program := refuse (.outOfDomain method (Bytes.ofString "fixnum overflow"))

/-- The sum, if the wrapped sum lies on the side of `a` that the sign of `b` points to. -/
def add (method : Name) (a b : Int64) : Program :=
  let sum := a + b
  if (0 < b ∧ sum < a) ∨ (b < 0 ∧ a < sum) then overflow method else .done (.fixnum sum)

/-- The difference, if the wrapped difference lies on the side of `a` away from the sign of `b`. -/
def sub (method : Name) (a b : Int64) : Program :=
  let diff := a - b
  if (b < 0 ∧ diff < a) ∨ (0 < b ∧ a < diff) then overflow method else .done (.fixnum diff)

/-- Go on with the integer of an argument, which has to be a fixnum. -/
def withFixnum (method : Name) (arg : Value) (next : Int64 → Program) : Program :=
  match arg.fixnum? with
  | some n => next n
  | none => refuse (.wrongKind method .fixnum arg.kind)

/-- A new string of the bytes from the place `low` up to `high`; the two have to be places of the
string, in order. -/
def cut (bs : Bytes) (low high : Int64) : Program :=
  if 0 ≤ low ∧ low ≤ high ∧ high.toInt ≤ bs.length then
    answerString ((bs.take high.toInt.toNat).drop low.toInt.toNat)
  else .crash (.sliceOutOfRange low.toInt high.toInt bs.length)

/-- The `count` bytes from `start` on, fewer at the end of the string; nil when `start` lies outside. -/
def slice (bs : Bytes) (start count : Int64) : Program :=
  let size := Int64.ofNat bs.length
  if start < 0 ∨ size < start then .done .nil
  else
    let rest := size - start
    let n := if rest < count then rest else count
    if n < 0 then .crash .negativeLength else cut bs start (start + n)

/-- Go on with the contents of a receiver, which has to be a string. -/
def withContents (receiver : Value) (next : Bytes → Program) : Program :=
  match receiver.bytes? with
  | some bs => next bs
  | none => .crash .noContents

/-- Go on with the argument at a place. -/
def withArg (args : List Value) (index : Nat) (next : Value → Program) : Program :=
  match args[index]? with
  | some v => next v
  | none => .crash (.indexOutOfRange index args.length)

/-- What a method does with a receiver and arguments, of which it has to be given as many as it takes. -/
def body : Builtin → Value → List Value → Program
  | .nilToS, _, _ => answerString []
  | .nilIsNil, _, _ => .done (.bool true)
  | .nilEq, _, args => withArg args 0 fun other => .done (.bool (other.same .nil))
  | .boolToS, r, _ => answerString (Bytes.ofString (if r.same (.bool true) then "true" else "false"))
  | .boolNot, r, _ => .done (.bool (r.same (.bool false)))
  | .boolEq, r, args => withArg args 0 fun other => .done (.bool (r.same other))
  | .fixnumAdd, r, args =>
    withArg args 0 fun arg => withFixnum (name .fixnumAdd) arg (add (name .fixnumAdd) r.fixnumOrZero)
  | .fixnumSub, r, args =>
    withArg args 0 fun arg => withFixnum (name .fixnumSub) arg (sub (name .fixnumSub) r.fixnumOrZero)
  | .fixnumLess, r, args =>
    withArg args 0 fun arg =>
      withFixnum (name .fixnumLess) arg fun n => .done (.bool (r.fixnumOrZero < n))
  | .fixnumNeg, r, _ =>
    if r.fixnumOrZero = Int64.minValue then overflow (name .fixnumNeg) else .done (.fixnum (-r.fixnumOrZero))
  | .fixnumEq, r, args => withArg args 0 fun arg => .done (.bool (r.equal arg))
  | .fixnumToS, r, _ => answerString (Decimal.ofInt r.fixnumOrZero.toInt)
  | .stringAdd, r, args =>
    withArg args 0 fun
      | .string _ b => withContents r fun a => answerString (a ++ b)
      | other => refuse (.wrongKind (name .stringAdd) .string other.kind)
  | .stringSlice, r, args =>
    withArg args 0 fun first => withArg args 1 fun second =>
      withFixnum (name .stringSlice) first fun start =>
        withFixnum (name .stringSlice) second fun count =>
          if count < 0 then refuse (.outOfDomain (name .stringSlice) (Bytes.ofString "negative count"))
          else withContents r fun bs => slice bs start count
  | .stringEq, r, args => withArg args 0 fun other => .done (.bool (r.equal other))
  | .stringSize, r, _ => .done (.fixnum (Int64.ofNat r.size))
  | .stringIsEmpty, r, _ => .done (.bool (r.size == 0))
  | .stringToS, r, _ => .done r

/-- A built-in as a method. -/
def method (b : Builtin) : Method := ⟨b.name, some b.arity, b.body⟩

end Builtin

end Dispatch
