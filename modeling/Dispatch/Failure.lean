/-
What can go wrong with a message. A `Failure` is an answer of the program: it has a cause that
callers tell apart, and a text. A `Crash` is a broken promise of the caller, which ends the operation
at once and answers nothing.

A failed send is a `Failure.dispatch`, which names the receiver's kind and the selector. Failures nest:
a method may put a text before the failure of a message it sent itself.
-/
import Dispatch.Decimal
import Dispatch.Kind

namespace Dispatch

/-- The causes that callers tell apart. -/
inductive Cause where
  | noMethod
  | typeMismatch
  | invalidArgument
  deriving DecidableEq, Repr

/-- The text of a cause. -/
def Cause.text : Cause → Bytes
  | .noMethod => Bytes.ofString "no method"
  | .typeMismatch => Bytes.ofString "type mismatch"
  | .invalidArgument => Bytes.ofString "invalid argument"

/-- Why a method or a send failed. -/
inductive Failure where
  /-- No method answers the selector. -/
  | unanswered
  /-- The method takes another number of arguments. -/
  | arity (method : Name) (takes got : Nat)
  /-- An argument has a kind that the method does not take. -/
  | wrongKind (method : Name) (takes got : Kind)
  /-- The arguments have the right kinds, but the method has no answer for them. -/
  | outOfDomain (method : Name) (detail : Bytes)
  /-- A failure in a method's own words, with or without one of the causes. -/
  | custom (message : Bytes) (cause : Option Cause)
  /-- A text before another failure. -/
  | wrapped (text : Bytes) (inner : Failure)
  /-- A send to a receiver of `kind` failed. -/
  | dispatch (kind : Kind) (selector : Name) (inner : Failure)
  deriving DecidableEq, Repr

namespace Failure

/-- The text `a: b`. -/
def colon (a b : Bytes) : Bytes := a ++ Bytes.ofString ": " ++ b

/-- The text of a failure. -/
def message : Failure → Bytes
  | .unanswered => Cause.text .noMethod
  | .arity method takes got =>
    colon (method ++ Bytes.ofString " expects " ++ Decimal.ofNat takes ++
      Bytes.ofString " argument(s), got " ++ Decimal.ofNat got) (Cause.text .invalidArgument)
  | .wrongKind method takes got =>
    colon (method ++ Bytes.ofString " expects a " ++ takes.name ++ Bytes.ofString " argument, got " ++
      got.name)
      (Cause.text .typeMismatch)
  | .outOfDomain method detail => colon method (colon detail (Cause.text .invalidArgument))
  | .custom message none => message
  | .custom message (some cause) => colon message cause.text
  | .wrapped text inner => colon text inner.message
  | .dispatch kind selector inner => colon (kind.name ++ Bytes.ofString "#" ++ selector) inner.message

/-- The cause at the bottom of a failure. -/
def cause? : Failure → Option Cause
  | .unanswered => some .noMethod
  | .arity _ _ _ => some .invalidArgument
  | .wrongKind _ _ _ => some .typeMismatch
  | .outOfDomain _ _ => some .invalidArgument
  | .custom _ cause => cause
  | .wrapped _ inner => inner.cause?
  | .dispatch _ _ inner => inner.cause?

/-- The kind and selector of the outermost failed send. -/
def dispatch? : Failure → Option (Kind × Name)
  | .dispatch kind selector _ => some (kind, selector)
  | .wrapped _ inner => inner.dispatch?
  | _ => none

/-- The failure of a send whose method failed: a failed send inside it is passed on as it is, anything
else is put under the receiver's kind and the method's name. -/
def ofMethod (kind : Kind) (method : Name) (e : Failure) : Failure :=
  match e.dispatch? with
  | some _ => e
  | none => .dispatch kind method e

end Failure

/-- A broken promise of the caller. -/
inductive Crash where
  /-- A byte was asked of a value that is not a string. -/
  | notAString
  /-- An index outside a sequence. -/
  | indexOutOfRange (index : Int) (length : Nat)
  /-- A definition in a table that no longer takes any. -/
  | sealedTable (kind : Option Kind)
  /-- The contents were read of something that has none. -/
  | noContents
  /-- A part of a sequence that does not lie inside it. -/
  | sliceOutOfRange (low high : Int) (length : Nat)
  /-- A sequence of fewer than no elements. -/
  | negativeLength
  /-- Room for more elements than there can be. -/
  | capacityOutOfRange
  deriving DecidableEq, Repr

/-- The text of a crash. -/
def Crash.message : Crash → Bytes
  | .notAString => Bytes.ofString "Value.ByteAt: not a string"
  | .indexOutOfRange index length =>
    let place :=
      Bytes.ofString "runtime error: index out of range [" ++ Decimal.ofInt index ++ Bytes.ofString "]"
    if index < 0 then place else place ++ Bytes.ofString " with length " ++ Decimal.ofNat length
  | .sealedTable kind =>
    Bytes.ofString "MethodTable.Define: " ++ Kind.nameOf kind ++ Bytes.ofString " table is sealed"
  | .noContents =>
    Bytes.ofString "runtime error: invalid memory address or nil pointer dereference"
  | .sliceOutOfRange low high length =>
    Bytes.ofString "runtime error: slice bounds out of range [" ++
      if high < low then Decimal.ofInt low ++ Bytes.ofString ":" ++ Decimal.ofInt high ++ Bytes.ofString "]"
      else Bytes.ofString ":" ++ Decimal.ofInt high ++ Bytes.ofString "] with capacity " ++ Decimal.ofNat length
  | .negativeLength => Bytes.ofString "runtime error: makeslice: len out of range"
  | .capacityOutOfRange => Bytes.ofString "runtime error: makeslice: cap out of range"

end Dispatch
