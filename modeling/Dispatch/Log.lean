/-
What a machine writes to its log: one line when it is ready, one line for each failed look-up, and
when it traces one line for each message sent.
-/
import Dispatch.Decimal
import Dispatch.Kind

namespace Dispatch

/-- How much a line matters. -/
inductive Level where
  | info
  | debug
  deriving DecidableEq, Repr

/-- A line of a machine's log. -/
inductive LogLine where
  | ready (methods symbols : Nat)
  /-- A message is about to be looked up. -/
  | sending (kind : Kind) (selector : Name) (argc : Nat)
  /-- No method answers a message. -/
  | unanswered (kind : Kind) (selector : Name)
  deriving DecidableEq, Repr

namespace LogLine

def level : LogLine → Level
  | .ready _ _ => .info
  | .sending _ _ _ => .debug
  | .unanswered _ _ => .debug

/-- The text `kind#selector`. -/
def target (kind : Kind) (selector : Name) : Bytes := kind.name ++ Bytes.ofString "#" ++ selector

/-- The text of a line of the machine that is called `id`. -/
def message (id : Bytes) : LogLine → Bytes
  | .ready methods symbols =>
    Bytes.ofString "runtime " ++ id ++ Bytes.ofString " ready: " ++ Decimal.ofNat methods ++
      Bytes.ofString " built-in methods, " ++ Decimal.ofNat symbols ++ Bytes.ofString " symbols"
  | .sending kind selector argc =>
    Bytes.ofString "[" ++ id ++ Bytes.ofString "] send " ++ target kind selector ++ Bytes.ofString " argc=" ++
      Decimal.ofNat argc
  | .unanswered kind selector =>
    Bytes.ofString "[" ++ id ++ Bytes.ofString "] " ++ target kind selector ++ Bytes.ofString ": no method"

end LogLine

end Dispatch
