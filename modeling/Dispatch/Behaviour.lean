/-
Methods that a user of a session may define: they answer with the receiver, with an argument, with a
fixed value, fail, or relay their arguments to another receiver.

A fixed value is written as an `Operand`. It stands for a value anew each time the method runs: a string
is a new one, and a reference is what its step has made by then.
-/
import Dispatch.Method

namespace Dispatch

/-- A value as it is written. -/
inductive Operand where
  | nil
  | bool (b : Bool)
  | fixnum (n : Int64)
  /-- A new string. -/
  | string (bytes : Bytes)
  /-- A value that an earlier step made, nil if it made none. -/
  | made (ref : Reference)
  deriving DecidableEq, Repr

/-- Go on with the value of an operand. -/
def Operand.program (next : Value → Program) : Operand → Program
  | .nil => next .nil
  | .bool b => next (.bool b)
  | .fixnum n => next (.fixnum n)
  | .string bytes => .newString bytes next
  | .made ref => .recall ref next

/-- What a user's method does. -/
inductive Behaviour where
  | receiver
  /-- The number of arguments. -/
  | argCount
  /-- The argument at a place counted from zero. -/
  | argument (index : Int)
  | constant (v : Operand)
  /-- Fail in words of its own, with a value beside the failure. -/
  | failing (message : Bytes) (cause : Option Cause) (beside : Operand)
  /-- Send all arguments on, to a fixed receiver or to the method's own, and put `wrap` before a failure. -/
  | relay (name : Name) (target : Option Operand) (wrap : Option Bytes)
  deriving DecidableEq, Repr

namespace Behaviour

/-- How a relay goes on with the answer to its message. -/
def relayed (wrap : Option Bytes) : Except Failure Value → Program
  | .ok v => .done v
  | .error e =>
    match wrap with
    | none => .fail e .nil
    | some text => .fail (.wrapped text e) .nil

/-- What a behaviour does with a receiver and arguments. -/
def program : Behaviour → Value → List Value → Program
  | .receiver, r, _ => .done r
  | .argCount, _, args => .done (.fixnum (Int64.ofNat args.length))
  | .argument index, _, args =>
    if index < 0 then .crash (.indexOutOfRange index args.length)
    else
      match args[index.toNat]? with
      | some v => .done v
      | none => .crash (.indexOutOfRange index args.length)
  | .constant v, _, _ => v.program .done
  | .failing message cause beside, _, _ => beside.program fun v => .fail (.custom message cause) v
  | .relay name none wrap, r, args => .send r (.name name) args (relayed wrap)
  | .relay name (some target) wrap, _, args => target.program fun r => .send r (.name name) args (relayed wrap)

end Behaviour

end Dispatch
