/-
Methods. What a method does with a receiver and arguments is a `Program`: it ends with a value, a
failure or a crash, and on the way it may make strings, take up values made before it started, and send
messages of its own, by symbol or by name. How the answer of such a message goes on is a function of the
answer, so a program may pass a failure on, put a text before it, or drop it.

A method also has a name, which its failures carry, and an arity, which is checked before the program
starts.
-/
import Dispatch.Symbol
import Dispatch.Value

namespace Dispatch

/-! ## Values made before -/

/-- What was made at one step: a value, nil if there is none, and the elements of a list, if it was one. -/
structure Made where
  value : Value
  elements : List Value
  deriving DecidableEq, Repr

/-- Nothing was made. -/
def Made.nothing : Made := ⟨.nil, []⟩

/-- A value was made. -/
def Made.one (v : Value) : Made := ⟨v, []⟩

/-- A list was made. -/
def Made.list (vs : List Value) : Made := ⟨.nil, vs⟩

/-- The name of a value that was made: the value of a step, or an element of the list of a step. -/
inductive Reference where
  | value (step : Nat)
  | element (step index : Nat)
  deriving DecidableEq, Repr

namespace Reference

/-- The step that made the value. -/
def step : Reference → Nat
  | .value step => step
  | .element step _ => step

/-- The value among those of its step, nil if there is none. -/
def pick (made : Made) : Reference → Value
  | .value _ => made.value
  | .element _ index => made.elements.getD index .nil

/-- The value that is meant, nil if there is none. -/
def resolve (made : List Made) (ref : Reference) : Value := ref.pick (made.getD ref.step .nothing)

end Reference

/-! ## Programs -/

/-- What a message asks for: a symbol, or a name to intern. -/
inductive Selector where
  | symbol (s : Symbol)
  | name (n : Name)
  deriving DecidableEq, Repr

/-- What a method does. -/
inductive Program where
  | done (v : Value)
  /-- A failure; a method may hand out a value beside it. -/
  | fail (e : Failure) (beside : Value)
  | crash (c : Crash)
  /-- Make a string with storage of its own, and go on with it. -/
  | newString (bytes : Bytes) (next : Value → Program)
  /-- Go on with a value that was made before, nil if there is none. -/
  | recall (ref : Reference) (next : Value → Program)
  /-- Send a message, and go on with its answer. -/
  | send (receiver : Value) (selector : Selector) (args : List Value) (next : Except Failure Value → Program)

/-- A named way to answer a message. -/
structure Method where
  name : Name
  /-- The number of arguments it takes; `none` takes any. -/
  arity : Option Nat
  body : Value → List Value → Program

/-- The program of a method for a receiver and arguments, after the check of their number. -/
def Method.invoke (m : Method) (receiver : Value) (args : List Value) : Program :=
  match m.arity with
  | none => m.body receiver args
  | some n =>
    if args.length = n then m.body receiver args
    else .fail (.arity m.name n args.length) .nil

end Dispatch
