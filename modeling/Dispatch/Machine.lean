/-
A machine: its interned names and a method table for each kind. To send a message is to look the
symbol up in the table of the receiver's kind and to run the method's program.

A program may send messages itself, so a send has a `depth`, the number of sends that may be open at
once. A send that needs more ends `unfinished`; one that ends otherwise ends the same way at every
greater depth. How much a context allows is up to its user (`Context.nesting`).
-/
import Dispatch.Builtin
import Dispatch.Log
import Dispatch.MethodTable

namespace Dispatch

/-- How a machine is made. -/
structure Options where
  /-- The number of names to make room for. -/
  symbolCapacity : Int
  /-- Whether every send is logged. -/
  trace : Bool
  deriving DecidableEq, Repr

/-- The options of a machine when none are given. -/
def Options.default : Options := ⟨256, false⟩

/-- The interned names and the method tables of one session. -/
structure Machine where
  symbols : SymbolTable
  table : Kind → MethodTable
  trace : Bool

namespace Machine

/-- The machine with `t` as the table of `k`. -/
def setTable (mc : Machine) (k : Kind) (t : MethodTable) : Machine :=
  { mc with table := fun k' => if k' = k then t else mc.table k' }

/-- The kinds in ascending order. -/
def kinds : List Kind := [.nil, .bool, .fixnum, .string]

/-- The number of methods in all tables. -/
def methodCount (mc : Machine) : Nat := kinds.foldl (fun n k => n + (mc.table k).size) 0

/-- A machine without methods. -/
def bare (symbols : SymbolTable) (trace : Bool) : Machine := ⟨symbols, fun k => .empty (some k), trace⟩

/-- The machine with one more built-in, unless the table of its kind is sealed. -/
def addBuiltin (mc : Machine) (b : Builtin) : Machine :=
  let (s, symbols) := mc.symbols.intern b.name
  match (mc.table b.kind).define s b.method with
  | .ok t => { mc with symbols }.setTable b.kind t
  | .error _ => { mc with symbols }

/-- A machine with the built-ins in their order, and every table sealed. -/
def boot (symbols : SymbolTable) (trace : Bool) : Machine :=
  let mc := Builtin.all.foldl addBuiltin (bare symbols trace)
  { mc with table := fun k => (mc.table k).close }

/-- A new machine, if there can be room for its names. -/
def new (options : Options) : Except Crash Machine :=
  match SymbolTable.withCapacity options.symbolCapacity with
  | .error c => .error c
  | .ok symbols => .ok (boot symbols options.trace)

/-- New machines in turn; the first that cannot be made ends it. -/
def newAll : List Options → Except Crash (List Machine)
  | [] => .ok []
  | options :: rest =>
    match new options with
    | .error c => .error c
    | .ok mc =>
      match newAll rest with
      | .error c => .error c
      | .ok mcs => .ok (mc :: mcs)

/-- The line that a new machine logs. -/
def readyLine (mc : Machine) : LogLine := .ready mc.methodCount mc.symbols.size

/-- Whether a receiver of kind `k` answers the symbol. -/
def respondsTo (mc : Machine) (k : Kind) (s : Symbol) : Bool := ((mc.table k).find? s).isSome

/-- The names that a receiver of kind `k` answers, in the order of their symbols. -/
def selectors (mc : Machine) (k : Kind) : List Name := (mc.table k).symbols.map mc.symbols.name

end Machine

/-- What sends act on: a machine, how deep they may go, the least storage that no string has yet, what
was made before, which programs may recall, and the log so far. -/
structure Context where
  machine : Machine
  /-- The number of sends that may be open inside another. -/
  nesting : Nat
  fresh : Nat
  made : List Made
  log : List LogLine

namespace Context

/-- Add a line to the log. -/
def record (c : Context) (line : LogLine) : Context := { c with log := c.log ++ [line] }

/-- The symbol of a name, interned. -/
def intern (c : Context) (name : Name) : Symbol × Context :=
  let (s, symbols) := c.machine.symbols.intern name
  (s, { c with machine := { c.machine with symbols } })

/-- The symbol of a selector; a name is interned. -/
def select (c : Context) : Selector → Symbol × Context
  | .symbol s => (s, c)
  | .name n => c.intern n

/-- A new string. -/
def newString (c : Context) (bytes : Bytes) : Value × Context :=
  (.string c.fresh bytes, { c with fresh := c.fresh + 1 })

end Context

/-- How a program or a send ends. -/
inductive Outcome where
  | value (v : Value)
  | failure (e : Failure) (beside : Value)
  | crash (c : Crash)
  /-- More sends were open at once than the depth allows. -/
  | unfinished
  deriving DecidableEq, Repr

/-- Run a program whose messages are answered by `answer`. -/
def Program.run (answer : Value → Selector → List Value → Context → Outcome × Context) :
    Program → Context → Outcome × Context
  | .done v, c => (.value v, c)
  | .fail e beside, c => (.failure e beside, c)
  | .crash p, c => (.crash p, c)
  | .newString bytes next, c =>
    let (v, c) := c.newString bytes
    (next v).run answer c
  | .recall ref next, c => (next (ref.resolve c.made)).run answer c
  | .send receiver selector args next, c =>
    match answer receiver selector args c with
    | (.value v, c) => (next (.ok v)).run answer c
    | (.failure e _, c) => (next (.error e)).run answer c
    | (.crash p, c) => (.crash p, c)
    | (.unfinished, c) => (.unfinished, c)

namespace Context

/-- Send a symbol to a receiver, with at most `depth` sends open at once. -/
def sendWithin (depth : Nat) (receiver : Value) (s : Symbol) (args : List Value) (c : Context) :
    Outcome × Context :=
  match depth with
  | 0 => (.unfinished, c)
  | depth + 1 =>
    let kind := receiver.kind
    let name := c.machine.symbols.name s
    let c := if c.machine.trace then c.record (.sending kind name args.length) else c
    match (c.machine.table kind).find? s with
    | none => (.failure (.dispatch kind name .unanswered) .nil, c.record (.unanswered kind name))
    | some m =>
      let answer := fun receiver selector args c =>
        let (s, c) := select c selector
        sendWithin depth receiver s args c
      match (m.invoke receiver args).run answer c with
      | (.failure e _, c) => (.failure (e.ofMethod kind m.name) .nil, c)
      | result => result

/-- Send a symbol to a receiver. -/
def send (c : Context) (receiver : Value) (s : Symbol) (args : List Value) : Outcome × Context :=
  c.sendWithin (c.nesting + 1) receiver s args

/-- Send what a selector asks for. -/
def sendSelector (c : Context) (receiver : Value) (selector : Selector) (args : List Value) : Outcome × Context :=
  let (s, c) := c.select selector
  c.send receiver s args

/-- Intern a name and send it. -/
def sendName (c : Context) (receiver : Value) (name : Name) (args : List Value) : Outcome × Context :=
  c.sendSelector receiver (.name name) args

/-- Run a method on a receiver outside a send. -/
def invoke (c : Context) (m : Method) (receiver : Value) (args : List Value) : Outcome × Context :=
  (m.invoke receiver args).run (fun receiver selector args c => c.sendSelector receiver selector args) c

end Context

end Dispatch
