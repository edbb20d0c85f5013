/-
Sessions: a sequence of steps on any number of machines, with symbol tables and method tables that
stand alone beside them. A step names values, machines and tables by number, and answers; what it makes, a
value or a list of values, may be named by later steps.

A table that stands alone can be installed in a machine. From then on its number is one more name for
the machine's table of that kind, whatever is installed there later: the session only remembers where
(`Slot.installed`).
-/
import Dispatch.Behaviour
import Dispatch.Machine
import Dispatch.Wire.Transfer

namespace Dispatch

/-! ## Steps -/

/-- A method table in a step. -/
inductive TableRef where
  /-- A table that was made on its own. -/
  | alone (index : Nat)
  /-- The machine's table of a kind; a tag without a kind has none. -/
  | ofKind (kind : Option Kind)
  deriving DecidableEq, Repr

/-- The method of a definition. -/
structure MethodSpec where
  name : Name
  arity : Option Nat
  behaviour : Behaviour

/-- What a step asks for. -/
inductive Step where
  | new (v : Operand)
  | facts (v : Operand)
  | byteAt (v : Operand) (index : Int)
  | append (v : Operand) (front : Bytes)
  | compare (a b : Operand)
  | sort (vs : List Operand)
  | inspectAll (vs : List Operand)
  | kindName (tag : UInt8)
  | send (receiver : Operand) (selector : Selector) (args : List Operand)
  | respondsTo (kind : Option Kind) (selector : Selector)
  | selectors (kind : Option Kind)
  | newSymbols (capacity : Int)
  /-- The symbol table is the machine's own when none is named. -/
  | intern (table : Option Nat) (name : Name)
  | findSymbol (table : Option Nat) (name : Name)
  | symbolName (table : Option Nat) (s : Symbol)
  | symbols (table : Option Nat)
  | newTable (kind : Option Kind)
  | tableInfo (table : TableRef)
  | define (table : TableRef) (selector : Selector) (method : MethodSpec)
  | findMethod (table : TableRef) (selector : Selector)
  | close (table : TableRef)
  | invoke (table : TableRef) (selector : Selector) (receiver : Operand) (args : List Operand)
  | install (table : Nat) (kind : Kind)
  | marshal (v : Operand)
  | marshalAll (vs : List Operand)
  | unmarshal (data : Bytes)
  | unmarshalAll (data : Bytes)
  | roundTrip (v : Operand)

/-- A step and the machine it is for. -/
structure Request where
  machine : Nat
  step : Step

/-- What a step answers. -/
inductive Answer where
  | value (v : Value)
  | facts (v : Value)
  | byte (b : UInt8)
  | bytes (bs : Bytes)
  | comparison (equal same : Bool) (order : Ordering)
  | values (vs : List Value)
  | text (t : Bytes)
  | kindName (n : Name)
  /-- The answer to a message, and whether it is the receiver itself. -/
  | sent (v : Value) (same : Bool)
  | truth (b : Bool)
  /-- The names, if the kind has any. -/
  | names (ns : Option (List Name))
  | newSymbols (index : Nat)
  /-- A symbol and the number of names then. -/
  | interned (s : Symbol) (size : Nat)
  | found (s : Option Symbol) (size : Nat)
  | symbolName (n : Name)
  | symbols (t : SymbolTable)
  | newTable (index : Nat)
  /-- A table, if the kind has one. -/
  | table (t : Option MethodTable)
  /-- The number of methods after a definition or an installation. -/
  | methods (size : Nat)
  | method (m : Option Method)
  | closed
  | noMethod
  | failure (e : Failure) (beside : Value)
  | transferError (e : Wire.TransferError)
  | crash (c : Crash)
  | roundTrip (v : Value) (data : Bytes) (equal same : Bool)
  /-- The step names something that is not there. -/
  | badRequest
  /-- The messages of the step go deeper than the session allows. -/
  | unfinished

/-! ## Sessions -/

/-- Where a table that was made on its own is kept. -/
inductive Slot where
  | loose (t : MethodTable)
  | installed (machine : Nat) (kind : Kind)

/-- All that later steps can see. -/
structure Session where
  machines : List Machine
  symbolTables : List SymbolTable
  slots : List Slot
  /-- The number of sends that may be open inside another. -/
  nesting : Nat
  /-- The least storage that no string has yet. -/
  fresh : Nat
  /-- What the steps so far have made. -/
  made : List Made

/-- What a step did: its answer, what it made, and the lines it logged. -/
structure Reply where
  answer : Answer
  made : Made
  log : List LogLine

namespace Session

/-- A session with new machines, if they can be made. -/
def start (nesting : Nat) (options : List Options) : Except Crash Session :=
  match Machine.newAll options with
  | .error c => .error c
  | .ok machines => .ok ⟨machines, [], [], nesting, 0, []⟩

/-- The lines that the machines log when they are made. -/
def bootLog (s : Session) : List LogLine := s.machines.map Machine.readyLine

/-- The value of an operand. -/
def operand (s : Session) : Operand → Value × Session
  | .nil => (.nil, s)
  | .bool b => (.bool b, s)
  | .fixnum n => (.fixnum n, s)
  | .string bytes => (.string s.fresh bytes, { s with fresh := s.fresh + 1 })
  | .made ref => (ref.resolve s.made, s)

/-- The values of operands, from the first on. -/
def operands (s : Session) : List Operand → List Value × Session
  | [] => ([], s)
  | o :: os =>
    let (v, s) := s.operand o
    let (vs, s) := s.operands os
    (v :: vs, s)

/-- The session with another machine in place. -/
def setMachine (s : Session) (i : Nat) (mc : Machine) : Session := { s with machines := s.machines.set i mc }

/-- The context in which a machine acts. -/
def context (s : Session) (mc : Machine) : Context := ⟨mc, s.nesting, s.fresh, s.made, []⟩

/-- The session after a machine acted. -/
def after (s : Session) (i : Nat) (c : Context) : Session :=
  { s.setMachine i c.machine with fresh := c.fresh }

/-- The symbol of a selector in a machine. -/
def selector (s : Session) (i : Nat) (mc : Machine) : Selector → Symbol × Machine × Session
  | .symbol sym => (sym, mc, s)
  | .name n =>
    let (sym, symbols) := mc.symbols.intern n
    let mc := { mc with symbols }
    (sym, mc, s.setMachine i mc)

/-- The method table that is meant. -/
def table? (s : Session) (mc : Machine) : TableRef → Option MethodTable
  | .ofKind kind => kind.map mc.table
  | .alone index =>
    match s.slots[index]? with
    | none => none
    | some (.loose t) => some t
    | some (.installed i kind) => (s.machines[i]?).map fun mc => mc.table kind

/-- The session with a machine's table replaced. -/
def setMachineTable (s : Session) (i : Nat) (kind : Kind) (t : MethodTable) : Session :=
  match s.machines[i]? with
  | none => s
  | some mc => s.setMachine i (mc.setTable kind t)

/-- The session with a method table replaced, wherever it is kept. -/
def setTable (s : Session) (i : Nat) (ref : TableRef) (t : MethodTable) : Session :=
  match ref with
  | .ofKind none => s
  | .ofKind (some kind) => s.setMachineTable i kind t
  | .alone index =>
    match s.slots[index]? with
    | none => s
    | some (.loose _) => { s with slots := s.slots.set index (.loose t) }
    | some (.installed i kind) => s.setMachineTable i kind t

/-- The session with a table that was made on its own installed in a machine. The contents of the
machine's table give way, also under the names of tables that were installed there before. -/
def installed (s : Session) (i : Nat) (mc : Machine) (index : Nat) (kind : Kind) (t : MethodTable) :
    Session :=
  { s.setMachine i (mc.setTable kind t) with slots := s.slots.set index (.installed i kind) }

/-! ## Running steps -/

/-- A reply that makes nothing and logs nothing. -/
def reply (answer : Answer) : Reply := ⟨answer, .nothing, []⟩

/-- A reply that makes a value and logs nothing. -/
def replyMaking (answer : Answer) (v : Value) : Reply := ⟨answer, .one v, []⟩

/-- The byte at a place of a string. -/
def byteAt (v : Value) (index : Int) : Answer :=
  match v.bytes? with
  | none => .crash .notAString
  | some bs =>
    if index < 0 then .crash (.indexOutOfRange index bs.length)
    else
      match bs[index.toNat]? with
      | some b => .byte b
      | none => .crash (.indexOutOfRange index bs.length)

/-- The reply to a message or an invocation. -/
def outcomeReply (ok : Value → Answer) (log : List LogLine) : Outcome → Reply
  | .value v => ⟨ok v, .one v, log⟩
  | .failure e beside => ⟨.failure e beside, .nothing, log⟩
  | .crash c => ⟨.crash c, .nothing, log⟩
  | .unfinished => ⟨.unfinished, .nothing, log⟩

/-- The symbol table that is meant: the machine's own when none is named. -/
def symbolTable? (s : Session) (mc : Machine) : Option Nat → Option SymbolTable
  | none => some mc.symbols
  | some index => s.symbolTables[index]?

/-- The session with a symbol table replaced. -/
def setSymbolTable (s : Session) (i : Nat) (mc : Machine) (table : Option Nat) (t : SymbolTable) : Session :=
  match table with
  | none => s.setMachine i { mc with symbols := t }
  | some index => { s with symbolTables := s.symbolTables.set index t }

/-- What a step on the `i`th machine `mc` does. -/
def perform (s : Session) (i : Nat) (mc : Machine) : Step → Reply × Session
  | .new v =>
    let (v, s) := s.operand v
    (replyMaking (.value v) v, s)
  | .facts v =>
    let (v, s) := s.operand v
    (reply (.facts v), s)
  | .byteAt v index =>
    let (v, s) := s.operand v
    (reply (byteAt v index), s)
  | .append v front =>
    let (v, s) := s.operand v
    (reply (.bytes (front ++ v.text)), s)
  | .compare a b =>
    let (a, s) := s.operand a
    let (b, s) := s.operand b
    (reply (.comparison (a.equal b) (a.same b) (a.order b)), s)
  | .sort vs =>
    let (vs, s) := s.operands vs
    (reply (.values (Value.sort vs)), s)
  | .inspectAll vs =>
    let (vs, s) := s.operands vs
    (reply (.text (Value.inspectAll vs)), s)
  | .kindName tag => (reply (.kindName (Kind.nameOf (Kind.ofTag? tag))), s)
  | .send receiver selector args =>
    let (r, s) := s.operand receiver
    let (args, s) := s.operands args
    let (sym, mc, s) := s.selector i mc selector
    let (outcome, c) := (s.context mc).send r sym args
    (outcomeReply (fun v => .sent v (v.same r)) c.log outcome, s.after i c)
  | .respondsTo kind selector =>
    let (sym, mc, s) := s.selector i mc selector
    (reply (.truth (kind.any fun k => mc.respondsTo k sym)), s)
  | .selectors kind => (reply (.names (kind.map mc.selectors)), s)
  | .newSymbols capacity =>
    match SymbolTable.withCapacity capacity with
    | .error c => (reply (.crash c), s)
    | .ok t => (reply (.newSymbols s.symbolTables.length), { s with symbolTables := s.symbolTables ++ [t] })
  | .intern table name =>
    match s.symbolTable? mc table with
    | none => (reply .badRequest, s)
    | some t =>
      let (sym, t) := t.intern name
      (reply (.interned sym t.size), s.setSymbolTable i mc table t)
  | .findSymbol table name =>
    match s.symbolTable? mc table with
    | none => (reply .badRequest, s)
    | some t => (reply (.found (t.find? name) t.size), s)
  | .symbolName table sym =>
    match s.symbolTable? mc table with
    | none => (reply .badRequest, s)
    | some t => (reply (.symbolName (t.name sym)), s)
  | .symbols table =>
    match s.symbolTable? mc table with
    | none => (reply .badRequest, s)
    | some t => (reply (.symbols t), s)
  | .newTable kind =>
    (reply (.newTable s.slots.length), { s with slots := s.slots ++ [.loose (.empty kind)] })
  | .tableInfo table => (reply (.table (s.table? mc table)), s)
  | .define table selector method =>
    let (sym, mc, s) := s.selector i mc selector
    match s.table? mc table with
    | none => (reply (.crash .noContents), s)
    | some t =>
      match t.define sym ⟨method.name, method.arity, method.behaviour.program⟩ with
      | .error c => (reply (.crash c), s)
      | .ok t => (reply (.methods t.size), s.setTable i table t)
  | .findMethod table selector =>
    let (sym, mc, s) := s.selector i mc selector
    match s.table? mc table with
    | none => (reply (.crash .noContents), s)
    | some t => (reply (.method (t.find? sym)), s)
  | .close table =>
    match s.table? mc table with
    | none => (reply (.crash .noContents), s)
    | some t => (reply .closed, s.setTable i table t.close)
  | .invoke table selector receiver args =>
    let (r, s) := s.operand receiver
    let (args, s) := s.operands args
    let (sym, mc, s) := s.selector i mc selector
    match s.table? mc table with
    | none => (reply (.crash .noContents), s)
    | some t =>
      match t.find? sym with
      | none => (reply .noMethod, s)
      | some m =>
        let (outcome, c) := (s.context mc).invoke m r args
        (outcomeReply .value c.log outcome, s.after i c)
  | .install index kind =>
    match s.table? mc (.alone index) with
    | none => (reply .badRequest, s)
    | some t => (reply (.methods t.size), s.installed i mc index kind t)
  | .marshal v =>
    let (v, s) := s.operand v
    (reply (.bytes (Wire.marshal v)), s)
  | .marshalAll vs =>
    let (vs, s) := s.operands vs
    (reply (.bytes (Wire.marshalAll vs)), s)
  | .unmarshal data =>
    match Wire.unmarshal s.fresh data with
    | .error e => (reply (.transferError e), s)
    | .ok (v, fresh) => (replyMaking (.value v) v, { s with fresh })
  | .unmarshalAll data =>
    match Wire.unmarshalAll s.fresh data with
    | .error e => (reply (.transferError e), s)
    | .ok (vs, fresh) => (⟨.values vs, .list vs, []⟩, { s with fresh })
  | .roundTrip v =>
    let (v, s) := s.operand v
    let data := Wire.marshal v
    match Wire.unmarshal s.fresh data with
    | .error e => (reply (.transferError e), s)
    | .ok (w, fresh) => (replyMaking (.roundTrip w data (v.equal w) (v.same w)) w, { s with fresh })

/-- Answer a request, and keep what it makes. -/
def handle (s : Session) (request : Request) : Reply × Session :=
  let (r, s) :=
    match s.machines[request.machine]? with
    | none => (reply .badRequest, s)
    | some mc => s.perform request.machine mc request.step
  (r, { s with made := s.made ++ [r.made] })

/-- Answer requests in turn. -/
def run (s : Session) : List Request → List Reply × Session
  | [] => ([], s)
  | request :: requests =>
    let (r, s) := s.handle request
    let (rs, s) := s.run requests
    (r :: rs, s)

end Session

end Dispatch
