/-
Options change nothing but the log. What a machine does never depends on whether it traces, however deep its methods
send messages of their own and whatever they make of the answers. The sends that are performed form a forest (`Sends`):
each has the sends of its method below it. It is read off the messages that programs send, not off the log, and
`Sends.lines` says what a machine logs for it, with and without tracing.

For every flag and every log so far, a send ends the same way and adds these lines (`Context.sendWithin_retraced`). The
same then holds for steps and for whole sessions (`Session.perform_retraced`, `Session.run_retraced`), and two sessions
whose machines were made with other options run alike (`Session.run_unaffected_by_options`).
-/
import Dispatch.Proofs.FailureOrigins
import Dispatch.Proofs.Isolation

namespace Dispatch

/-! ## The sends that are performed -/

/-- Sends that were performed one after the other, each with those that its method performed. -/
inductive Sends where
  | none
  /-- A look-up that failed, and what came next. -/
  | unanswered (kind : Kind) (selector : Name) (argc : Nat) (next : Sends)
  | answered (kind : Kind) (selector : Name) (argc : Nat) (inner next : Sends)
  deriving DecidableEq, Repr

namespace LogLine

/-- The kind, the selector and the number of arguments of a message that the line announces. -/
def sending? : LogLine → Option (Kind × Name × Nat)
  | .sending kind selector argc => some (kind, selector, argc)
  | _ => none

/-- The kind and the selector of a failed look-up that the line reports. -/
def unanswered? : LogLine → Option (Kind × Name)
  | .unanswered kind selector => some (kind, selector)
  | _ => none

/-- The line that announces a message, on a machine that traces. -/
def announce (trace : Bool) (kind : Kind) (selector : Name) (argc : Nat) : List LogLine :=
  if trace then [.sending kind selector argc] else []

end LogLine

namespace Sends

/-- The sends of two stretches of time. -/
def append : Sends → Sends → Sends
  | .none, after => after
  | .unanswered kind selector argc next, after => .unanswered kind selector argc (next.append after)
  | .answered kind selector argc inner next, after => .answered kind selector argc inner (next.append after)

/-- What a machine logs: a message is announced before all that it leads to, if the machine traces, and a failed look-up
is reported where it happens. -/
def lines (trace : Bool) : Sends → List LogLine
  | .none => []
  | .unanswered kind selector argc next =>
    LogLine.announce trace kind selector argc ++ .unanswered kind selector :: next.lines trace
  | .answered kind selector argc inner next =>
    LogLine.announce trace kind selector argc ++ inner.lines trace ++ next.lines trace

/-- All sends, each before those of its method. -/
def all : Sends → List (Kind × Name × Nat)
  | .none => []
  | .unanswered kind selector argc next => (kind, selector, argc) :: next.all
  | .answered kind selector argc inner next => (kind, selector, argc) :: (inner.all ++ next.all)

/-- The sends whose look-up failed. -/
def failed : Sends → List (Kind × Name)
  | .none => []
  | .unanswered kind selector _ next => (kind, selector) :: next.failed
  | .answered _ _ _ inner next => inner.failed ++ next.failed

theorem lines_append (trace : Bool) (before after : Sends) :
    (before.append after).lines trace = before.lines trace ++ after.lines trace := by
  induction before with
  | none => rfl
  | unanswered kind selector argc next ih => simp [append, lines, ih]
  | answered kind selector argc inner next _ ih => simp [append, lines, ih]

/-- Without tracing, the lines that announce messages are missing, and no others. -/
theorem lines_false (sends : Sends) :
    sends.lines false = (sends.lines true).filter fun line => line.sending?.isNone := by
  induction sends with
  | none => rfl
  | unanswered kind selector argc next ih => simp [lines, LogLine.announce, LogLine.sending?, ih]
  | answered kind selector argc inner next ihInner ih => simp [lines, LogLine.announce, LogLine.sending?, ihInner, ih]

/-- With tracing, every send is announced once, each before those of its method. -/
theorem filterMap_sending?_lines (sends : Sends) : (sends.lines true).filterMap LogLine.sending? = sends.all := by
  induction sends with
  | none => rfl
  | unanswered kind selector argc next ih =>
    simp [lines, all, LogLine.announce, LogLine.sending?, List.filterMap_cons, ih]
  | answered kind selector argc inner next ihInner ih =>
    simp [lines, all, LogLine.announce, LogLine.sending?, ihInner, ih]

/-- Every failed look-up is reported once, with tracing or without. -/
theorem filterMap_unanswered?_lines (trace : Bool) (sends : Sends) :
    (sends.lines trace).filterMap LogLine.unanswered? = sends.failed := by
  have hannounce : ∀ kind selector argc,
      (LogLine.announce trace kind selector argc).filterMap LogLine.unanswered? = [] := by
    intro kind selector argc
    cases trace <;> rfl
  induction sends with
  | none => rfl
  | unanswered kind selector argc next ih => simp [lines, failed, hannounce, LogLine.unanswered?, ih]
  | answered kind selector argc inner next ihInner ih => simp [lines, failed, hannounce, ihInner, ih]

end Sends

/-- The sends of a program whose messages are answered by `answer`, `inner` being those of one message. -/
def Program.sends (answer : Answering) (inner : Value → Selector → List Value → Context → Sends) (p : Program)
    (c : Context) : Sends :=
  (p.calls answer c).foldr
    (fun call after => (inner call.receiver call.selector call.args call.context).append after) .none

/-- The sends that a send comes to, itself first. -/
def Context.sends (depth : Nat) (r : Value) (s : Symbol) (args : List Value) (c : Context) : Sends :=
  match depth with
  | 0 => .none
  | depth + 1 =>
    match (c.machine.table r.kind).find? s with
    | none => .unanswered r.kind (c.machine.symbols.name s) args.length .none
    | some m =>
      let inner := fun r sel args (c : Context) => (c.select sel).2.sends depth r (c.select sel).1 args
      .answered r.kind (c.machine.symbols.name s) args.length
        ((m.invoke r args).sends (answerWithin depth) inner (c.traced r s args)) .none

/-! ## Another flag -/

/-- The machine with tracing switched on or off. -/
def Machine.retraced (trace : Bool) (mc : Machine) : Machine := { mc with trace }

namespace Context

/-- The context with another flag and another log so far. -/
def retraced (trace : Bool) (log : List LogLine) (c : Context) : Context :=
  { c with machine := c.machine.retraced trace, log }

/-- The result when the flag and the log so far are others, and `sends` are performed. -/
def retold (trace : Bool) (log : List LogLine) (sends : Sends) (result : Outcome × Context) : Outcome × Context :=
  (result.1, result.2.retraced trace (log ++ sends.lines trace))

variable {trace : Bool} {log : List LogLine}

theorem retold_append (before after : Sends) (result : Outcome × Context) :
    retold trace (log ++ before.lines trace) after result = retold trace log (before.append after) result := by
  simp only [retold, Sends.lines_append, List.append_assoc]

/-- Answers to messages that the flag changes in what they log only, `inner` being the sends of a message. -/
def Retells (answer : Answering) (inner : Value → Selector → List Value → Context → Sends) : Prop :=
  ∀ trace log r sel args c,
    answer r sel args (c.retraced trace log) = retold trace log (inner r sel args c) (answer r sel args c)

theorem select_retraced (c : Context) (sel : Selector) :
    (c.retraced trace log).select sel = ((c.select sel).1, (c.select sel).2.retraced trace log) := by
  cases sel <;> rfl

end Context

open Context in
theorem Program.run_retraced {answer : Answering} {inner} (h : Retells answer inner) (trace : Bool) (p : Program) :
    ∀ (log : List LogLine) (c : Context),
      p.run answer (c.retraced trace log) = retold trace log (p.sends answer inner c) (p.run answer c) := by
  induction p with
  | done | fail | crash => simp [run, retold, sends, calls, Sends.lines]
  | newString bytes next ih => exact fun log c => ih _ log (c.newString bytes).2
  | «recall» ref next ih => exact fun log c => ih _ log c
  | send r sel args next ih =>
    intro log c
    simp only [run, sends, calls, List.foldr_cons, h trace log, ← retold_append]
    rcases answer r sel args c with ⟨o, c'⟩
    cases o with
    | value v => exact ih (.ok v) _ c'
    | failure e beside => exact ih (.error e) _ c'
    | crash | unfinished => simp [retold, Sends.lines]

namespace Context

variable {trace : Bool} {log : List LogLine}

theorem ofRun_retold (kind : Kind) (method : Name) (sends : Sends) (result : Outcome × Context) :
    ofRun kind method (retold trace log sends result) = retold trace log sends (ofRun kind method result) := by
  obtain ⟨o, c⟩ := result
  cases o <;> rfl

/-- **A send does not depend on tracing.** Whatever the flag and the log so far, it ends the same way, leaves the same
names, tables and storage, and adds the lines of the same sends. -/
theorem sendWithin_retraced (depth : Nat) : ∀ (trace : Bool) (log : List LogLine) r s args (c : Context),
    (c.retraced trace log).sendWithin depth r s args =
      retold trace log (c.sends depth r s args) (c.sendWithin depth r s args) := by
  induction depth with
  | zero => simp [sendWithin, sends, retold, Sends.lines]
  | succ depth ih =>
    intro trace log r s args c
    cases hf : (c.machine.table r.kind).find? s with
    | none =>
      have hf' : ((c.retraced trace log).machine.table r.kind).find? s = none := hf
      rw [sendWithin_missing hf, sendWithin_missing hf']
      simp only [sends, hf, retold, Sends.lines, ← List.append_assoc]
      rfl
    | some m =>
      have hf' : ((c.retraced trace log).machine.table r.kind).find? s = some m := hf
      have hanswers : Retells (answerWithin depth) fun r sel args c =>
          (c.select sel).2.sends depth r (c.select sel).1 args := by
        intro trace log r sel args c
        simp only [answerWithin, select_retraced]
        exact ih trace log r (c.select sel).1 args (c.select sel).2
      have htraced : (c.retraced trace log).traced r s args = (c.traced r s args).retraced trace
        (log ++ LogLine.announce trace r.kind (c.machine.symbols.name s) args.length) := rfl
      rw [sendWithin_found hf, sendWithin_found hf', htraced, Program.run_retraced hanswers, ofRun_retold]
      simp only [sends, hf, retold, Sends.lines, List.append_nil, List.append_assoc]

/-- The sends of a message. -/
def sendsOf (r : Value) (sel : Selector) (args : List Value) (c : Context) : Sends :=
  (c.select sel).2.sends ((c.select sel).2.nesting + 1) r (c.select sel).1 args

/-- The sends of a method that is run outside a send. -/
def sendsOfMethod (m : Method) (r : Value) (args : List Value) (c : Context) : Sends :=
  (m.invoke r args).sends (fun r sel args c => c.sendSelector r sel args) sendsOf c

theorem send_retraced (c : Context) (r : Value) (s : Symbol) (args : List Value) :
    (c.retraced trace log).send r s args = retold trace log (c.sends (c.nesting + 1) r s args) (c.send r s args) :=
  sendWithin_retraced (c.nesting + 1) trace log r s args c

theorem invoke_retraced (c : Context) (m : Method) (r : Value) (args : List Value) :
    (c.retraced trace log).invoke m r args = retold trace log (c.sendsOfMethod m r args) (c.invoke m r args) := by
  have hanswers : Retells (fun r sel args c => c.sendSelector r sel args) sendsOf := by
    intro trace log r sel args c
    simp only [sendSelector, select_retraced]
    exact send_retraced (c.select sel).2 r (c.select sel).1 args
  exact Program.run_retraced hanswers trace _ log c

end Context

/-! ## Sessions -/

namespace Session

variable {trace : Nat → Bool} {s : Session} {i : Nat} {mc : Machine}

/-- The session with tracing switched on or off in its machines. -/
def retraced (trace : Nat → Bool) (s : Session) : Session :=
  { s with machines := s.machines.mapIdx fun i mc => mc.retraced (trace i) }

/-- What a step of the `i`th machine comes to when the flags are others, and `sends` are performed. -/
def retold (trace : Nat → Bool) (i : Nat) (sends : Sends) (result : Reply × Session) : Reply × Session :=
  ({ result.1 with log := sends.lines (trace i) }, result.2.retraced trace)

/-- The sends of a step. -/
def stepSends (s : Session) (i : Nat) (mc : Machine) : Step → Sends
  | .send receiver selector args =>
    let (r, s) := s.operand receiver
    let (args, s) := s.operands args
    let (sym, mc, s) := s.selector i mc selector
    (s.context mc).sends (s.nesting + 1) r sym args
  | .invoke table selector receiver args =>
    let (r, s) := s.operand receiver
    let (args, s) := s.operands args
    let (sym, mc, s) := s.selector i mc selector
    match (s.table? mc table).bind fun t => t.find? sym with
    | none => .none
    | some m => (s.context mc).sendsOfMethod m r args
  | _ => .none

/-- The sends of a request. -/
def sends (s : Session) (q : Request) : Sends :=
  match s.machines[q.machine]? with
  | none => .none
  | some mc => s.stepSends q.machine mc q.step

theorem retraced_getElem? (trace : Nat → Bool) (s : Session) (i : Nat) :
    (s.retraced trace).machines[i]? = (s.machines[i]?).map (Machine.retraced (trace i)) := by
  simp [retraced]

theorem setMachine_retraced (s : Session) (i : Nat) (mc : Machine) :
    (s.retraced trace).setMachine i (mc.retraced (trace i)) = (s.setMachine i mc).retraced trace := by
  simp [retraced, setMachine, List.mapIdx_set]

theorem operand_retraced (s : Session) (o : Operand) :
    (s.retraced trace).operand o = ((s.operand o).1, (s.operand o).2.retraced trace) := by
  cases o <;> rfl

theorem operands_retraced (os : List Operand) : ∀ s : Session,
    (s.retraced trace).operands os = ((s.operands os).1, (s.operands os).2.retraced trace) := by
  induction os with
  | nil => exact fun _ => rfl
  | cons o os ih =>
    intro s
    simp only [Session.operands, operand_retraced, ih]

theorem selector_retraced (s : Session) (i : Nat) (mc : Machine) (sel : Selector) :
    (s.retraced trace).selector i (mc.retraced (trace i)) sel = ((s.selector i mc sel).1,
      (s.selector i mc sel).2.1.retraced (trace i), (s.selector i mc sel).2.2.retraced trace) := by
  cases sel with
  | symbol sym => rfl
  | name n =>
    simp only [Session.selector, ← setMachine_retraced]
    rfl

theorem table?_retraced (s : Session) (b : Bool) (mc : Machine) (ref : TableRef) :
    (s.retraced trace).table? (mc.retraced b) ref = s.table? mc ref := by
  cases ref with
  | ofKind kind => rfl
  | alone index =>
    have hslots : (s.retraced trace).slots = s.slots := rfl
    simp only [Session.table?, hslots, retraced_getElem?, Option.map_map]
    rfl

theorem setMachineTable_retraced (s : Session) (i : Nat) (k : Kind) (t : MethodTable) :
    (s.retraced trace).setMachineTable i k t = (s.setMachineTable i k t).retraced trace := by
  simp only [setMachineTable, retraced_getElem?]
  cases hi : s.machines[i]? with
  | none => rfl
  | some mc => exact setMachine_retraced s i (mc.setTable k t)

theorem setTable_retraced (s : Session) (i : Nat) (ref : TableRef) (t : MethodTable) :
    (s.retraced trace).setTable i ref t = (s.setTable i ref t).retraced trace := by
  cases ref with
  | ofKind kind =>
    cases kind with
    | none => rfl
    | some k => exact setMachineTable_retraced s i k t
  | alone index =>
    have hslots : (s.retraced trace).slots = s.slots := rfl
    simp only [Session.setTable, hslots, setMachineTable_retraced]
    split <;> rfl

theorem symbolTable?_retraced (s : Session) (b : Bool) (mc : Machine) (table : Option Nat) :
    (s.retraced trace).symbolTable? (mc.retraced b) table = s.symbolTable? mc table := by
  cases table <;> rfl

theorem setSymbolTable_retraced (s : Session) (i : Nat) (mc : Machine) (table : Option Nat) (t : SymbolTable) :
    (s.retraced trace).setSymbolTable i (mc.retraced (trace i)) table t =
      (s.setSymbolTable i mc table t).retraced trace := by
  cases table with
  | none => exact setMachine_retraced s i { mc with symbols := t }
  | some index => rfl

theorem installed_retraced (s : Session) (i : Nat) (mc : Machine) (index : Nat) (k : Kind) (t : MethodTable) :
    (s.retraced trace).installed i (mc.retraced (trace i)) index k t = (s.installed i mc index k t).retraced trace := by
  simp only [Session.installed, retraced, setMachine, List.mapIdx_set]
  rfl

theorem context_retraced (s : Session) (b : Bool) (mc : Machine) :
    (s.retraced trace).context (mc.retraced b) = (s.context mc).retraced b [] :=
  rfl

theorem after_retraced (s : Session) (i : Nat) (c : Context) (log : List LogLine) :
    (s.retraced trace).after i (c.retraced (trace i) log) = (s.after i c).retraced trace := by
  simp only [Session.after, retraced, setMachine, List.mapIdx_set]
  rfl

/-- The reply to a message or an invocation, when the flag is another. -/
theorem outcomeReply_retold (ok : Value → Answer) (sends : Sends) (s : Session) (result : Outcome × Context) :
    (outcomeReply ok (Context.retold (trace i) [] sends result).2.log (Context.retold (trace i) [] sends result).1,
        (s.retraced trace).after i (Context.retold (trace i) [] sends result).2) =
      retold trace i sends (outcomeReply ok result.2.log result.1, s.after i result.2) := by
  obtain ⟨o, c⟩ := result
  simp only [Context.retold, after_retraced, retold]
  cases o <;> rfl

/-- A step does the same whatever the flags are, and it logs the lines of its sends. -/
theorem perform_retraced (s : Session) (i : Nat) (mc : Machine) (step : Step) :
    (s.retraced trace).perform i (mc.retraced (trace i)) step =
      retold trace i (s.stepSends i mc step) (s.perform i mc step) := by
  cases step with
  | new v | facts v | byteAt v | append v | marshal v =>
    simp only [Session.perform, operand_retraced]
    rfl
  | compare a b =>
    simp only [Session.perform, operand_retraced]
    rfl
  | sort vs | inspectAll vs | marshalAll vs =>
    simp only [Session.perform, operands_retraced]
    rfl
  | kindName | selectors | newTable => rfl
  | newSymbols capacity =>
    simp only [Session.perform]
    cases SymbolTable.withCapacity capacity <;> rfl
  | send receiver sel args =>
    simp only [Session.perform, operand_retraced, operands_retraced, selector_retraced, context_retraced,
      Context.send_retraced]
    exact outcomeReply_retold _ _ _ _
  | respondsTo kind sel =>
    simp only [Session.perform, selector_retraced]
    rfl
  | intern table name =>
    simp only [Session.perform, symbolTable?_retraced]
    cases s.symbolTable? mc table with
    | none => rfl
    | some t =>
      simp only [setSymbolTable_retraced]
      rfl
  | findSymbol table | symbolName table | symbols table =>
    simp only [Session.perform, symbolTable?_retraced]
    cases s.symbolTable? mc table <;> rfl
  | tableInfo ref =>
    simp only [Session.perform, table?_retraced]
    rfl
  | define ref sel m =>
    simp only [Session.perform, selector_retraced, table?_retraced]
    cases (s.selector i mc sel).2.2.table? (s.selector i mc sel).2.1 ref with
    | none => rfl
    | some t =>
      cases hd : t.define (s.selector i mc sel).1 ⟨m.name, m.arity, m.behaviour.program⟩ with
      | error =>
        simp only [hd]
        rfl
      | ok t' =>
        simp only [hd, setTable_retraced]
        rfl
  | findMethod ref sel =>
    simp only [Session.perform, selector_retraced, table?_retraced]
    cases (s.selector i mc sel).2.2.table? (s.selector i mc sel).2.1 ref <;> rfl
  | close ref =>
    simp only [Session.perform, table?_retraced]
    cases s.table? mc ref with
    | none => rfl
    | some t =>
      simp only [setTable_retraced]
      rfl
  | invoke ref sel receiver args =>
    simp only [Session.perform, stepSends, operand_retraced, operands_retraced, selector_retraced, table?_retraced,
      context_retraced, Context.invoke_retraced]
    generalize ((s.operand receiver).2.operands args).2.selector i mc sel = selected
    obtain ⟨sym, mc', s'⟩ := selected
    cases s'.table? mc' ref with
    | none => rfl
    | some t =>
      simp only [Option.bind_some]
      cases t.find? sym with
      | none => rfl
      | some m => exact outcomeReply_retold _ _ _ _
  | install index kind =>
    simp only [Session.perform, table?_retraced]
    cases s.table? mc (.alone index) with
    | none => rfl
    | some t =>
      simp only [installed_retraced]
      rfl
  | unmarshal data =>
    have hfresh : (s.retraced trace).fresh = s.fresh := rfl
    simp only [Session.perform, hfresh]
    cases Wire.unmarshal s.fresh data <;> rfl
  | unmarshalAll data =>
    have hfresh : (s.retraced trace).fresh = s.fresh := rfl
    simp only [Session.perform, hfresh]
    cases Wire.unmarshalAll s.fresh data <;> rfl
  | roundTrip v =>
    have hfresh : ((s.operand v).2.retraced trace).fresh = (s.operand v).2.fresh := rfl
    simp only [Session.perform, operand_retraced, hfresh]
    cases Wire.unmarshal (s.operand v).2.fresh (Wire.marshal (s.operand v).1) <;> rfl

theorem handle_retraced (s : Session) (q : Request) :
    (s.retraced trace).handle q = retold trace q.machine (s.sends q) (s.handle q) := by
  simp only [Session.handle, sends, retraced_getElem?]
  cases s.machines[q.machine]? with
  | none => rfl
  | some mc =>
    simp only [Option.map_some, perform_retraced]
    rfl

theorem run_retraced (requests : List Request) : ∀ s : Session,
    ((s.retraced trace).run requests).2 = (s.run requests).2.retraced trace := by
  induction requests with
  | nil => exact fun _ => rfl
  | cons q qs ih =>
    intro s
    simp only [Session.run, handle_retraced]
    exact ih (s.handle q).2

end Session

/-! ## Other options -/

namespace Machine

theorem addBuiltin_retraced (trace : Bool) (mc : Machine) (b : Builtin) :
    (mc.retraced trace).addBuiltin b = (mc.addBuiltin b).retraced trace := by
  simp only [addBuiltin, retraced]
  split <;> rfl

theorem foldl_addBuiltin_retraced (trace : Bool) (bs : List Builtin) : ∀ mc : Machine,
    bs.foldl addBuiltin (mc.retraced trace) = (bs.foldl addBuiltin mc).retraced trace := by
  induction bs with
  | nil => exact fun _ => rfl
  | cons b bs ih =>
    intro mc
    rw [List.foldl_cons, addBuiltin_retraced, ih, List.foldl_cons]

theorem boot_retraced (symbols : SymbolTable) (trace trace' : Bool) :
    (boot symbols trace).retraced trace' = boot symbols trace' := by
  have hbare : bare symbols trace' = (bare symbols trace).retraced trace' := rfl
  have hfold := foldl_addBuiltin_retraced trace' Builtin.all (bare symbols trace)
  simp only [boot, hbare, hfold]
  generalize Builtin.all.foldl addBuiltin (bare symbols trace) = mc
  rfl

theorem boot_trace (symbols : SymbolTable) (trace : Bool) : (boot symbols trace).trace = trace := by
  rw [← boot_retraced symbols trace trace]
  rfl

end Machine

namespace Session

/-- Which machines trace. -/
def traces (s : Session) (i : Nat) : Bool := (s.machines[i]?).any Machine.trace

/-- The session with method tables beside it, which may hold any methods. -/
def withTables (s : Session) (tables : List MethodTable) : Session := { s with slots := tables.map .loose }

theorem retraced_traces (s : Session) : s.retraced s.traces = s := by
  have hmachines : (s.retraced s.traces).machines = s.machines := by
    refine List.ext_getElem? fun i => ?_
    rw [retraced_getElem?]
    cases hi : s.machines[i]? with
    | none => rfl
    | some mc =>
      simp only [traces, hi]
      rfl
  exact congrArg (fun machines => { s with machines }) hmachines

/-- Two sessions whose machines were made with other options differ in the flags. -/
theorem start_retraced {nesting : Nat} {options : List (Options × Options)} {s s' : Session}
    (h : start nesting (options.map Prod.fst) = .ok s) (h' : start nesting (options.map Prod.snd) = .ok s') :
    s.retraced s'.traces = s' := by
  rw [eq_of_start h, eq_of_start h']
  simp only [retraced, mk.injEq, and_true]
  refine List.ext_getElem? fun i => ?_
  simp only [traces, List.getElem?_mapIdx, List.getElem?_map]
  cases options[i]? with
  | none => rfl
  | some pair => simp only [Option.map_some, Option.any_some, Machine.boot_trace, Machine.boot_retraced]

theorem bootLog_retraced (trace : Nat → Bool) (s : Session) : (s.retraced trace).bootLog = s.bootLog := by
  refine List.ext_getElem? fun i => ?_
  simp only [bootLog, List.getElem?_map, retraced_getElem?, Option.map_map]
  rfl

/-- Two replies to a request that performed `sends`, on machines with the flags `trace` and `trace'`. -/
structure Alike (sends : Sends) (trace trace' : Bool) (r r' : Reply) : Prop where
  answer : r'.answer = r.answer
  made : r'.made = r.made
  log : r.log = sends.lines trace ∧ r'.log = sends.lines trace'
  /-- A log without tracing is the log with tracing, without its announcements. -/
  erased : trace = true → trace' = false → r'.log = r.log.filter fun line => line.sending?.isNone
  /-- Tracing announces every send once. -/
  announced : trace = true → r.log.filterMap LogLine.sending? = sends.all
  /-- Every failed look-up is reported once. -/
  reported : r.log.filterMap LogLine.unanswered? = sends.failed ∧ r'.log.filterMap LogLine.unanswered? = sends.failed

theorem alike_of_lines {sends : Sends} {trace trace' : Bool} (r : Reply) :
    Alike sends trace trace' { r with log := sends.lines trace } { r with log := sends.lines trace' } where
  answer := rfl
  made := rfl
  log := ⟨rfl, rfl⟩
  erased := by
    rintro rfl rfl
    exact sends.lines_false
  announced := by
    rintro rfl
    exact sends.filterMap_sending?_lines
  reported := ⟨sends.filterMap_unanswered?_lines trace, sends.filterMap_unanswered?_lines trace'⟩

/-- The reply to a request in the middle of a run, when the flags are others. -/
theorem run_retraced_getElem? (trace : Nat → Bool) (s : Session) (before : List Request) (q : Request)
    (after : List Request) : ((s.retraced trace).run (before ++ q :: after)).1[before.length]? =
      some { ((s.run before).2.handle q).1 with log := ((s.run before).2.sends q).lines (trace q.machine) } := by
  rw [run_getElem?, run_retraced, handle_retraced]
  rfl

/-- **Options change nothing but the log.** No machine is made with options that ask for more room than there is; with
any others all machines are. Take machines that were made with any two lists of such options, any methods in tables
beside them, any requests and any depth. The machines log the same when they are made. Every request is answered
the same, and at the end the two sessions differ in the flags only. The logs are those of the same sends: without
tracing the announcements are missing and nothing else, with tracing each send is announced once, before all that it
leads to, and every failed look-up is reported once. A single send is as independent of tracing in any context, at any
depth; and one that ends within some depth ends the same way at every greater one. -/
theorem run_unaffected_by_options (nesting : Nat) :
    (∀ options, (∀ o ∈ options, o.symbolCapacity ≤ SymbolTable.maxCapacity) → ∃ s, start nesting options = .ok s) ∧
    (∀ options, ∀ o ∈ options, SymbolTable.maxCapacity < o.symbolCapacity →
      start nesting options = .error .capacityOutOfRange) ∧
    (∀ (options : List (Options × Options)) s s', start nesting (options.map Prod.fst) = .ok s →
      start nesting (options.map Prod.snd) = .ok s' → ∀ (tables : List MethodTable) (requests : List Request),
      let t := s.withTables tables
      let t' := s'.withTables tables
      t'.bootLog = t.bootLog ∧ (t'.run requests).2 = (t.run requests).2.retraced t'.traces ∧
        ∀ before q after, requests = before ++ q :: after →
          ∃ r r', (t.run requests).1[before.length]? = some r ∧ (t'.run requests).1[before.length]? = some r' ∧
            Alike ((t.run before).2.sends q) (t.traces q.machine) (t'.traces q.machine) r r') ∧
    (∀ (c : Context) depth r sym args trace log, (c.retraced trace log).sendWithin depth r sym args =
      ((c.sendWithin depth r sym args).1,
        (c.sendWithin depth r sym args).2.retraced trace (log ++ (c.sends depth r sym args).lines trace))) ∧
    ∀ (c : Context) depth depth' r sym args, depth ≤ depth' → (c.sendWithin depth r sym args).1 ≠ .unfinished →
      c.sendWithin depth' r sym args = c.sendWithin depth r sym args := by
  refine ⟨fun options hroom => ⟨_, (start_eq nesting options).trans (if_pos hroom)⟩,
    fun options o ho hover => (start_eq nesting options).trans (if_neg fun hroom => Int.not_lt.mpr (hroom o ho) hover),
    ?_,
    fun c depth r sym args trace log => Context.sendWithin_retraced depth trace log r sym args c,
    fun c depth depth' r sym args hle hends => Context.sendWithin_of_le hle r sym args c hends⟩
  intro options s s' hstart hstart' tables requests t t'
  have ht : t.retraced t.traces = t := retraced_traces t
  have ht' : t.retraced t'.traces = t' := congrArg (withTables · tables) (start_retraced hstart hstart')
  refine ⟨?_, ?_, ?_⟩
  · rw [← ht', bootLog_retraced]
  · rw [← run_retraced, ht']
  · rintro before q after rfl
    have hr := run_retraced_getElem? t.traces t before q after
    have hr' := run_retraced_getElem? t'.traces t before q after
    rw [ht] at hr
    rw [ht'] at hr'
    exact ⟨_, _, hr, hr', alike_of_lines _⟩

/-- A method for the `+` of a fixnum, whose symbol is 4. It sends a name that nothing answers, drops the failure, and
sends the symbol of `to_s`. -/
def careless : MethodTable :=
  ⟨some .fixnum,
    [none, none, none, none, some ⟨Bytes.ofString "+", none, fun r args =>
      .send r (.name (Bytes.ofString "nope")) args fun _ => .send (.bool true) (.symbol 0) [] fun _ => .done r⟩],
    1, true⟩

theorem run_unaffected_by_options_careless :
    let s : Session := ⟨[.boot .empty true], [], [], 1, 0, []⟩
    let s' : Session := ⟨[.boot .empty false], [], [], 1, 0, []⟩
    let requests : List Request := [⟨0, .install 0 .fixnum⟩, ⟨0, .send (.fixnum 1) (.symbol 4) [.nil]⟩]
    start 1 [⟨-1, true⟩] = .ok s ∧ start 1 [.default] = .ok s' ∧
    ∃ r r', ((s.withTables [careless]).run requests).1[1]? = some r ∧
      ((s'.withTables [careless]).run requests).1[1]? = some r' ∧ r'.answer = r.answer ∧
      r.log = [.sending .fixnum (Bytes.ofString "+") 1, .sending .fixnum (Bytes.ofString "nope") 1,
        .unanswered .fixnum (Bytes.ofString "nope"), .sending .bool (Bytes.ofString "to_s") 0] ∧
      r'.log = [.unanswered .fixnum (Bytes.ofString "nope")] := by
  intro s s' requests
  have hstart : start 1 [⟨-1, true⟩] = .ok s := rfl
  have hstart' : start 1 [.default] = .ok s' := rfl
  obtain ⟨-, -, hruns, -⟩ := run_unaffected_by_options 1
  obtain ⟨-, -, hreplies⟩ := hruns [(⟨-1, true⟩, .default)] s s' hstart hstart' [careless] requests
  obtain ⟨r, r', hr, hr', halike⟩ := hreplies (requests.take 1) _ _ rfl
  obtain ⟨hlog, hlog'⟩ := halike.log
  refine ⟨hstart, hstart', r, r', hr, hr', halike.answer, ?_, ?_⟩
  · rw [hlog]
    rfl
  · rw [hlog']
    rfl

end Session

end Dispatch
