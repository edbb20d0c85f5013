/-
How sends to built-ins end. A send looks its symbol up and runs what it finds; on a machine that has
only built-ins, `Context.Sent` lists the ways in which that can end, and `send_classified` tells from
the table, the symbol and the arguments which of them it is.

A built-in sends nothing and asks nothing of the machine, so its program runs alike wherever it is run:
only the least free storage matters (`Builtin.Verdict.run_eq`).

A method that sends messages may need more depth than there is; but a send that has ended, ends the same way
at every greater depth (`Context.sendWithin_of_le`).
-/
import Dispatch.Proofs.BuiltinFacts
import Dispatch.Proofs.Reachable

namespace Dispatch

/-- An outcome that is a failure with a certain cause. -/
def Outcome.FailsWith (o : Outcome) (cause : Cause) : Prop :=
  ∃ e beside, o = .failure e beside ∧ e.cause? = some cause

@[simp] theorem Outcome.failsWith_failure {e : Failure} {beside : Value} {cause : Cause} :
    (Outcome.failure e beside).FailsWith cause ↔ e.cause? = some cause := by
  simp [FailsWith]

@[simp] theorem Outcome.not_failsWith_value {v : Value} {cause : Cause} : ¬ (Outcome.value v).FailsWith cause := by
  simp [FailsWith]

/-! ## Running a built-in -/

theorem Builtin.Verdict.run_eq {b : Builtin} {r args p} (h : b.Verdict r args p) (fresh : Nat) :
    ∃ outcome fresh', (∀ e beside, outcome = .failure e beside → e.dispatch? = none) ∧
      ∀ answer (c : Context), c.fresh = fresh → p.run answer c = (outcome, { c with fresh := fresh' }) := by
  have refused : ∀ e : Failure, e.dispatch? = none →
      ∃ outcome fresh', (∀ e beside, outcome = .failure e beside → e.dispatch? = none) ∧
        ∀ answer (c : Context), c.fresh = fresh →
          (Builtin.refuse e).run answer c = (outcome, { c with fresh := fresh' }) := by
    intro e he
    refine ⟨.failure e .nil, fresh, ?_, ?_⟩
    · rintro _ _ ⟨⟩
      exact he
    · rintro answer c rfl
      rfl
  cases h with
  | arity | wrongKind | outOfDomain => exact refused _ rfl
  | @value v =>
    refine ⟨.value v, fresh, by simp, ?_⟩
    rintro answer c rfl
    rfl
  | @string bs =>
    refine ⟨.value (.string fresh bs), fresh + 1, by simp, ?_⟩
    rintro answer c rfl
    rfl

/-- How messages are answered. -/
abbrev Answering := Value → Selector → List Value → Context → Outcome × Context

namespace Context

variable {c : Context} {r : Value} {s : Symbol}

/-! ## Opening a send -/

/-- The context in which a send looks its symbol up: a machine that traces has logged the message. -/
def traced (c : Context) (r : Value) (s : Symbol) (args : List Value) : Context :=
  { c with
    log := c.log ++ if c.machine.trace then [.sending r.kind (c.machine.symbols.name s) args.length] else [] }

/-- How the messages of a method are answered when `depth` more sends may be open. -/
def answerWithin (depth : Nat) : Answering := fun r sel args c => (c.select sel).2.sendWithin depth r (c.select sel).1 args

/-- What a send makes of the end of its method: a failure is put under the receiver's kind and the method's name. -/
def ofRun (kind : Kind) (method : Name) : Outcome × Context → Outcome × Context
  | (.failure e _, c) => (.failure (e.ofMethod kind method) .nil, c)
  | result => result

theorem ofRun_unfinished {kind : Kind} {method : Name} {result : Outcome × Context} (h : result.1 = .unfinished) :
    (ofRun kind method result).1 = .unfinished := by
  obtain ⟨outcome, c⟩ := result
  subst h
  rfl

theorem record_eq_traced (c : Context) (r : Value) (s : Symbol) (args : List Value) :
    (if c.machine.trace = true then c.record (.sending r.kind (c.machine.symbols.name s) args.length) else c) =
      c.traced r s args := by
  simp only [traced, record]
  split <;> simp

/-- A send that finds nothing says so, in the answer and in the log. -/
theorem sendWithin_missing (hf : (c.machine.table r.kind).find? s = none) (depth : Nat) (args : List Value) :
    c.sendWithin (depth + 1) r s args =
      (.failure (.dispatch r.kind (c.machine.symbols.name s) .unanswered) .nil,
        (c.traced r s args).record (.unanswered r.kind (c.machine.symbols.name s))) := by
  have hf' : ((c.traced r s args).machine.table r.kind).find? s = none := hf
  simp only [sendWithin, record_eq_traced, hf']

theorem sendWithin_found {m : Method} (hf : (c.machine.table r.kind).find? s = some m) (depth : Nat)
    (args : List Value) :
    c.sendWithin (depth + 1) r s args =
      ofRun r.kind m.name ((m.invoke r args).run (answerWithin depth) (c.traced r s args)) := by
  have hf' : ((c.traced r s args).machine.table r.kind).find? s = some m := hf
  simp only [sendWithin, record_eq_traced, hf']
  rfl

theorem send_missing (hf : (c.machine.table r.kind).find? s = none) (args : List Value) :
    ∃ log, c.send r s args =
      (.failure (.dispatch r.kind (c.machine.symbols.name s) .unanswered) .nil, { c with log }) :=
  ⟨_, sendWithin_missing hf _ args⟩

theorem send_found {m : Method} (hf : (c.machine.table r.kind).find? s = some m) (args : List Value) :
    ∃ answer log, c.send r s args =
      match (m.invoke r args).run answer { c with log } with
      | (.failure e _, c) => (.failure (e.ofMethod r.kind m.name) .nil, c)
      | result => result :=
  ⟨_, _, sendWithin_found hf _ args⟩

end Context

/-! ## More depth -/

/-- A program that ends, ends the same way if its messages do. -/
theorem Program.run_of_answers {answer answer' : Answering} (p : Program)
    (h : ∀ r sel args c, (answer r sel args c).1 ≠ .unfinished → answer' r sel args c = answer r sel args c) :
    ∀ c : Context, (p.run answer c).1 ≠ .unfinished → p.run answer' c = p.run answer c := by
  induction p with
  | done | fail | crash => exact fun c _ => rfl
  | newString bytes next ih => exact fun c => ih _ (c.newString bytes).2
  | «recall» ref next ih => exact fun c => ih _ c
  | send r sel args next ih =>
    intro c hends
    have hsame := h r sel args c
    simp only [run] at hends ⊢
    generalize answer r sel args c = result at hends hsame ⊢
    obtain ⟨outcome, c'⟩ := result
    cases outcome with
    | value v =>
      rw [hsame (by simp)]
      exact ih _ c' hends
    | failure e beside =>
      rw [hsame (by simp)]
      exact ih _ c' hends
    | crash p => rw [hsame (by simp)]
    | unfinished => exact absurd rfl hends

namespace Context

variable {c : Context} {r : Value} {s : Symbol}

theorem sendWithin_succ (depth : Nat) : ∀ (r : Value) (s : Symbol) (args : List Value) (c : Context),
    (c.sendWithin depth r s args).1 ≠ .unfinished →
      c.sendWithin (depth + 1) r s args = c.sendWithin depth r s args := by
  induction depth with
  | zero => exact fun _ _ _ _ hends => absurd rfl hends
  | succ depth ih =>
    intro r s args c hends
    cases hf : (c.machine.table r.kind).find? s with
    | none => rw [sendWithin_missing hf, sendWithin_missing hf]
    | some m =>
      have hanswers : ∀ r sel args c, (answerWithin depth r sel args c).1 ≠ .unfinished →
          answerWithin (depth + 1) r sel args c = answerWithin depth r sel args c :=
        fun r sel args c => ih r (c.select sel).1 args (c.select sel).2
      rw [sendWithin_found hf] at hends
      rw [sendWithin_found hf, sendWithin_found hf,
        Program.run_of_answers _ hanswers _ fun hunfinished => hends (ofRun_unfinished hunfinished)]

/-- **More depth changes nothing.** A send that has ended at some depth ends the same way, and leaves the same
behind, at every greater one. -/
theorem sendWithin_of_le {depth depth' : Nat} (hle : depth ≤ depth') (r : Value) (s : Symbol) (args : List Value)
    (c : Context) (hends : (c.sendWithin depth r s args).1 ≠ .unfinished) :
    c.sendWithin depth' r s args = c.sendWithin depth r s args := by
  induction hle with
  | refl => rfl
  | step _ ih => rw [sendWithin_succ _ r s args c (by rwa [ih]), ih]

/-! ## Sends to built-ins -/

/-- A send changes nothing in a machine that has only built-ins. -/
theorem send_machine (h : c.machine.Booted) (r : Value) (s : Symbol) (args : List Value) :
    (c.send r s args).2.machine = c.machine := by
  cases hf : (c.machine.table r.kind).find? s with
  | none =>
    obtain ⟨log, hsend⟩ := send_missing hf args
    rw [hsend]
  | some m =>
    obtain ⟨b, hm, hk, -⟩ := h.builtin_of_find? hf
    obtain ⟨answer, log, hsend⟩ := send_found hf args
    obtain ⟨outcome, fresh, -, hrun⟩ := (b.invoke_verdict hk.symm args).run_eq c.fresh
    rw [hsend, ← hm, hrun answer { c with log } rfl]
    cases outcome <;> rfl

/-! ## How a send ends -/

/-- The ways in which a send to a built-in, or to nothing, ends. -/
inductive Sent (mc : Machine) (r : Value) (s : Symbol) (args : List Value) : Outcome → Prop
  | unanswered : (mc.table r.kind).find? s = none →
      Sent mc r s args (.failure (.dispatch r.kind (mc.symbols.name s) .unanswered) .nil)
  | refused {b : Builtin} {e} : b.kind = r.kind → (mc.table r.kind).find? s = some b.method →
      b.Verdict r args (Builtin.refuse e) →
      Sent mc r s args (.failure (.dispatch r.kind (mc.symbols.name s) e) .nil)
  | answered {b : Builtin} {v} : b.kind = r.kind → (mc.table r.kind).find? s = some b.method →
      args.length = b.arity → ¬ b.Mismatched args → ¬ b.OutOfDomain r args → Sent mc r s args (.value v)

theorem send_sent (h : c.machine.Booted) (r : Value) (s : Symbol) (args : List Value) :
    Sent c.machine r s args (c.send r s args).1 := by
  cases hf : (c.machine.table r.kind).find? s with
  | none =>
    obtain ⟨log, hsend⟩ := send_missing hf args
    rw [hsend]
    exact .unanswered hf
  | some m =>
    obtain ⟨b, rfl, hk, hname⟩ := h.builtin_of_find? hf
    obtain ⟨answer, log, hsend⟩ := send_found hf args
    rw [hsend]
    have hv := b.invoke_verdict hk.symm args
    -- The name that a failure carries is the method's, and so the symbol's.
    have refused : ∀ {e}, b.Verdict r args (Builtin.refuse e) → e.dispatch? = none →
        Sent c.machine r s args (.failure (e.ofMethod r.kind b.method.name) .nil) := by
      intro e hv he
      have hof : e.ofMethod r.kind b.method.name = .dispatch r.kind (c.machine.symbols.name s) e := by
        simp [Failure.ofMethod, he, ← hname, Builtin.method]
      rw [hof]
      exact .refused hk hf hv
    generalize b.method.invoke r args = p at hv
    cases hv with
    | arity hn => exact refused (.arity hn) rfl
    | wrongKind hn hm => exact refused (.wrongKind hn hm) rfl
    | outOfDomain hn hm hd => exact refused (.outOfDomain hn hm hd) rfl
    | value hn hm hd => exact .answered hk hf hn hm hd
    | string hn hm hd => exact .answered hk hf hn hm hd

/-- What is said of the method that answers a symbol is said of the one built-in there. -/
theorem found_iff {mc : Machine} {b : Builtin} {Q : Builtin → Prop} (hk : b.kind = r.kind)
    (hf : (mc.table r.kind).find? s = some b.method) :
    (∃ b' : Builtin, b'.kind = r.kind ∧ (mc.table r.kind).find? s = some b'.method ∧ Q b') ↔ Q b := by
  constructor
  · rintro ⟨b', hk', hf', hq⟩
    have hm : b'.method = b.method := Option.some.inj (hf'.symm.trans hf)
    rwa [Builtin.eq_of_method (hk'.trans hk.symm) hm] at hq
  · exact fun hq => ⟨b, hk, hf, hq⟩

theorem Sent.noMethod_iff {mc : Machine} {args o} (h : Sent mc r s args o) :
    o.FailsWith .noMethod ↔ (mc.table r.kind).find? s = none := by
  cases h with
  | unanswered hf => simp [Failure.cause?, hf]
  | refused hk hf hv => cases hv <;> simp [Failure.cause?, hf]
  | answered hk hf => simp [hf]

theorem Sent.invalidArgument_iff {mc : Machine} {args o} (h : Sent mc r s args o) :
    o.FailsWith .invalidArgument ↔
      ∃ b : Builtin, b.kind = r.kind ∧ (mc.table r.kind).find? s = some b.method ∧
        (args.length ≠ b.arity ∨ args.length = b.arity ∧ ¬ b.Mismatched args ∧ b.OutOfDomain r args) := by
  cases h with
  | unanswered hf => simp [Failure.cause?, hf]
  | refused hk hf hv =>
    rw [found_iff hk hf]
    cases hv with
    | arity hn => simp [Failure.cause?, hn]
    | wrongKind hn hm => simp [Failure.cause?, hn, hm]
    | outOfDomain hn hm hd => simp [Failure.cause?, hn, hm, hd]
  | answered hk hf hn hm hd =>
    rw [found_iff hk hf]
    simp [hn, hd]

theorem Sent.typeMismatch_iff {mc : Machine} {args o} (h : Sent mc r s args o) :
    o.FailsWith .typeMismatch ↔
      ∃ b : Builtin, b.kind = r.kind ∧ (mc.table r.kind).find? s = some b.method ∧
        args.length = b.arity ∧ b.Mismatched args := by
  cases h with
  | unanswered hf => simp [Failure.cause?, hf]
  | refused hk hf hv =>
    rw [found_iff hk hf]
    cases hv with
    | arity hn => simp [Failure.cause?, hn]
    | wrongKind hn hm => simp [Failure.cause?, hn, hm]
    | outOfDomain hn hm hd => simp [Failure.cause?, hm]
  | answered hk hf hn hm hd =>
    rw [found_iff hk hf]
    simp [hm]

/-- **Sends to built-ins are classified.** On every machine that a session comes to, a send of any
symbol, given out or not, to any receiver with any arguments does not crash. It answers with a value;
or it fails as one failed send, which names the receiver's kind and the symbol's name, hands out nil,
and has one of three causes:

- no method, just when the table of the receiver's kind has nothing at the symbol;
- an invalid argument, just when a method is there and the number of arguments is not the one it
  takes, or number and kinds are right but the arguments lie outside its domain;
- a type mismatch, just when a method is there, the number of arguments is right, and one of them has
  a kind that the method does not take. -/
theorem send_classified (c : Context) (h : c.machine.Reachable) (r : Value) (s : Symbol) (args : List Value) :
    ((∃ v, (c.send r s args).1 = .value v) ∨
      ∃ e cause, (c.send r s args).1 = .failure (.dispatch r.kind (c.machine.symbols.name s) e) .nil ∧
        e.dispatch? = none ∧ e.cause? = some cause) ∧
    ((c.send r s args).1.FailsWith .noMethod ↔ (c.machine.table r.kind).find? s = none) ∧
    ((c.send r s args).1.FailsWith .invalidArgument ↔
      ∃ b : Builtin, b.kind = r.kind ∧ (c.machine.table r.kind).find? s = some b.method ∧
        (args.length ≠ b.arity ∨ args.length = b.arity ∧ ¬ b.Mismatched args ∧ b.OutOfDomain r args)) ∧
    ((c.send r s args).1.FailsWith .typeMismatch ↔
      ∃ b : Builtin, b.kind = r.kind ∧ (c.machine.table r.kind).find? s = some b.method ∧
        args.length = b.arity ∧ b.Mismatched args) := by
  have hs := send_sent h.booted r s args
  refine ⟨?_, hs.noMethod_iff, hs.invalidArgument_iff, hs.typeMismatch_iff⟩
  generalize (c.send r s args).1 = o at hs
  cases hs with
  | unanswered => exact .inr ⟨_, .noMethod, rfl, rfl, rfl⟩
  | refused hk hf hv =>
    cases hv with
    | arity => exact .inr ⟨_, .invalidArgument, rfl, rfl, rfl⟩
    | wrongKind => exact .inr ⟨_, .typeMismatch, rfl, rfl, rfl⟩
    | outOfDomain => exact .inr ⟨_, .invalidArgument, rfl, rfl, rfl⟩
  | answered => exact .inl ⟨_, rfl⟩

/-- The symbol 4 is `+`, and the greatest fixnum has no successor. -/
theorem send_classified_overflow :
    let c : Context := ⟨.boot .empty false, 0, 0, [], []⟩
    c.machine.Reachable ∧ (c.send (.fixnum Int64.maxValue) 4 [.fixnum 1]).1.FailsWith .invalidArgument := by
  intro c
  have hclass := send_classified c (Machine.boot_reachable false) (.fixnum Int64.maxValue) 4 [.fixnum 1]
  have hfound : (c.machine.table .fixnum).find? 4 = some (Builtin.method .fixnumAdd) := rfl
  have hout : Builtin.OutOfDomain .fixnumAdd (.fixnum Int64.maxValue) [.fixnum 1] := by
    simp only [Builtin.OutOfDomain, Fits]
    decide
  exact ⟨Machine.boot_reachable false,
    hclass.2.2.1.mpr ⟨.fixnumAdd, rfl, hfound, .inr ⟨rfl, by decide, hout⟩⟩⟩

end Context

end Dispatch
