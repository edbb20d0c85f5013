/-
Where the failure of a send comes from. Methods may send messages of their own, to any depth, and pass a
failure of one of them on, with texts before it or none; or they fail in words of their own. `FailsAt` follows
a failed send down to its origin: the innermost send that failed on the way, because nothing answered it or
because its method failed by itself. It looks at what was sent and what came back, and never into a failure.

A send decides by a search through the whole failure whether to put it under its own name. The result is
that a failure carries exactly one failed send, and that one is its origin (`failure_has_origin`).
-/
import Dispatch.Behaviour
import Dispatch.Proofs.BuiltinEndings
import Dispatch.Proofs.SendOutcomes

namespace Dispatch

/-! ## Failures under texts -/

namespace Failure

/-- The failed sends in a failure, the outermost first. -/
def failedSends : Failure → List (Kind × Name)
  | .wrapped _ inner => inner.failedSends
  | .dispatch kind selector inner => (kind, selector) :: inner.failedSends
  | _ => []

/-- A failure with texts before it, the outermost first. -/
def under (texts : List Bytes) (e : Failure) : Failure := texts.foldr .wrapped e

variable {e : Failure} {texts : List Bytes}

theorem dispatch?_eq_head? : e.dispatch? = e.failedSends.head? := by
  induction e with
  | wrapped text inner ih => exact ih
  | _ => rfl

theorem failedSends_eq_nil : e.failedSends = [] ↔ e.dispatch? = none := by
  rw [dispatch?_eq_head?, List.head?_eq_none_iff]

@[simp] theorem failedSends_under : (e.under texts).failedSends = e.failedSends := by
  induction texts with
  | nil => rfl
  | cons text texts ih => exact ih

@[simp] theorem cause?_under : (e.under texts).cause? = e.cause? := by
  induction texts with
  | nil => rfl
  | cons text texts ih => exact ih

theorem message_under : (e.under texts).message = texts.foldr colon e.message := by
  induction texts with
  | nil => rfl
  | cons text texts ih => exact congrArg (colon text) ih

theorem under_append {outer : List Bytes} : e.under (outer ++ texts) = (e.under texts).under outer := by
  simp only [under, List.foldr_append]

theorem ofMethod_of_own {kind : Kind} {method : Name} (h : e.failedSends = []) :
    e.ofMethod kind method = .dispatch kind method e := by
  simp [ofMethod, dispatch?_eq_head?, h]

theorem ofMethod_of_failedSend {kind : Kind} {method : Name} (h : e.failedSends ≠ []) :
    e.ofMethod kind method = e := by
  obtain ⟨send, rest, hsends⟩ := List.exists_cons_of_ne_nil h
  simp [ofMethod, dispatch?_eq_head?, hsends]

end Failure

/-! ## Programs that pass failures on -/

/-- A message that a program sent, by symbol or by name, and the context then. -/
structure Call where
  receiver : Value
  selector : Selector
  args : List Value
  context : Context

def Call.outcome (call : Call) (answer : Answering) : Outcome :=
  (answer call.receiver call.selector call.args call.context).1

namespace Program

/-- A program that fails, if it does, in words of its own or with a failure that came back to a message of its
own, under texts. `heard` are the failures that have come back so far. -/
def PassesOn : Program → (heard : List Failure) → Prop
  | .done _, _ => True
  | .fail e _, heard => e.failedSends = [] ∨ ∃ inner ∈ heard, ∃ texts, e = inner.under texts
  | .crash _, _ => True
  | .newString _ next, heard => ∀ v, (next v).PassesOn heard
  | .recall _ next, heard => ∀ v, (next v).PassesOn heard
  | .send _ _ _ next, heard =>
    (∀ v, (next (.ok v)).PassesOn heard) ∧ ∀ e, (next (.error e)).PassesOn (e :: heard)

/-- The messages that a program sends, in turn. -/
def calls (answer : Answering) : Program → Context → List Call
  | .done _, _ => []
  | .fail _ _, _ => []
  | .crash _, _ => []
  | .newString bytes next, c => (next (c.newString bytes).1).calls answer (c.newString bytes).2
  | .recall ref next, c => (next (ref.resolve c.made)).calls answer c
  | .send receiver selector args next, c =>
    ⟨receiver, selector, args, c⟩ ::
      match answer receiver selector args c with
      | (.value v, c) => (next (.ok v)).calls answer c
      | (.failure e _, c) => (next (.error e)).calls answer c
      | (.crash _, _) => []
      | (.unfinished, _) => []

/-- What the answers to messages keep holds whenever a message is sent. -/
theorem calls_keep {P : Machine → Prop} {answer : Answering} (p : Program)
    (h : ∀ r sel args c, P c.machine → P (answer r sel args c).2.machine) :
    ∀ c : Context, P c.machine → ∀ call ∈ p.calls answer c, P call.context.machine := by
  induction p with
  | done | fail | crash => simp [calls]
  | newString bytes next ih => exact fun c hc => ih _ (c.newString bytes).2 hc
  | «recall» ref next ih => exact fun c hc => ih _ c hc
  | send r sel args next ih =>
    intro c hc call hcall
    have hanswer := h r sel args c hc
    simp only [calls, List.mem_cons] at hcall
    rcases hcall with rfl | hcall
    · exact hc
    · split at hcall
      · next heq => exact ih _ _ (by simpa [heq] using hanswer) call hcall
      · next heq => exact ih _ _ (by simpa [heq] using hanswer) call hcall
      · cases hcall
      · cases hcall

/-- A program that passes failures on fails in words of its own, or one of its messages did come back with the
failure that is under the texts. -/
theorem PassesOn.run {answer : Answering} {p : Program} : ∀ {heard : List Failure} {c : Context} {e beside},
    p.PassesOn heard → (p.run answer c).1 = .failure e beside →
    e.failedSends = [] ∨ (∃ inner ∈ heard, ∃ texts, e = inner.under texts) ∨
      ∃ call ∈ p.calls answer c, ∃ inner beside texts,
        call.outcome answer = .failure inner beside ∧ e = inner.under texts := by
  induction p with
  | done | crash =>
    intro heard c e beside _ hrun
    cases hrun
  | fail e' beside' =>
    intro heard c e beside h hrun
    cases hrun
    rcases h with hown | hheard
    · exact .inl hown
    · exact .inr (.inl hheard)
  | newString bytes next ih =>
    intro heard c e beside h hrun
    exact ih _ (h _) hrun
  | «recall» ref next ih =>
    intro heard c e beside h hrun
    exact ih _ (h _) hrun
  | send r sel args next ih =>
    intro heard c e beside h hrun
    simp only [Program.run] at hrun
    split at hrun
    · next v c' heq =>
      simp only [calls, heq]
      rcases ih _ (h.1 v) hrun with hown | hheard | ⟨call, hcall, hpassed⟩
      · exact .inl hown
      · exact .inr (.inl hheard)
      · exact .inr (.inr ⟨call, List.mem_cons_of_mem _ hcall, hpassed⟩)
    · next e' beside' c' heq =>
      simp only [calls, heq]
      rcases ih _ (h.2 e') hrun with hown | ⟨inner, hinner, htexts⟩ | ⟨call, hcall, hpassed⟩
      · exact .inl hown
      · -- A failure that had come back is this message's or an earlier one's.
        rcases List.mem_cons.mp hinner with rfl | hinner
        · obtain ⟨texts, htexts⟩ := htexts
          exact .inr (.inr ⟨_, List.mem_cons_self, inner, beside', texts, by simp [Call.outcome, heq], htexts⟩)
        · exact .inr (.inl ⟨inner, hinner, htexts⟩)
      · exact .inr (.inr ⟨call, List.mem_cons_of_mem _ hcall, hpassed⟩)
    · cases hrun
    · cases hrun

end Program

/-- Every method of a table passes failures on. -/
def MethodTable.PassesOn (t : MethodTable) : Prop :=
  ∀ s m, t.find? s = some m → ∀ r args, (m.body r args).PassesOn []

def Machine.PassesOn (mc : Machine) : Prop := ∀ k, (mc.table k).PassesOn

theorem Method.invoke_passesOn {m : Method} {r : Value} {args : List Value} (h : (m.body r args).PassesOn []) :
    (m.invoke r args).PassesOn [] := by
  simp only [invoke]
  split
  · exact h
  · split
    · exact h
    · exact .inl rfl

/-! ## The methods of sessions -/

/-- A built-in fails in words of its own, also on a receiver of another kind. -/
theorem Builtin.body_passesOn (b : Builtin) (r : Value) (args : List Value) : (b.body r args).PassesOn [] := by
  have hends := b.body_ends r args
  generalize b.body r args = p at hends
  cases hends with
  | plain | receiver | crashed => trivial
  | string => exact fun _ => trivial
  | refused he => exact .inl (Failure.failedSends_eq_nil.mpr he)

namespace Behaviour

theorem operand_passesOn {o : Operand} {next : Value → Program} (h : ∀ v, (next v).PassesOn []) :
    (o.program next).PassesOn [] := by
  cases o with
  | nil | bool | fixnum => exact h _
  | string | made => exact h

theorem relayed_passesOn (r : Value) (sel : Selector) (args : List Value) (wrap : Option Bytes) :
    (Program.send r sel args (relayed wrap)).PassesOn [] := by
  refine ⟨fun _ => trivial, fun e => ?_⟩
  cases wrap with
  | none => exact .inr ⟨e, List.mem_cons_self, [], rfl⟩
  | some text => exact .inr ⟨e, List.mem_cons_self, [text], rfl⟩

/-- A user's method fails in words of its own or relays. -/
theorem program_passesOn (b : Behaviour) (r : Value) (args : List Value) : (b.program r args).PassesOn [] := by
  cases b with
  | receiver | argCount => trivial
  | argument index =>
    simp only [program]
    split
    · trivial
    · split <;> trivial
  | constant v => exact operand_passesOn fun _ => trivial
  | failing message cause beside => exact operand_passesOn fun _ => .inl rfl
  | relay name target wrap =>
    cases target with
    | none => exact relayed_passesOn r (.name name) args wrap
    | some target => exact operand_passesOn fun r => relayed_passesOn r (.name name) args wrap

end Behaviour

theorem Machine.Booted.passesOn {mc : Machine} (h : mc.Booted) : mc.PassesOn := by
  intro k s m hf
  obtain ⟨b, rfl, -⟩ := h.builtin_of_find? hf
  exact b.body_passesOn

theorem Machine.PassesOn.setTable {mc : Machine} {t : MethodTable} (h : mc.PassesOn) (ht : t.PassesOn) (k : Kind) :
    (mc.setTable k t).PassesOn := by
  intro k'
  simp only [Machine.setTable]
  split
  · exact ht
  · exact h k'

/-! ## The origin of a failure -/

/-- The innermost failed send: the texts that were put before it, the receiver's kind, the name of the symbol or
of the method, and the failure under that name. -/
structure Origin where
  texts : List Bytes
  kind : Kind
  selector : Name
  failure : Failure

def Origin.toFailure (o : Origin) : Failure := (Failure.dispatch o.kind o.selector o.failure).under o.texts

theorem Origin.toFailure_inj {o o' : Origin} (heq : o.toFailure = o'.toFailure) : o = o' := by
  obtain ⟨texts, k, n, e⟩ := o
  obtain ⟨texts', k', n', e'⟩ := o'
  simp only [toFailure] at heq
  induction texts generalizing texts' with
  | nil =>
    cases texts' with
    | nil =>
      cases heq
      rfl
    | cons => cases heq
  | cons text texts ih =>
    cases texts' with
    | nil => cases heq
    | cons text' texts' =>
      obtain ⟨rfl, hrest⟩ := Failure.wrapped.inj heq
      cases ih texts' hrest
      rfl

/-- The origin as it is seen from further out. -/
def Origin.under (texts : List Bytes) (o : Origin) : Origin := { o with texts := texts ++ o.texts }

namespace Context

/-- A failed send and its origin. The send finds nothing; or its method fails by itself; or one of the messages of
the method came back with a failure, and the method ended with that, under texts. -/
inductive FailsAt : (depth : Nat) → Value → Symbol → List Value → Context → Origin → Prop
  | unanswered {depth r s args c} : (c.machine.table r.kind).find? s = none →
      FailsAt (depth + 1) r s args c ⟨[], r.kind, c.machine.symbols.name s, .unanswered⟩
  | own {depth r s args c m e beside} : (c.machine.table r.kind).find? s = some m →
      ((m.invoke r args).run (answerWithin depth) (c.traced r s args)).1 = .failure e beside →
      e.failedSends = [] →
      FailsAt (depth + 1) r s args c ⟨[], r.kind, m.name, e⟩
  | nested {depth r s args c m call e beside beside' texts o} : (c.machine.table r.kind).find? s = some m →
      call ∈ (m.invoke r args).calls (answerWithin depth) (c.traced r s args) →
      call.outcome (answerWithin depth) = .failure e beside →
      ((m.invoke r args).run (answerWithin depth) (c.traced r s args)).1 = .failure (e.under texts) beside' →
      FailsAt depth call.receiver (call.context.select call.selector).1 call.args
        (call.context.select call.selector).2 o →
      FailsAt (depth + 1) r s args c (o.under texts)

variable {c : Context} {r : Value} {s : Symbol} {args : List Value} {depth : Nat} {m : Method} {o : Origin}
  {e : Failure} {beside : Value}

/-- A method that fails makes its send fail, -/
theorem sendWithin_of_run_failure (hf : (c.machine.table r.kind).find? s = some m)
    (hrun : ((m.invoke r args).run (answerWithin depth) (c.traced r s args)).1 = .failure e beside) :
    (c.sendWithin (depth + 1) r s args).1 = .failure (e.ofMethod r.kind m.name) .nil := by
  rw [sendWithin_found hf]
  generalize (m.invoke r args).run (answerWithin depth) (c.traced r s args) = result at hrun ⊢
  obtain ⟨outcome, c'⟩ := result
  subst hrun
  rfl

/-- and a send that finds a method fails in no other way. -/
theorem run_failure_of_sendWithin (hf : (c.machine.table r.kind).find? s = some m)
    (h : (c.sendWithin (depth + 1) r s args).1 = .failure e beside) :
    beside = .nil ∧ ∃ e' beside', e = e'.ofMethod r.kind m.name ∧
      ((m.invoke r args).run (answerWithin depth) (c.traced r s args)).1 = .failure e' beside' := by
  rw [sendWithin_found hf] at h
  generalize (m.invoke r args).run (answerWithin depth) (c.traced r s args) = result at h ⊢
  obtain ⟨outcome, c'⟩ := result
  cases outcome with
  | failure e' beside' =>
    cases h
    exact ⟨rfl, e', beside', rfl, rfl⟩
  | value | crash | unfinished => cases h

/-- A send that fails at an origin fails with the origin's failure. -/
theorem FailsAt.sound (h : FailsAt depth r s args c o) :
    o.failure.failedSends = [] ∧ (c.sendWithin depth r s args).1 = .failure o.toFailure .nil := by
  induction h with
  | unanswered hf =>
    rw [sendWithin_missing hf]
    exact ⟨rfl, rfl⟩
  | own hf hrun hown =>
    refine ⟨hown, ?_⟩
    rw [sendWithin_of_run_failure hf hrun, Failure.ofMethod_of_own hown]
    rfl
  | @nested depth r s args c m call e beside beside' texts o hf _ houtcome hrun _ ih =>
    obtain ⟨hown, hsend⟩ := ih
    obtain rfl : e = o.toFailure := by
      have hcall : Outcome.failure e beside = .failure o.toFailure .nil := houtcome.symm.trans hsend
      cases hcall
      rfl
    refine ⟨hown, ?_⟩
    have hsends : (o.toFailure.under texts).failedSends ≠ [] := by
      simp [Origin.toFailure, Failure.failedSends]
    rw [sendWithin_of_run_failure hf hrun, Failure.ofMethod_of_failedSend hsends, Origin.toFailure,
      ← Failure.under_append]
    rfl

/-- Every failed send on a machine whose methods pass failures on has an origin. -/
theorem exists_failsAt : ∀ {depth : Nat} {r : Value} {s : Symbol} {args : List Value} {c : Context} {e beside},
    c.machine.PassesOn → (c.sendWithin depth r s args).1 = .failure e beside →
    ∃ o, FailsAt depth r s args c o := by
  intro depth
  induction depth with
  | zero =>
    intro r s args c e beside _ h
    cases h
  | succ depth ih =>
    intro r s args c e beside hmc h
    cases hf : (c.machine.table r.kind).find? s with
    | none => exact ⟨_, .unanswered hf⟩
    | some m =>
      obtain ⟨-, e', beside', -, hrun⟩ := run_failure_of_sendWithin hf h
      have hpasses := Method.invoke_passesOn (hmc r.kind s m hf r args)
      rcases hpasses.run hrun with hown | ⟨_, hheard, _⟩ | ⟨call, hcall, inner, b, texts, houtcome, rfl⟩
      · exact ⟨_, .own hf hrun hown⟩
      · cases hheard
      · -- Names may have been interned before the call, but the tables are still the same.
        have htables : call.context.machine.PassesOn := by
          have hkeep : ∀ mc name, Machine.PassesOn mc → (mc.intern name).PassesOn := fun _ _ h => h
          exact Program.calls_keep (m.invoke r args)
            (fun r sel args c h => sendWithin_keeps hkeep depth r _ args (c.select sel).2 (select_keeps hkeep sel c h))
            (c.traced r s args) hmc call hcall
        have hselected : (call.context.select call.selector).2.machine.PassesOn :=
          select_keeps (fun _ _ h => h) call.selector call.context htables
        obtain ⟨o, ho⟩ := ih hselected houtcome
        exact ⟨_, .nested hf hcall houtcome hrun ho⟩

/-- **A failure carries its origin, and no other failed send.** Take any machine, with any method tables, whose
methods pass failures on, and any send that ends in a failure, however deep. It hands out nil, and it has one
origin. The one failed send in the failure is the innermost one on the way, with its receiver's kind and the
name of its symbol or its method; the texts that the methods further out put before it stand before it in the
failure and in its message, the outermost first; and it has the cause that the innermost failure has. -/
theorem failure_has_origin (c : Context) (h : c.machine.PassesOn) (depth : Nat) (r : Value) (s : Symbol)
    (args : List Value) (e : Failure) (beside : Value)
    (hfails : (c.sendWithin depth r s args).1 = .failure e beside) :
    beside = .nil ∧ ∃ o, FailsAt depth r s args c o ∧ (∀ o', FailsAt depth r s args c o' → o' = o) ∧
      e = (Failure.dispatch o.kind o.selector o.failure).under o.texts ∧
      e.failedSends = [(o.kind, o.selector)] ∧ o.failure.failedSends = [] ∧
      e.message = o.texts.foldr Failure.colon (Failure.dispatch o.kind o.selector o.failure).message ∧
      e.cause? = o.failure.cause? := by
  obtain ⟨o, ho⟩ := exists_failsAt h hfails
  obtain ⟨hown, hsend⟩ := ho.sound
  rw [hfails] at hsend
  obtain ⟨rfl, rfl⟩ := Outcome.failure.inj hsend
  refine ⟨rfl, o, ho, fun o' ho' => ?_, rfl, ?_, hown, Failure.message_under, Failure.cause?_under⟩
  · have hsend' := ho'.sound.2
    rw [hfails] at hsend'
    exact Origin.toFailure_inj (Outcome.failure.inj hsend').1.symm
  · simp [Origin.toFailure, Failure.failedSends, hown]

/-- Relay to the name `go` of the same receiver, under the text `W`. -/
def relayToGo : Behaviour := .relay (Bytes.ofString "go") none (some [0x57])

/-- Send the arguments on to the `+` of a string, whose symbol is 4, under the text `V`. -/
def sendPlus (args : List Value) : Program :=
  .newString [0x61] fun r => .send r (.symbol 4) args (Behaviour.relayed (some [0x56]))

/-- The symbol of `+` is 4, and that of `go` is the next one of a new machine. -/
def relays : MethodTable :=
  ⟨some .fixnum,
    [none, none, none, none, some ⟨Bytes.ofString "outer", none, relayToGo.program⟩, none, none, none, none, none, none,
      some ⟨Bytes.ofString "inner", none, fun _ => sendPlus⟩],
    2, true⟩

theorem relays_passesOn : relays.PassesOn := by
  intro s m hf r args
  have hmem : some m ∈ relays.slots := List.mem_of_getElem? (Option.join_eq_some_iff.mp hf)
  simp only [relays, List.mem_cons, List.not_mem_nil, reduceCtorEq, Option.some.injEq, false_or, or_false] at hmem
  rcases hmem with rfl | rfl
  · exact relayToGo.program_passesOn r args
  · exact fun v => Behaviour.relayed_passesOn v (.symbol 4) args (some [0x56])

/-- Nil is no argument for the `+` of a string, two messages down, of which the second is sent by its symbol. -/
theorem failure_has_origin_two_relays :
    let c : Context := ⟨(Machine.boot .empty false).setTable .fixnum relays, 0, 0, [], []⟩
    let o : Origin := ⟨[[0x57], [0x56]], .string, Bytes.ofString "+", .wrongKind (Bytes.ofString "+") .string .nil⟩
    c.machine.PassesOn ∧ (c.sendWithin 3 (.fixnum 1) 4 [.nil]).1 = .failure o.toFailure .nil ∧
      FailsAt 3 (.fixnum 1) 4 [.nil] c o := by
  intro c o
  have hpasses : c.machine.PassesOn := (Machine.boot_booted false).passesOn.setTable relays_passesOn .fixnum
  have hfails : (c.sendWithin 3 (.fixnum 1) 4 [.nil]).1 = .failure o.toFailure .nil := by decide
  obtain ⟨-, o', ho', -, heq, -⟩ := failure_has_origin c hpasses 3 (.fixnum 1) 4 [.nil] o.toFailure .nil hfails
  obtain rfl : o = o' := Origin.toFailure_inj heq
  exact ⟨hpasses, hfails, ho'⟩

end Context

end Dispatch
