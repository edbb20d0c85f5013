/-
Messages inside messages. The receiver and the arguments of a message may be the answers of other messages. Such a
nest is an `Expression`, and to evaluate it is to send its messages by name from the inside out.

On a machine that has its built-ins, what an expression is answered with depends on contents alone: it `Denotes` a
value, up to the storage of strings, whatever was sent before. So its parts can be evaluated one by one, by the
programs of the built-ins (`Denotes.done`, `Denotes.string`).
-/
import Dispatch.Proofs.Equality

namespace Dispatch

/-- A value, or a message whose receiver and arguments are expressions. -/
inductive Expression where
  | value (v : Value)
  | message (receiver : Expression) (name : Name) (args : List Expression)

namespace Expression

/-- Go on with the answer, if there is one. -/
def andThen (result : Outcome × Context) (next : Value → Context → Outcome × Context) : Outcome × Context :=
  match result with
  | (.value v, c) => next v c
  | stopped => stopped

mutual

/-- Send the messages of an expression, those of the receiver first and then those of the arguments from the left.
The first that is not answered is the end of it. -/
def eval : Expression → Context → Outcome × Context
  | .value v, c => (.value v, c)
  | .message receiver name args, c =>
    andThen (receiver.eval c) fun v c => evalAll args (fun vs c => c.sendName v name vs) c

/-- Evaluate expressions from the left and go on with their values. -/
def evalAll : List Expression → (next : List Value → Context → Outcome × Context) → Context → Outcome × Context
  | [], next, c => next [] c
  | e :: es, next, c => andThen (e.eval c) fun v c => evalAll es (fun vs => next (v :: vs)) c

end

/-- On every machine that has its built-ins the expression is answered, with the content of `v`, and leaves the machine
as it was. -/
def Denotes (e : Expression) (v : Value) : Prop :=
  ∀ c : Context, c.machine.Booted → ∃ w c', e.eval c = (.value w, c') ∧ c'.machine = c.machine ∧ v.equal w = true

theorem denotes_value (v : Value) : Denotes (.value v) v := by
  intro c _
  exact ⟨v, c, by rw [eval], rfl, Value.equal_refl v⟩

theorem evalAll_of_denotes {es : List Expression} {vs : List Value} (h : List.Forall₂ Denotes es vs)
    (next : List Value → Context → Outcome × Context) (c : Context) (hc : c.machine.Booted) :
    ∃ ws c', evalAll es next c = next ws c' ∧ c'.machine = c.machine ∧ Builtin.EqualAll vs ws := by
  -- What comes next takes the values found so far with it, so it changes along the list.
  induction h generalizing next c with
  | nil => exact ⟨[], c, by rw [evalAll], rfl, .nil⟩
  | cons he _ ih =>
    obtain ⟨w, c₁, hw, hm, hequal⟩ := he c hc
    obtain ⟨ws, c₂, hws, hm', hequals⟩ := ih (fun ws => next (w :: ws)) c₁ (hm ▸ hc)
    refine ⟨w :: ws, c₂, ?_, hm'.trans hm, .cons hequal hequals⟩
    rw [evalAll, hw]
    exact hws

section

variable {b : Builtin} {e : Expression} {es : List Expression} {r : Value} {vs : List Value}

/-- A message to a built-in comes down to one send, whose program is the one for the values that its parts denote. -/
theorem eval_message (hr : Denotes e r) (hargs : List.Forall₂ Denotes es vs) (hk : r.kind = b.kind)
    (hb : b ≠ .stringToS) (c : Context) (hc : c.machine.Booted) :
    ∃ (r' : Value) (vs' : List Value) (c' : Context),
      eval (.message e b.name es) c = c'.sendName r' b.name vs' ∧ c'.machine = c.machine ∧
      r'.kind = b.kind ∧ b.method.invoke r' vs' = b.method.invoke r vs := by
  obtain ⟨r', c₁, hr', hm, hequal⟩ := hr c hc
  obtain ⟨vs', c₂, hvs', hm', hequals⟩ :=
    evalAll_of_denotes hargs (fun vs c => c.sendName r' b.name vs) c₁ (hm ▸ hc)
  refine ⟨r', vs', c₂, ?_, hm'.trans hm, (Value.kind_eq_of_equal hequal).trans hk,
    Builtin.invoke_congr hb hk hequal hequals⟩
  rw [eval, hr']
  exact hvs'

theorem Denotes.done {v : Value} (hr : Denotes e r) (hargs : List.Forall₂ Denotes es vs) (hk : r.kind = b.kind)
    (hb : b ≠ .stringToS) (hp : b.method.invoke r vs = .done v) : Denotes (.message e b.name es) v := by
  intro c hc
  obtain ⟨r', vs', c', heval, hm, hk', hinvoke⟩ := eval_message hr hargs hk hb c hc
  obtain ⟨log, hsend⟩ := Context.sendName_of_done (hm ▸ hc) hk' (hinvoke.trans hp)
  exact ⟨v, _, heval.trans hsend, hm, Value.equal_refl v⟩

theorem Denotes.string {storage : Nat} {bs : Bytes} (hr : Denotes e r) (hargs : List.Forall₂ Denotes es vs)
    (hk : r.kind = b.kind) (hb : b ≠ .stringToS) (hp : b.method.invoke r vs = Builtin.answerString bs) :
    Denotes (.message e b.name es) (.string storage bs) := by
  intro c hc
  obtain ⟨r', vs', c', heval, hm, hk', hinvoke⟩ := eval_message hr hargs hk hb c hc
  obtain ⟨log, hsend⟩ := Context.sendName_of_string (hm ▸ hc) hk' (hinvoke.trans hp)
  exact ⟨_, _, heval.trans hsend, hm, by simp [Value.equal]⟩

end

/-- An expression that denotes no string is answered with just that value. -/
theorem Denotes.eval_eq {e : Expression} {v : Value} (h : Denotes e v) (hv : v.kind ≠ .string) {c : Context}
    (hc : c.machine.Booted) : (e.eval c).1 = .value v := by
  obtain ⟨w, c', heval, -, hequal⟩ := h c hc
  rcases Value.equal_cases hequal with ⟨rfl, -⟩ | ⟨a, b, bs, rfl, -⟩
  · rw [heval]
  · exact absurd rfl hv

/-! ## Equations -/

def equals (e f : Expression) : Expression := .message e (Bytes.ofString "==") [f]

theorem Denotes.equals {e f : Expression} {v w : Value} (he : Denotes e v) (hf : Denotes f w) :
    Denotes (e.equals f) (.bool (v.equal w)) := by
  have hb : Builtin.equality v.kind ≠ .stringToS := by
    cases v.kind <;> decide
  rw [Expression.equals, ← Builtin.name_equality v.kind]
  exact he.done (.cons hf .nil) (Builtin.kind_equality v.kind).symm hb (Builtin.invoke_equality v w)

/-- The two expressions are answered one after the other, with equal contents, and `==` between them is answered with
true. -/
def Equates (c : Context) (e f : Expression) : Prop :=
  (∃ v w c', e.eval c = (.value v, c') ∧ (f.eval c').1 = .value w ∧ v.equal w = true) ∧
    ((e.equals f).eval c).1 = .value (.bool true)

theorem Denotes.equates {e f : Expression} {v w : Value} (he : Denotes e v) (hf : Denotes f w) (h : v.equal w = true)
    {c : Context} (hc : c.machine.Booted) : Equates c e f := by
  obtain ⟨v', c₁, hev, hm, hv⟩ := he c hc
  obtain ⟨w', c₂, hew, -, hw⟩ := hf c₁ (hm ▸ hc)
  refine ⟨⟨v', w', c₁, hev, congrArg Prod.fst hew, ?_⟩, ?_⟩
  · rw [Value.equal_congr hv hw, h]
  · rw [(he.equals hf).eval_eq (by simp [Value.kind]) hc, h]

end Expression

end Dispatch
