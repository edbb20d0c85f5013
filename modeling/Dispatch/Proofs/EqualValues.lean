/-
Dispatch looks at the contents of values and never at their identity. The built-ins compare in three ways, by
identity, by content and by kind; on receivers of their own kind these come to the same. So values of equal
content make a built-in run one and the same program (`Builtin.invoke_congr`), except that the `to_s` of a
string answers with the receiver itself. Since the wire keeps contents, a message that has been over the wire is
answered as it would have been here.
-/
import Dispatch.Proofs.NameDispatch
import Dispatch.Proofs.RoundTrip

namespace Dispatch

/-! ## Equal content -/

namespace Value

variable {v v' w w' : Value}

theorem equal_cases (h : v.equal w = true) :
    (v = w ∧ v.kind ≠ .string) ∨ ∃ a b bs, v = .string a bs ∧ w = .string b bs := by
  cases v <;> cases w <;> simp_all [equal, kind]

theorem equal_refl (v : Value) : v.equal v = true := by
  cases v <;> simp [equal]

theorem kind_eq_of_equal (h : v.equal w = true) : w.kind = v.kind := by
  rcases equal_cases h with ⟨rfl, -⟩ | ⟨a, b, bs, rfl, rfl⟩
  · rfl
  · rfl

theorem fixnum?_eq_of_equal (h : v.equal w = true) : w.fixnum? = v.fixnum? := by
  rcases equal_cases h with ⟨rfl, -⟩ | ⟨a, b, bs, rfl, rfl⟩
  · rfl
  · rfl

theorem bytes?_eq_of_equal (h : v.equal w = true) : w.bytes? = v.bytes? := by
  rcases equal_cases h with ⟨rfl, -⟩ | ⟨a, b, bs, rfl, rfl⟩
  · rfl
  · rfl

/-- Content does not tell equal values apart, -/
theorem equal_congr (hv : v.equal v' = true) (hw : w.equal w' = true) : v'.equal w' = v.equal w := by
  rcases equal_cases hv with ⟨rfl, -⟩ | ⟨a, b, bs, rfl, rfl⟩
  · rcases equal_cases hw with ⟨rfl, -⟩ | ⟨c, d, cs, rfl, rfl⟩
    · rfl
    · cases v <;> rfl
  · rcases equal_cases hw with ⟨rfl, -⟩ | ⟨c, d, cs, rfl, rfl⟩
    · cases w <;> rfl
    · rfl

/-- and identity is content for all but strings. -/
theorem same_eq_equal (h : v.kind ≠ .string) : v.same w = v.equal w := by
  cases v with
  | string => exact absurd rfl h
  | nil | bool | fixnum => cases w <;> rfl

theorem same_comm : v.same w = w.same v := by
  cases v <;> cases w <;> simp [same, Bool.beq_comm]

theorem same_congr (h : v.equal v' = true) (hw : w.kind ≠ .string) : v'.same w = v.same w := by
  rw [same_comm, same_eq_equal hw, same_comm, same_eq_equal hw]
  exact equal_congr (equal_refl w) h

end Value

/-! ## Built-ins on equal values -/

namespace Builtin

variable {b : Builtin} {r r' : Value} {args args' : List Value}

/-- Lists of values that are as long and have equal contents place by place. -/
abbrev EqualAll (args args' : List Value) : Prop := List.Forall₂ (fun v w => v.equal w = true) args args'

theorem withArg_congr {index : Nat} {next next' : Value → Program} (h : EqualAll args args')
    (hnext : ∀ v w, v.equal w = true → next' w = next v) :
    withArg args' index next' = withArg args index next := by
  have hlength := h.length_eq
  by_cases hi : index < args.length
  · have hi' : index < args'.length := hlength ▸ hi
    simp only [withArg, List.getElem?_eq_getElem hi, List.getElem?_eq_getElem hi']
    exact hnext _ _ (h.get hi hi')
  · have hi' : ¬ index < args'.length := hlength ▸ hi
    simp only [withArg, List.getElem?_eq_none (Nat.not_lt.mp hi), List.getElem?_eq_none (Nat.not_lt.mp hi'), hlength]

theorem withFixnum_congr {method : Name} {v w : Value} {next : Int64 → Program} (h : v.equal w = true) :
    withFixnum method w next = withFixnum method v next := by
  simp only [withFixnum, Value.fixnum?_eq_of_equal h, Value.kind_eq_of_equal h]

/-- On a receiver of its own kind a built-in does the same with equal values; only the `to_s` of strings has the
receiver in its program. -/
theorem body_congr (hb : b ≠ .stringToS) (hr : r.kind = b.kind) (h : r.equal r' = true) (hargs : EqualAll args args') :
    b.body r' args' = b.body r args := by
  have hfixnum : r'.fixnumOrZero = r.fixnumOrZero := by
    rw [Value.fixnumOrZero, Value.fixnumOrZero, Value.fixnum?_eq_of_equal h]
  have hsize : r'.size = r.size := by
    rw [Value.size, Value.size, Value.text, Value.text, Value.bytes?_eq_of_equal h]
  cases b with
  | stringToS => exact absurd rfl hb
  | nilToS | nilIsNil => rfl
  | nilEq =>
    refine withArg_congr hargs fun v w hvw => ?_
    rw [Value.same_congr hvw (by simp [Value.kind])]
  | boolToS | boolNot => simp only [body, Value.same_congr (w := .bool _) h (by simp [Value.kind])]
  | boolEq =>
    refine withArg_congr hargs fun v w hvw => ?_
    have hbool : ∀ {u : Value}, u.kind = .bool → u.kind ≠ .string := by
      intro u hu
      rw [hu]
      decide
    rw [Value.same_eq_equal (hbool ((Value.kind_eq_of_equal h).trans hr)), Value.same_eq_equal (hbool hr),
      Value.equal_congr h hvw]
  | fixnumAdd | fixnumSub | fixnumLess =>
    simp only [body, hfixnum]
    exact withArg_congr hargs fun v w hvw => withFixnum_congr hvw
  | fixnumNeg | fixnumToS => simp only [body, hfixnum]
  | fixnumEq | stringEq =>
    refine withArg_congr hargs fun v w hvw => ?_
    rw [Value.equal_congr h hvw]
  | stringAdd =>
    refine withArg_congr hargs fun v w hvw => ?_
    rcases Value.equal_cases hvw with ⟨rfl, -⟩ | ⟨a, c, bs, rfl, rfl⟩
    · simp only [withContents, Value.bytes?_eq_of_equal h]
    · simp only [withContents, Value.bytes?_eq_of_equal h]
  | stringSlice =>
    refine withArg_congr hargs fun v w hvw => withArg_congr hargs fun x y hxy => ?_
    simp only [withContents, Value.bytes?_eq_of_equal h, withFixnum_congr hvw, withFixnum_congr hxy]
  | stringSize | stringIsEmpty => simp only [body, hsize]

theorem invoke_congr (hb : b ≠ .stringToS) (hr : r.kind = b.kind) (h : r.equal r' = true)
    (hargs : EqualAll args args') : b.method.invoke r' args' = b.method.invoke r args := by
  simp only [method, Method.invoke, ← hargs.length_eq, body_congr hb hr h hargs]

theorem invoke_toS (r : Value) (args : List Value) : (method .stringToS).invoke r args =
    if args.length = 0 then .done r else refuse (.arity (name .stringToS) 0 args.length) := rfl

end Builtin

/-! ## Sends of equal values -/

/-- Two sends that end alike: both answer, with equal contents, or both are the same failed send. -/
def Outcome.Agrees (o o' : Outcome) : Prop :=
  (∃ v v', o = .value v ∧ o' = .value v' ∧ v.equal v' = true) ∨
    ∃ kind selector e, o = .failure (.dispatch kind selector e) .nil ∧ o' = .failure (.dispatch kind selector e) .nil

namespace Context

variable {c c' : Context} {r r' : Value} {args args' : List Value}

/-- Dispatch by name does not tell equal values apart. -/
theorem dispatchByName_agrees (name : Name) (h : r.equal r' = true) (hargs : Builtin.EqualAll args args') :
    (c.dispatchByName r name args).Agrees (c'.dispatchByName r' name args') := by
  simp only [dispatchByName, Value.kind_eq_of_equal h]
  cases hb : Builtin.find? r.kind name with
  | none => exact .inr ⟨_, _, _, rfl, rfl⟩
  | some b =>
    have hk : b.kind = r.kind := (Builtin.find?_eq_some.mp hb).1
    by_cases hself : b = .stringToS
    · subst hself
      by_cases hn : args.length = 0
      · simp only [invoke, Builtin.invoke_toS, ← hargs.length_eq, if_pos hn]
        exact .inl ⟨_, _, rfl, rfl, h⟩
      · simp only [invoke, Builtin.invoke_toS, ← hargs.length_eq, if_neg hn]
        exact .inr ⟨_, _, _, rfl, rfl⟩
    · have hv := b.invoke_verdict hk.symm args
      simp only [invoke, Builtin.invoke_congr hself hk.symm h hargs]
      generalize b.method.invoke r args = p at hv
      cases hv with
      | arity | wrongKind | outOfDomain => exact .inr ⟨_, _, _, rfl, rfl⟩
      | value => exact .inl ⟨_, _, rfl, rfl, Value.equal_refl _⟩
      | string => exact .inl ⟨_, _, rfl, rfl, by simp [Value.equal]⟩

theorem send_agrees (hb : c.machine.Booted) (hm : c'.machine = c.machine) (s : Symbol) (h : r.equal r' = true)
    (hargs : Builtin.EqualAll args args') : (c.send r s args).1.Agrees (c'.send r' s args').1 := by
  rw [send_eq_dispatchByName hb, send_eq_dispatchByName (hm ▸ hb), hm]
  exact dispatchByName_agrees _ h hargs

/-- **Dispatch cannot tell equal values apart.** On any machine that a session comes to, take any symbol, two
receivers of equal content, and two lists of arguments that are as long and have equal contents place by place.
The two sends answer with equal contents, or they are the same failed send, text and cause and all. So a
receiver and at most 131072 arguments may go over the wire first: both decode, and the send of what comes out
ends as the send of what went in. -/
theorem send_of_equal (c : Context) (h : c.machine.Reachable) (s : Symbol) :
    (∀ c' : Context, c'.machine = c.machine → ∀ r r' args args', r.equal r' = true →
      List.Forall₂ (fun v w => v.equal w = true) args args' →
      (c.send r s args).1.Agrees (c'.send r' s args').1) ∧
    ∀ r args, r.size < 0x8000000000000000 → (∀ v ∈ args, v.size < 0x8000000000000000) → args.length ≤ 131072 →
      ∃ r' fresh args' fresh', Wire.unmarshal c.fresh (Wire.marshal r) = .ok (r', fresh) ∧
        Wire.unmarshalAll fresh (Wire.marshalAll args) = .ok (args', fresh') ∧
        (c.send r s args).1.Agrees (({ c with fresh := fresh' } : Context).send r' s args').1 := by
  refine ⟨fun c' hm r r' args args' hr hargs => send_agrees h.booted hm s hr hargs, ?_⟩
  intro r args hsize hsizes hcount
  obtain ⟨args', fresh', hok, hargs⟩ := Wire.Envelope.toValues_ofValue args (Wire.Envelope.copy c.fresh r).2 0
  rw [← Wire.unmarshalAll_marshalAll_eq _ hsizes hcount] at hok
  have hm : ({ c with fresh := fresh' } : Context).machine = c.machine := rfl
  refine ⟨_, _, args', fresh', Wire.unmarshal_marshal_eq c.fresh hsize, hok, ?_⟩
  exact send_agrees h.booted hm s (Wire.Envelope.equal_copy c.fresh r) hargs

/-- The symbol 4 is `+`, and 0 is `to_s`. Copies of two strings are joined alike, and a string that has been over
the wire answers with itself, which is no longer the string that went in. -/
theorem send_of_equal_copies :
    let c : Context := ⟨.boot .empty false, 0, 2, [], []⟩
    c.machine.Reachable ∧
      (c.send (.string 0 [0x61]) 4 [.string 1 [0x62]]).1.Agrees (c.send (.string 1 [0x61]) 4 [.string 0 [0x62]]).1 ∧
      (Value.string 0 [0xff]).size < 0x8000000000000000 ∧
      (c.send (.string 0 [0xff]) 0 []).1 = .value (.string 0 [0xff]) ∧
      ∃ r' fresh args' fresh', Wire.unmarshal c.fresh (Wire.marshal (.string 0 [0xff])) = .ok (r', fresh) ∧
        Wire.unmarshalAll fresh (Wire.marshalAll []) = .ok (args', fresh') ∧
        (c.send (.string 0 [0xff]) 0 []).1.Agrees (({ c with fresh := fresh' } : Context).send r' 0 args').1 := by
  intro c
  have hreach : c.machine.Reachable := Machine.boot_reachable false
  have hwire := (send_of_equal c hreach 0).2 (.string 0 [0xff]) [] (by decide) (by simp) (by decide)
  exact ⟨hreach, (send_of_equal c hreach 4).1 c rfl _ _ _ _ rfl (.cons rfl .nil), by decide, by decide, hwire⟩

end Context

end Dispatch
