/-
Built-ins run outside a send. A send only ever runs a built-in on a receiver of its kind; outside a send
nothing sees to that, and the methods look after themselves. Those for fixnums take another receiver for
zero, those for booleans and nil compare it, and of those for strings most ask for its size only, which
everything has. Two come to read the contents of the receiver, after they have looked at their arguments
(`Builtin.ReadsReceiver`): these crash on a receiver without contents, and nothing else crashes.
-/
import Dispatch.Proofs.NameDispatch

namespace Dispatch

namespace Builtin

variable {b : Builtin} {r : Value} {args : List Value}

/-- The calls that come to read the contents of the receiver: `+` of strings with one string, and `[]` with
two fixnums of which the second is not negative. -/
def ReadsReceiver (b : Builtin) (args : List Value) : Prop :=
  (b = .stringAdd ∧ ∃ storage bs, args = [.string storage bs]) ∨
    (b = .stringSlice ∧ ∃ start count, args = [.fixnum start, .fixnum count] ∧ 0 ≤ count)

/-- Such a call has as many arguments as the method takes, so it gets past the check of their number. -/
theorem ReadsReceiver.length_eq (h : b.ReadsReceiver args) : args.length = b.arity := by
  rcases h with ⟨rfl, storage, bs, rfl⟩ | ⟨rfl, start, count, rfl, -⟩ <;> rfl

/-- A call whose receiver is a string, or is not read. -/
def Guarded (b : Builtin) (r : Value) (args : List Value) : Prop := b.ReadsReceiver args → r.kind = .string

theorem guarded_of_ne (hadd : b ≠ .stringAdd) (hslice : b ≠ .stringSlice) : b.Guarded r args := by
  rintro (⟨hb, -⟩ | ⟨hb, -⟩)
  · exact absurd hb hadd
  · exact absurd hb hslice

/-- The program `p` of a method is one of the ways in which it can end, whatever the receiver is. -/
inductive Direct (b : Builtin) (r : Value) (args : List Value) : (p : Program) → Prop
  | crashed : b.ReadsReceiver args → r.kind ≠ .string → Direct b r args (.crash .noContents)
  | refused {e} : b.Guarded r args → e.dispatch? = none →
      (e.cause? = some .typeMismatch ∨ e.cause? = some .invalidArgument) → Direct b r args (refuse e)
  | value {v} : b.Guarded r args → Direct b r args (.done v)
  | string {bs} : b.Guarded r args → Direct b r args (answerString bs)

/-- The contents of a receiver are there, or reading them crashes. -/
theorem withContents_cases (r : Value) (next : Bytes → Program) :
    (∃ storage bs, r = .string storage bs) ∨ r.kind ≠ .string ∧ withContents r next = .crash .noContents := by
  cases r with
  | string storage bs => exact .inl ⟨storage, bs, rfl⟩
  | nil | bool | fixnum => exact .inr ⟨by simp [Value.kind], rfl⟩

theorem direct_ite {test : Prop} [Decidable test] {p q : Program} (hp : Direct b r args p) (hq : Direct b r args q) :
    Direct b r args (if test then p else q) := by
  split
  · exact hp
  · exact hq

theorem direct_overflow {method : Name} (h : b.Guarded r args) : Direct b r args (overflow method) :=
  .refused h rfl (.inr rfl)

/-- An argument that has to be a fixnum: what is left is what the method does with one. -/
theorem direct_withFixnum {method : Name} {v : Value} {next : Int64 → Program} (h : b.Guarded r args)
    (hnext : ∀ n, v = .fixnum n → Direct b r args (next n)) : Direct b r args (withFixnum method v next) := by
  rcases withFixnum_cases method v next with ⟨n, rfl⟩ | ⟨-, heq⟩
  · exact hnext n rfl
  · rw [heq]
    exact .refused h rfl (.inl rfl)

theorem direct_concat (r v : Value) : Direct .stringAdd r [v] (body .stringAdd r [v]) := by
  cases v with
  | string storage bs =>
    have hreads : ReadsReceiver .stringAdd [.string storage bs] := .inl ⟨rfl, storage, bs, rfl⟩
    simp only [body, withArg_zero]
    rcases withContents_cases r (fun a => answerString (a ++ bs)) with ⟨_, _, rfl⟩ | ⟨hr, heq⟩
    · exact .string fun _ => rfl
    · rw [heq]
      exact .crashed hreads hr
  | nil | bool | fixnum => exact .refused (by simp [Guarded, ReadsReceiver]) rfl (.inl rfl)

theorem direct_slice (r v w : Value) : Direct .stringSlice r [v, w] (body .stringSlice r [v, w]) := by
  -- The receiver is read behind three checks; a call that fails one of them does not come to read it.
  have hguard : ∀ {u u' : Value}, (∀ start count, [u, u'] = [Value.fixnum start, .fixnum count] → count < 0) →
      Guarded .stringSlice r [u, u'] := by
    rintro u u' hno (⟨hb, -⟩ | ⟨-, start, count, hargs, hcount⟩)
    · cases hb
    · exact absurd (hno start count hargs) (Int64.not_lt.mpr hcount)
  simp only [body, withArg_zero, withArg_one]
  rcases withFixnum_cases (name .stringSlice) v _ with ⟨start, rfl⟩ | ⟨hv, heq⟩
  · rcases withFixnum_cases (name .stringSlice) w _ with ⟨count, rfl⟩ | ⟨hw, heq⟩
    · simp only [withFixnum, Value.fixnum?]
      by_cases hneg : count < 0
      · rw [if_pos hneg]
        refine .refused (hguard ?_) rfl (.inr rfl)
        rintro _ _ ⟨⟩
        exact hneg
      · rw [if_neg hneg]
        have hcount := Int64.not_lt.mp hneg
        rcases withContents_cases r (slice · start count) with ⟨storage, bs, rfl⟩ | ⟨hr, heq⟩
        · simp only [withContents, Value.bytes?]
          rcases slice_ends bs hcount with heq | ⟨out, heq⟩
          · rw [heq]
            exact .value fun _ => rfl
          · rw [heq]
            exact .string fun _ => rfl
        · rw [heq]
          exact .crashed (.inr ⟨rfl, start, count, rfl, hcount⟩) hr
    · simp only [withFixnum, Value.fixnum?] at heq ⊢
      rw [heq]
      refine .refused (hguard ?_) rfl (.inl rfl)
      rintro _ _ ⟨⟩
      exact absurd rfl hw
  · rw [heq]
    refine .refused (hguard ?_) rfl (.inl rfl)
    rintro _ _ ⟨⟩
    exact absurd rfl hv

/-- Invoked on any receiver with any arguments, a built-in ends in one of these ways. -/
theorem invoke_direct (b : Builtin) (r : Value) (args : List Value) : Direct b r args (b.method.invoke r args) := by
  by_cases hn : args.length = b.arity
  · have hinvoke : b.method.invoke r args = b.body r args := by simp [method, Method.invoke, hn]
    rw [hinvoke]
    cases b with
    | nilToS | boolToS | fixnumToS => exact .string (guarded_of_ne (by decide) (by decide))
    | nilIsNil | boolNot | stringSize | stringIsEmpty | stringToS =>
      exact .value (guarded_of_ne (by decide) (by decide))
    | nilEq | boolEq | fixnumEq | stringEq =>
      obtain ⟨v, rfl⟩ := List.length_eq_one_iff.mp hn
      exact .value (guarded_of_ne (by decide) (by decide))
    | fixnumAdd | fixnumSub =>
      obtain ⟨v, rfl⟩ := List.length_eq_one_iff.mp hn
      exact direct_withFixnum (guarded_of_ne (by decide) (by decide)) fun n _ =>
        direct_ite (direct_overflow (guarded_of_ne (by decide) (by decide)))
          (.value (guarded_of_ne (by decide) (by decide)))
    | fixnumLess =>
      obtain ⟨v, rfl⟩ := List.length_eq_one_iff.mp hn
      have hguard : Guarded fixnumLess r [v] := guarded_of_ne (by decide) (by decide)
      exact direct_withFixnum hguard fun n _ => .value hguard
    | fixnumNeg =>
      have hguard : Guarded fixnumNeg r args := guarded_of_ne (by decide) (by decide)
      exact direct_ite (direct_overflow hguard) (.value hguard)
    | stringAdd =>
      obtain ⟨v, rfl⟩ := List.length_eq_one_iff.mp hn
      exact direct_concat r v
    | stringSlice =>
      obtain ⟨v, w, rfl⟩ := List.length_eq_two.mp hn
      exact direct_slice r v w
  · have hinvoke : b.method.invoke r args = refuse (.arity b.name b.arity args.length) := by
      simp [method, Method.invoke, hn, refuse]
    rw [hinvoke]
    exact .refused (fun hreads => absurd hreads.length_eq hn) rfl (.inr rfl)

end Builtin

namespace Context

variable {c : Context} {b : Builtin} {r : Value} {args : List Value}

/-- How a built-in that is run outside a send ends, as an outcome. -/
theorem invoke_cases (c : Context) (b : Builtin) (r : Value) (args : List Value) :
    ((c.invoke b.method r args).1 = .crash .noContents ∧ b.ReadsReceiver args ∧ r.kind ≠ .string) ∨
    b.Guarded r args ∧
      ((∃ v, (c.invoke b.method r args).1 = .value v) ∨
        ∃ e, (c.invoke b.method r args).1 = .failure e .nil ∧
          (e.cause? = some .typeMismatch ∨ e.cause? = some .invalidArgument) ∧ e.dispatch? = none) := by
  have hd := b.invoke_direct r args
  simp only [invoke]
  generalize b.method.invoke r args = p at hd
  cases hd with
  | crashed hreads hr => exact .inl ⟨rfl, hreads, hr⟩
  | refused hg he hcause => exact .inr ⟨hg, .inr ⟨_, rfl, hcause, he⟩⟩
  | value hg => exact .inr ⟨hg, .inl ⟨_, rfl⟩⟩
  | string hg => exact .inr ⟨hg, .inl ⟨_, rfl⟩⟩

theorem invoke_crashes_iff (c : Context) (b : Builtin) (r : Value) (args : List Value) :
    (∃ crash, (c.invoke b.method r args).1 = .crash crash) ↔ r.kind ≠ .string ∧ b.ReadsReceiver args := by
  rcases invoke_cases c b r args with ⟨hcrash, hreads, hr⟩ | ⟨hg, ⟨v, hv⟩ | ⟨e, he, -⟩⟩
  · exact ⟨fun _ => ⟨hr, hreads⟩, fun _ => ⟨_, hcrash⟩⟩
  · simp only [hv, reduceCtorEq, exists_false, false_iff, not_and]
    exact fun hr hreads => hr (hg hreads)
  · simp only [he, reduceCtorEq, exists_false, false_iff, not_and]
    exact fun hr hreads => hr (hg hreads)

/-- A built-in is known by the kind of its table and its name. -/
theorem readsReceiver_iff :
    b.ReadsReceiver args ↔
      b.kind = .string ∧
        ((b.name = Bytes.ofString "+" ∧ ∃ storage bs, args = [.string storage bs]) ∨
          (b.name = Bytes.ofString "[]" ∧ ∃ start count, args = [.fixnum start, .fixnum count] ∧ 0 ≤ count)) := by
  have hadd : b.kind = .string ∧ b.name = Bytes.ofString "+" ↔ b = .stringAdd :=
    ⟨fun h => Builtin.eq_of_key h.1 h.2, fun h => h ▸ ⟨rfl, rfl⟩⟩
  have hslice : b.kind = .string ∧ b.name = Bytes.ofString "[]" ↔ b = .stringSlice :=
    ⟨fun h => Builtin.eq_of_key h.1 h.2, fun h => h ▸ ⟨rfl, rfl⟩⟩
  simp only [Builtin.ReadsReceiver, ← hadd, ← hslice, and_assoc, and_or_left]

/-- A send to a receiver of the method's kind hands on the value, and puts a failure under the kind and the
name. -/
theorem send_eq_invoke (h : c.machine.Booted) {s : Symbol} (hk : b.kind = r.kind)
    (hname : b.name = c.machine.symbols.name s) (args : List Value) :
    (c.send r s args).1 =
      match (c.invoke b.method r args).1 with
      | .failure e _ => .failure (.dispatch r.kind b.name e) .nil
      | outcome => outcome := by
  have hfind : Builtin.find? r.kind b.name = some b := Builtin.find?_eq_some.mpr ⟨hk, rfl⟩
  rw [send_eq_dispatchByName h, ← hname]
  cases hout : (c.invoke b.method r args).1 with
  | value | failure | crash | unfinished => simp only [dispatchByName, hfind, hout]

/-- **Built-ins outside a send.** Take any machine that a session comes to, the method that the table of any
kind has at any symbol, any receiver, also one of another kind, and any arguments. Invoking the method
crashes just when the receiver is not a string and the method is `+` of strings with one argument, a
string, or `[]` of strings with two arguments, both fixnums and the second not negative. Otherwise it ends
with a value, or with nil and a failure that has one of the causes type mismatch and invalid argument and
holds no failed send. On a receiver of the table's kind a send of the symbol gives the same value, or that
failure as the failure of one send. -/
theorem invoke_outside_send (c : Context) (h : c.machine.Reachable) {k : Kind} {s : Symbol} {m : Method}
    (hm : (c.machine.table k).find? s = some m) (r : Value) (args : List Value) :
    ((∃ crash, (c.invoke m r args).1 = .crash crash) ↔
      r.kind ≠ .string ∧ k = .string ∧
        ((m.name = Bytes.ofString "+" ∧ ∃ storage bs, args = [.string storage bs]) ∨
          (m.name = Bytes.ofString "[]" ∧ ∃ start count, args = [.fixnum start, .fixnum count] ∧ 0 ≤ count))) ∧
    ((∃ crash, (c.invoke m r args).1 = .crash crash) ∨ (∃ v, (c.invoke m r args).1 = .value v) ∨
      ∃ e, (c.invoke m r args).1 = .failure e .nil ∧
        (e.cause? = some .typeMismatch ∨ e.cause? = some .invalidArgument) ∧ e.dispatch? = none) ∧
    (r.kind = k →
      (∀ v, (c.invoke m r args).1 = .value v → (c.send r s args).1 = .value v) ∧
      ∀ e beside, (c.invoke m r args).1 = .failure e beside →
        (c.send r s args).1 = .failure (.dispatch k (c.machine.symbols.name s) e) .nil) := by
  obtain ⟨b, rfl, rfl, hname⟩ := h.booted.builtin_of_find? hm
  refine ⟨?_, ?_, fun hk => ?_⟩
  · exact (invoke_crashes_iff c b r args).trans (and_congr_right fun _ => readsReceiver_iff)
  · rcases invoke_cases c b r args with ⟨hcrash, -⟩ | ⟨-, hend⟩
    · exact .inl ⟨_, hcrash⟩
    · exact .inr hend
  · have hsend := send_eq_invoke h.booted hk.symm hname args
    constructor
    · intro v hv
      rw [hsend, hv]
    · intro e beside he
      rw [hsend, he, hk, hname]

/-- The symbol 4 is `+`: with a string as its argument it crashes on nil, and with a fixnum it refuses. -/
theorem invoke_outside_send_nil_plus :
    let c : Context := ⟨.boot .empty false, 0, 1, [], []⟩
    c.machine.Reachable ∧ (c.machine.table .string).find? 4 = some (Builtin.method .stringAdd) ∧
      (∃ crash, (c.invoke (Builtin.method .stringAdd) .nil [.string 0 []]).1 = .crash crash) ∧
      ¬ ∃ crash, (c.invoke (Builtin.method .stringAdd) .nil [.fixnum 1]).1 = .crash crash := by
  intro c
  have hfound : (c.machine.table .string).find? 4 = some (Builtin.method .stringAdd) := rfl
  have hnew := Machine.boot_reachable false
  have hstring := (invoke_outside_send c hnew hfound .nil [.string 0 []]).1
  have hfixnum := (invoke_outside_send c hnew hfound .nil [.fixnum 1]).1
  refine ⟨hnew, hfound, hstring.mpr ⟨nofun, rfl, .inl ⟨rfl, 0, [], rfl⟩⟩, fun hcrash => ?_⟩
  obtain ⟨-, -, ⟨-, _, _, hargs⟩ | ⟨hslice, -⟩⟩ := hfixnum.mp hcrash
  · cases hargs
  · cases hslice

end Context

end Dispatch
