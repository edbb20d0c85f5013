/-
Strings that are built by messages: `to_s` to each of some values, and `+` of the answer to what has been built so far.
Each kind has a `to_s` of its own, and all of them answer with a string; `+` takes any string. So a step always has an
answer (`appendText_eq`), and with it every run of steps (`appendAll_eq`). Both names are interned from the start, so a
step leaves nothing behind in the machine.
-/
import Dispatch.Proofs.Numerals
import Dispatch.Proofs.Slicing

namespace Dispatch

namespace Value

/-- What a value contributes to a string that is built of values: nothing for nil, and for a string its bytes. -/
def shown : Value → Bytes
  | .nil => []
  | .bool b => Bytes.ofString (if b then "true" else "false")
  | .fixnum n => Decimal.ofInt n.toInt
  | .string _ bs => bs

/-- The number of bytes that the values contribute together. -/
def shownSize : List Value → Nat
  | [] => 0
  | v :: vs => v.shown.length + shownSize vs

theorem length_flatMap_shown (vs : List Value) : (vs.flatMap shown).length = shownSize vs := by
  induction vs with
  | nil => rfl
  | cons v vs ih => simp [shownSize, ih]

end Value

namespace Builtin

/-- The built-in of a kind that answers `to_s`. -/
def textual : Kind → Builtin
  | .nil => .nilToS
  | .bool => .boolToS
  | .fixnum => .fixnumToS
  | .string => .stringToS

theorem name_textual (k : Kind) : (textual k).name = Bytes.ofString "to_s" := by
  cases k <;> rfl

theorem kind_textual (k : Kind) : (textual k).kind = k := by
  cases k <;> rfl

/-- Three of the four programs answer with a new string; a string answers with itself. -/
theorem invoke_textual (v : Value) :
    (textual v.kind).method.invoke v [] = answerString v.shown ∨
    (textual v.kind).method.invoke v [] = .done v ∧ ∃ storage, v = .string storage v.shown := by
  cases v with
  | nil => exact .inl rfl
  | bool b => cases b <;> exact .inl rfl
  | fixnum n => exact .inl rfl
  | string storage bs => exact .inr ⟨rfl, storage, rfl⟩

end Builtin

namespace Context

variable {c : Context}

/-- Send `to_s` to a value and `+` with the answer to what has been built. -/
def appendText (c : Context) (built v : Value) : Outcome × Context :=
  Expression.andThen (c.sendName v (Bytes.ofString "to_s") []) fun text c =>
    c.sendName built (Bytes.ofString "+") [text]

/-- Append the texts of values in their order. The first message that is not answered is the end of it. -/
def appendAll (built : Value) : List Value → Context → Outcome × Context
  | [], c => (.value built, c)
  | v :: vs, c => Expression.andThen (c.appendText built v) fun built c => appendAll built vs c

/-! ## One step -/

/-- Every value answers `to_s` with a string. -/
theorem sendName_toS (h : c.machine.Booted) (v : Value) :
    ∃ storage fresh log, c.sendName v (Bytes.ofString "to_s") [] =
      (.value (.string storage v.shown), { c with fresh, log }) := by
  have hk := (Builtin.kind_textual v.kind).symm
  rw [← Builtin.name_textual v.kind]
  rcases Builtin.invoke_textual v with hnew | ⟨hself, storage, hv⟩
  · obtain ⟨log, hsend⟩ := sendName_of_string h hk hnew
    exact ⟨c.fresh, c.fresh + 1, log, hsend⟩
  · obtain ⟨log, hsend⟩ := sendName_of_done h hk hself
    exact ⟨storage, c.fresh, log, hsend.trans (by rw [← hv])⟩

theorem sendName_plus (h : c.machine.Booted) (x y : Nat) (a b : Bytes) :
    ∃ storage fresh log, c.sendName (.string x a) (Bytes.ofString "+") [.string y b] =
      (.value (.string storage (a ++ b)), { c with fresh, log }) := by
  have hprogram : Builtin.stringAdd.method.invoke (.string x a) [.string y b] = Builtin.answerString (a ++ b) := rfl
  obtain ⟨log, hsend⟩ := sendName_of_string h rfl hprogram
  exact ⟨c.fresh, c.fresh + 1, log, hsend⟩

/-- A step has an answer, and leaves nothing but new storage and lines in the log. -/
theorem appendText_eq (h : c.machine.Booted) (x : Nat) (a : Bytes) (v : Value) :
    ∃ storage fresh log, c.appendText (.string x a) v =
      (.value (.string storage (a ++ v.shown)), { c with fresh, log }) := by
  obtain ⟨y, fresh, log, htext⟩ := sendName_toS h v
  obtain ⟨storage, fresh', log', hplus⟩ := sendName_plus (c := { c with fresh, log }) h x y a v.shown
  refine ⟨storage, fresh', log', ?_⟩
  simp only [appendText, htext, Expression.andThen, hplus]

/-! ## Any number of steps -/

theorem appendAll_eq (h : c.machine.Booted) (x : Nat) (a : Bytes) (vs : List Value) :
    ∃ storage fresh log, appendAll (.string x a) vs c =
      (.value (.string storage (a ++ vs.flatMap Value.shown)), { c with fresh, log }) := by
  -- The next step starts where this one ends: with other storage and another log, on the same machine.
  induction vs generalizing c x a with
  | nil => exact ⟨x, c.fresh, c.log, by simp [appendAll]⟩
  | cons v vs ih =>
    obtain ⟨y, fresh, log, hstep⟩ := appendText_eq h x a v
    obtain ⟨storage, fresh', log', hrest⟩ := ih (c := { c with fresh, log }) h y (a ++ v.shown)
    refine ⟨storage, fresh', log', ?_⟩
    simp only [appendAll, hstep, Expression.andThen, hrest]
    simp

theorem sendName_size (h : c.machine.Booted) (x : Nat) {bs : Bytes} (hsize : bs.length < 0x8000000000000000) :
    ∃ n log, c.sendName (.string x bs) (Bytes.ofString "size") [] = (.value (.fixnum n), { c with log }) ∧
      n.toInt = bs.length := by
  have hprogram : Builtin.stringSize.method.invoke (.string x bs) [] = .done (.fixnum (Int64.ofNat bs.length)) := rfl
  obtain ⟨log, hsend⟩ := sendName_of_done h rfl hprogram
  exact ⟨_, log, hsend, Builtin.toInt_ofNat_of_lt hsize⟩

theorem sendName_isEmpty (h : c.machine.Booted) (x : Nat) (bs : Bytes) :
    ∃ log, c.sendName (.string x bs) (Bytes.ofString "empty?") [] =
      (.value (.bool (bs.length == 0)), { c with log }) := by
  have hprogram : Builtin.stringIsEmpty.method.invoke (.string x bs) [] = .done (.bool (bs.length == 0)) := rfl
  obtain ⟨log, hsend⟩ := sendName_of_done h rfl hprogram
  exact ⟨log, hsend⟩

/-- **Building a string never fails.** On any machine that a session comes to, take any values of any kinds, of fewer
than 2^63 bytes in all. Starting from an empty string and appending the `to_s` of one after the other, every message is
answered. The result is a string of the texts in their order; its `size` is the sum of their sizes, and it is `empty?`
when that sum is zero, and only then. The machine, with its symbols and its method tables, is the one it was. -/
theorem appendAll_answers (c : Context) (h : c.machine.Reachable) (storage : Nat) (vs : List Value)
    (hsize : Value.shownSize vs < 0x8000000000000000) :
    ∃ built c', appendAll (.string storage []) vs c = (.value built, c') ∧
      built.bytes? = some (vs.flatMap Value.shown) ∧ c'.machine = c.machine ∧
      (∃ n c'', c'.sendName built (Bytes.ofString "size") [] = (.value (.fixnum n), c'') ∧
        n.toInt = Value.shownSize vs ∧ c''.machine = c.machine) ∧
      ∃ c'', c'.sendName built (Bytes.ofString "empty?") [] =
        (.value (.bool (decide (Value.shownSize vs = 0))), c'') ∧ c''.machine = c.machine := by
  have hlength := Value.length_flatMap_shown vs
  obtain ⟨x, fresh, log, hrun⟩ := appendAll_eq h.booted storage [] vs
  rw [List.nil_append] at hrun
  refine ⟨_, _, hrun, rfl, rfl, ?_, ?_⟩
  · obtain ⟨n, log', hsend, hn⟩ :=
      sendName_size (c := { c with fresh, log }) h.booted x (hlength ▸ hsize)
    exact ⟨n, _, hsend, by rw [hn, hlength], rfl⟩
  · obtain ⟨log', hsend⟩ := sendName_isEmpty (c := { c with fresh, log }) h.booted x (vs.flatMap Value.shown)
    rw [hlength, beq_eq_decide] at hsend
    exact ⟨_, hsend, rfl⟩

/-- One value of each kind, the least fixnum among them. -/
theorem appendAll_answers_each_kind :
    let c : Context := ⟨.boot .empty true, 0, 1, [], []⟩
    let vs : List Value := [.nil, .bool true, .fixnum Int64.minValue, .string 0 [0xff], .nil]
    c.machine.Reachable ∧ Value.shownSize vs < 0x8000000000000000 ∧
      ∃ built c', appendAll (.string 0 []) vs c = (.value built, c') ∧
        built.bytes? = some (Bytes.ofString "true-9223372036854775808" ++ [0xff]) ∧ c'.machine = c.machine ∧
        ∃ c'', c'.sendName built (Bytes.ofString "empty?") [] = (.value (.bool false), c'') := by
  intro c vs
  have h : c.machine.Reachable := Machine.boot_reachable true
  have hnumeral : Bytes.ofString "-9223372036854775808" = Decimal.ofInt Int64.minValue.toInt :=
    Decimal.eq_ofInt (.negative (by decide) (by decide)) (by decide)
  have htext : vs.flatMap Value.shown = Bytes.ofString "true-9223372036854775808" ++ [0xff] := by
    simp only [vs, List.flatMap_cons, Value.shown, ← hnumeral]
    decide
  have hcount : Value.shownSize vs = 25 := by
    rw [← Value.length_flatMap_shown, htext]
    decide
  obtain ⟨built, c', hrun, hbytes, hmachine, -, c'', hempty, -⟩ := appendAll_answers c h 0 vs (by rw [hcount]; decide)
  rw [htext] at hbytes
  rw [hcount] at hempty
  exact ⟨h, by rw [hcount]; decide, built, c', hrun, hbytes, hmachine, c'', hempty⟩

end Context

end Dispatch
