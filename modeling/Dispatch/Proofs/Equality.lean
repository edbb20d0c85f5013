/-
The message `==`. Each kind has a built-in of its own for it: nil asks whether the other is nil, booleans ask for
identity, fixnums and strings compare contents. Sent as a message they are one relation, equality of content
(`Value.equal`), on receivers and arguments of all kinds; so `==` is an equivalence, although between two kinds its two
directions are answered by different methods.

Content is what is left of a value without the storage of a string (`Value.content`).
-/
import Dispatch.Proofs.BuiltinSends
import Dispatch.Proofs.EqualValues

namespace Dispatch

/-! ## Content -/

namespace Value

variable {v w : Value}

/-- The value with every string kept at one place. -/
def content : Value → Value
  | .string _ bs => .string 0 bs
  | v => v

/-- Values are equal when their contents are the same. -/
theorem equal_iff : v.equal w = true ↔ v.content = w.content := by
  cases v <;> cases w <;> simp [equal, content]

theorem equal_iff_eq_or_copies :
    v.equal w = true ↔ v = w ∨ ∃ a b bs, v = .string a bs ∧ w = .string b bs := by
  constructor
  · intro h
    exact (equal_cases h).imp And.left id
  · rintro (rfl | ⟨a, b, bs, rfl, rfl⟩)
    · exact equal_refl v
    · simp [equal]

end Value

/-! ## The message -/

namespace Builtin

/-- The built-in of a kind that answers `==`. -/
def equality : Kind → Builtin
  | .nil => .nilEq
  | .bool => .boolEq
  | .fixnum => .fixnumEq
  | .string => .stringEq

theorem name_equality (k : Kind) : (equality k).name = Bytes.ofString "==" := by
  cases k <;> rfl

theorem kind_equality (k : Kind) : (equality k).kind = k := by
  cases k <;> rfl

/-- All four programs answer whether the contents are equal. -/
theorem invoke_equality (v w : Value) : (equality v.kind).method.invoke v [w] = .done (.bool (v.equal w)) := by
  cases v with
  | nil =>
    have hsame : w.same .nil = Value.nil.equal w := Value.same_comm.trans (Value.same_eq_equal (by simp [Value.kind]))
    exact congrArg (fun b => Program.done (.bool b)) hsame
  | bool b =>
    have hsame : (Value.bool b).same w = (Value.bool b).equal w := Value.same_eq_equal (by simp [Value.kind])
    exact congrArg (fun b => Program.done (.bool b)) hsame
  | fixnum | string => rfl

end Builtin

namespace Context

variable {c : Context}

theorem sendName_equality (h : c.machine.Booted) (v w : Value) :
    ∃ log, c.sendName v (Bytes.ofString "==") [w] = (.value (.bool (v.equal w)), { c with log }) := by
  rw [← Builtin.name_equality v.kind]
  exact sendName_of_done h (Builtin.kind_equality v.kind).symm (Builtin.invoke_equality v w)

theorem send_equality (h : c.machine.Booted) {s : Symbol} (hs : c.machine.symbols.name s = Bytes.ofString "==")
    (v w : Value) : (c.send v s [w]).1 = .value (.bool (v.equal w)) := by
  have hb := Builtin.find?_eq_some.mpr ⟨Builtin.kind_equality v.kind, Builtin.name_equality v.kind⟩
  rw [send_eq_dispatchByName h, hs]
  simp only [dispatchByName, hb, invoke, Builtin.invoke_equality, Program.run]

/-- The answer to `v == w` is true. -/
def FindsEqual (c : Context) (v w : Value) : Prop := (c.sendName v (Bytes.ofString "==") [w]).1 = .value (.bool true)

theorem findsEqual_iff (h : c.machine.Booted) {v w : Value} : c.FindsEqual v w ↔ v.content = w.content := by
  obtain ⟨log, hsend⟩ := sendName_equality h v w
  rw [FindsEqual, hsend, ← Value.equal_iff]
  simp

/-- **The notions of equality coincide.** On any machine that a session comes to, `==` between any two values is
answered, with the equality of their contents, whether it is sent by name or by a symbol of that name. It is true of
a value and itself, of strings of the same bytes wherever they are kept, and of nothing else; and it is an
equivalence across all kinds. -/
theorem equality_coincides (c : Context) (h : c.machine.Reachable) :
    (∀ v w, (c.sendName v (Bytes.ofString "==") [w]).1 = .value (.bool (v.equal w))) ∧
    (∀ s, c.machine.symbols.name s = Bytes.ofString "==" → ∀ v w, (c.send v s [w]).1 = .value (.bool (v.equal w))) ∧
    (∀ v w, c.FindsEqual v w ↔ v.equal w = true) ∧
    (∀ v w, c.FindsEqual v w ↔ v = w ∨ ∃ a b bs, v = .string a bs ∧ w = .string b bs) ∧
    (∀ a b bs bs', c.FindsEqual (.string a bs) (.string b bs') ↔ bs = bs') ∧
    Equivalence c.FindsEqual := by
  have hb := h.booted
  have hiff : ∀ v w, c.FindsEqual v w ↔ v.equal w = true := by
    intro v w
    rw [findsEqual_iff hb, Value.equal_iff]
  refine ⟨?_, fun s hs v w => send_equality hb hs v w, hiff, ?_, ?_, ?_, ?_, ?_⟩
  · intro v w
    obtain ⟨log, hsend⟩ := sendName_equality hb v w
    exact congrArg Prod.fst hsend
  · intro v w
    rw [hiff, Value.equal_iff_eq_or_copies]
  · intro a b bs bs'
    rw [hiff, Value.equal, beq_iff_eq]
  · intro v
    exact (findsEqual_iff hb).mpr rfl
  · intro v w hvw
    exact (findsEqual_iff hb).mpr ((findsEqual_iff hb).mp hvw).symm
  · intro u v w huv hvw
    exact (findsEqual_iff hb).mpr (((findsEqual_iff hb).mp huv).trans ((findsEqual_iff hb).mp hvw))

/-- The symbol 2 is `==`. Nil and false, and one and true, are not equal whichever is asked; two strings are, although
they are kept apart. -/
theorem equality_coincides_across_kinds :
    let c : Context := ⟨.boot .empty false, 0, 2, [], []⟩
    c.machine.Reachable ∧ c.machine.symbols.name 2 = Bytes.ofString "==" ∧
      (c.sendName .nil (Bytes.ofString "==") [.bool false]).1 = .value (.bool false) ∧
      (c.sendName (.bool false) (Bytes.ofString "==") [.nil]).1 = .value (.bool false) ∧
      (c.sendName (.fixnum 1) (Bytes.ofString "==") [.bool true]).1 = .value (.bool false) ∧
      (c.send (.string 0 [0x61]) 2 [.string 1 [0x61]]).1 = .value (.bool true) ∧
      c.FindsEqual (.string 1 [0x61]) (.string 0 [0x61]) := by
  intro c
  have h : c.machine.Reachable := Machine.boot_reachable false
  have hname : c.machine.symbols.name 2 = Bytes.ofString "==" := by decide
  obtain ⟨hsendName, hsend, -, -, hstrings, -⟩ := equality_coincides c h
  exact ⟨h, hname, hsendName .nil (.bool false), hsendName (.bool false) .nil, hsendName (.fixnum 1) (.bool true),
    hsend 2 hname (.string 0 [0x61]) (.string 1 [0x61]), (hstrings 1 0 [0x61] [0x61]).mpr rfl⟩

end Context

end Dispatch
