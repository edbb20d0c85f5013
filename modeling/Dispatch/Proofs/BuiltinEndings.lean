/-
The forms that a built-in's program can have, for any receiver and any arguments, also for a receiver of
another kind: it ends at once, after making one string at most, and it sends nothing. What it answers is a
new string or no string at all; only `to_s` hands a string on, and that is the receiver (`Builtin.Ends`).
-/
import Dispatch.Proofs.BuiltinFacts

namespace Dispatch.Builtin

inductive Ends (b : Builtin) (r : Value) : (p : Program) → Prop
  | plain {v} : v.kind ≠ .string → Ends b r (.done v)
  | receiver : b = .stringToS → Ends b r (.done r)
  | string {bs} : Ends b r (answerString bs)
  | refused {e} : e.dispatch? = none → Ends b r (refuse e)
  | crashed {crash} : Ends b r (.crash crash)

section

variable {b : Builtin} {r v : Value} {args : List Value}

theorem ends_ite {test : Prop} [Decidable test] {p q : Program} (hp : Ends b r p) (hq : Ends b r q) :
    Ends b r (if test then p else q) := by
  split
  · exact hp
  · exact hq

theorem ends_withArg {index : Nat} {next : Value → Program} (h : ∀ v, Ends b r (next v)) :
    Ends b r (withArg args index next) := by
  simp only [withArg]
  split
  · exact h _
  · exact .crashed

theorem ends_withFixnum {method : Name} {next : Int64 → Program} (h : ∀ n, Ends b r (next n)) :
    Ends b r (withFixnum method v next) := by
  simp only [withFixnum]
  split
  · exact h _
  · exact .refused rfl

theorem ends_withContents {next : Bytes → Program} (h : ∀ bs, Ends b r (next bs)) :
    Ends b r (withContents v next) := by
  simp only [withContents]
  split
  · exact h _
  · exact .crashed

theorem ends_overflow {method : Name} : Ends b r (overflow method) := .refused rfl

theorem ends_fixnum {n : Int64} : Ends b r (.done (.fixnum n)) := .plain (by simp [Value.kind])

theorem ends_bool {t : Bool} : Ends b r (.done (.bool t)) := .plain (by simp [Value.kind])

theorem ends_slice {bs : Bytes} {start count : Int64} : Ends b r (slice bs start count) := by
  have hnil : Ends b r (.done .nil) := .plain (by simp [Value.kind])
  have hcut : ∀ low high, Ends b r (cut bs low high) := fun _ _ => ends_ite .string .crashed
  exact ends_ite hnil (ends_ite .crashed (hcut _ _))

end

theorem body_ends (b : Builtin) (r : Value) (args : List Value) : Ends b r (b.body r args) := by
  cases b with
  | nilToS | boolToS | fixnumToS => exact .string
  | nilIsNil | boolNot | stringIsEmpty => exact ends_bool
  | stringSize => exact ends_fixnum
  | stringToS => exact .receiver rfl
  | nilEq | boolEq | fixnumEq | stringEq => exact ends_withArg fun _ => ends_bool
  | fixnumAdd | fixnumSub =>
    exact ends_withArg fun _ => ends_withFixnum fun _ => ends_ite ends_overflow ends_fixnum
  | fixnumLess => exact ends_withArg fun _ => ends_withFixnum fun _ => ends_bool
  | fixnumNeg => exact ends_ite ends_overflow ends_fixnum
  | stringAdd =>
    refine ends_withArg fun v => ?_
    cases v with
    | string => exact ends_withContents fun _ => .string
    | nil | bool | fixnum => exact .refused rfl
  | stringSlice =>
    refine ends_withArg fun _ => ends_withArg fun _ => ends_withFixnum fun _ => ends_withFixnum fun _ => ?_
    exact ends_ite (.refused rfl) (ends_withContents fun _ => ends_slice)

/-- The check of the number of arguments refuses and does nothing else. -/
theorem invoke_ends (b : Builtin) (r : Value) (args : List Value) : Ends b r (b.method.invoke r args) :=
  ends_ite (b.body_ends r args) (.refused rfl)

end Dispatch.Builtin
