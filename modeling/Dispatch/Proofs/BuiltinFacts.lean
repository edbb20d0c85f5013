/-
How a built-in ends on a receiver of its own kind. There are five ways (`Builtin.Verdict`), told apart
by the number of the arguments, then by their kinds, then by their values; none of them is a crash.

The conditions are said without the programs of the built-ins: the kinds a method asks for are a table
(`asks`), and what lies outside its domain is said of integers without a width (`OutOfDomain`), while
the programs only look at results of 64 bits.
-/
import Mathlib.Data.List.Basic
import Dispatch.Builtin

namespace Dispatch

/-! ## Arithmetic of fixnums -/

/-- The integers that a fixnum can hold. -/
def Fits (n : Int) : Prop := -0x8000000000000000 ≤ n ∧ n < 0x8000000000000000

theorem fits_toInt (a : Int64) : Fits a.toInt := ⟨a.le_toInt, a.toInt_lt⟩

/-- A sum that wraps lies on the wrong side of its first part, and only such a sum does. -/
theorem add_overflows_iff {a b : Int64} :
    ((0 < b ∧ a + b < a) ∨ (b < 0 ∧ a < a + b)) ↔ ¬ Fits (a.toInt + b.toInt) := by
  have ha := fits_toInt a
  have hb := fits_toInt b
  simp only [Int64.lt_iff_toInt_lt, Int64.toInt_add, Int64.toInt_zero, Int.bmod, Fits] at *
  omega

theorem sub_overflows_iff {a b : Int64} :
    ((b < 0 ∧ a - b < a) ∨ (0 < b ∧ a < a - b)) ↔ ¬ Fits (a.toInt - b.toInt) := by
  have ha := fits_toInt a
  have hb := fits_toInt b
  simp only [Int64.lt_iff_toInt_lt, Int64.toInt_sub, Int64.toInt_zero, Int.bmod, Fits] at *
  omega

theorem neg_overflows_iff {a : Int64} : a = Int64.minValue ↔ ¬ Fits (-a.toInt) := by
  have ha := fits_toInt a
  simp only [← Int64.toInt_inj, Int64.toInt_minValue, Fits] at *
  omega

theorem toInt_add_of_fits {a b : Int64} (h : Fits (a.toInt + b.toInt)) : (a + b).toInt = a.toInt + b.toInt := by
  unfold Fits at h
  rw [Int64.toInt_add, Int.bmod]
  omega

theorem toInt_sub_of_fits {a b : Int64} (h : Fits (a.toInt - b.toInt)) : (a - b).toInt = a.toInt - b.toInt := by
  unfold Fits at h
  rw [Int64.toInt_sub, Int.bmod]
  omega

theorem toInt_neg_of_fits {a : Int64} (h : Fits (-a.toInt)) : (-a).toInt = -a.toInt := by
  unfold Fits at h
  rw [Int64.toInt_neg, Int.bmod]
  omega

namespace Builtin

/-! ## What a built-in asks of its arguments -/

/-- The kinds that the arguments of a method have to have; a method that asks for none takes any. -/
def asks : Builtin → List Kind
  | .fixnumAdd | .fixnumSub | .fixnumLess => [.fixnum]
  | .stringAdd => [.string]
  | .stringSlice => [.fixnum, .fixnum]
  | _ => []

/-- An argument has a kind that the method does not take. -/
def Mismatched (b : Builtin) (args : List Value) : Prop := ∃ pair ∈ b.asks.zip args, pair.2.kind ≠ pair.1

instance (b : Builtin) (args : List Value) : Decidable (b.Mismatched args) :=
  inferInstanceAs (Decidable (∃ pair ∈ b.asks.zip args, pair.2.kind ≠ pair.1))

/-- Arguments of the right kinds for which there is no answer: the result is no fixnum, or the number of
bytes that is asked for is negative. -/
def OutOfDomain : Builtin → Value → List Value → Prop
  | .fixnumAdd, .fixnum a, [.fixnum b] => ¬ Fits (a.toInt + b.toInt)
  | .fixnumSub, .fixnum a, [.fixnum b] => ¬ Fits (a.toInt - b.toInt)
  | .fixnumNeg, .fixnum a, [] => ¬ Fits (-a.toInt)
  | .stringSlice, _, [_, .fixnum count] => count.toInt < 0
  | _, _, _ => False

/-- The program `p` of a method is one of the ways in which the method can end. -/
inductive Verdict (b : Builtin) (r : Value) (args : List Value) : (p : Program) → Prop
  | arity : args.length ≠ b.arity → Verdict b r args (refuse (.arity b.name b.arity args.length))
  | wrongKind {takes got} : args.length = b.arity → b.Mismatched args →
      Verdict b r args (refuse (.wrongKind b.name takes got))
  | outOfDomain {detail} : args.length = b.arity → ¬ b.Mismatched args → b.OutOfDomain r args →
      Verdict b r args (refuse (.outOfDomain b.name detail))
  | value {v} : args.length = b.arity → ¬ b.Mismatched args → ¬ b.OutOfDomain r args →
      Verdict b r args (.done v)
  | string {bs} : args.length = b.arity → ¬ b.Mismatched args → ¬ b.OutOfDomain r args →
      Verdict b r args (answerString bs)

/-! ## Slices stay inside -/

/-- The bounds of a slice: the part that is cut out ends no later than the string, and no step on the way
to its end wraps. The length of the string may itself have wrapped. -/
theorem slice_bounds {bs : Bytes} {start count n : Int64} (hcount : 0 ≤ count)
    (hstart : ¬ (start < 0 ∨ Int64.ofNat bs.length < start))
    (hn : n = if Int64.ofNat bs.length - start < count then Int64.ofNat bs.length - start else count) :
    ¬ n < 0 ∧ 0 ≤ start ∧ start ≤ start + n ∧ (start + n).toInt ≤ bs.length := by
  have hs := fits_toInt start
  have hsize := fits_toInt (Int64.ofNat bs.length)
  have hle : (Int64.ofNat bs.length).toInt ≤ bs.length := by
    simp only [Int64.toInt_ofNat', Int64.size, Int.bmod]
    omega
  simp only [not_or, Int64.lt_iff_toInt_lt, Int64.toInt_zero, Int64.le_iff_toInt_le, Fits] at *
  have hrest : (Int64.ofNat bs.length - start).toInt = (Int64.ofNat bs.length).toInt - start.toInt := by
    rw [Int64.toInt_sub, Int.bmod]
    omega
  have hbound : 0 ≤ n.toInt ∧ start.toInt + n.toInt ≤ (Int64.ofNat bs.length).toInt := by
    rw [hn]
    split <;> omega
  have hend : (start + n).toInt = start.toInt + n.toInt := by
    rw [Int64.toInt_add, Int.bmod]
    omega
  omega

/-- A slice of a number of bytes that is not negative is nil or a new string. -/
theorem slice_ends (bs : Bytes) {start count : Int64} (h : 0 ≤ count) :
    slice bs start count = .done .nil ∨ ∃ out, slice bs start count = answerString out := by
  simp only [slice]
  split
  · exact .inl rfl
  · next hstart =>
    obtain ⟨hn, hlow, horder, hhigh⟩ := slice_bounds h hstart rfl
    rw [if_neg hn, cut, if_pos ⟨hlow, horder, hhigh⟩]
    exact .inr ⟨_, rfl⟩

/-! ## The verdicts -/

@[simp] theorem withArg_zero (v : Value) (vs : List Value) (next : Value → Program) :
    withArg (v :: vs) 0 next = next v := rfl

@[simp] theorem withArg_one (v w : Value) (vs : List Value) (next : Value → Program) :
    withArg (v :: w :: vs) 1 next = next w := rfl

theorem not_mismatched {b : Builtin} (h : b.asks = []) (args : List Value) : ¬ b.Mismatched args := by
  simp [Mismatched, h]

theorem mismatched_one {b : Builtin} {k : Kind} {v : Value} (h : b.asks = [k]) :
    b.Mismatched [v] ↔ v.kind ≠ k := by
  simp [Mismatched, h]

theorem mismatched_two {b : Builtin} {k l : Kind} {v w : Value} (h : b.asks = [k, l]) :
    b.Mismatched [v, w] ↔ v.kind ≠ k ∨ w.kind ≠ l := by
  simp [Mismatched, h]

/-- An argument that has to be a fixnum is one, or the method refuses it. -/
theorem withFixnum_cases (method : Name) (v : Value) (next : Int64 → Program) :
    (∃ n, v = .fixnum n) ∨
      v.kind ≠ .fixnum ∧ withFixnum method v next = refuse (.wrongKind method .fixnum v.kind) := by
  cases v with
  | fixnum n => exact .inl ⟨n, rfl⟩
  | nil | bool | string => exact .inr ⟨by simp [Value.kind], rfl⟩

/-- A method with one fixnum as its argument: what is left is what it does with the fixnum. -/
theorem verdict_fixnum {b : Builtin} {r : Value} {args : List Value} {next : Int64 → Program}
    (hasks : b.asks = [.fixnum]) (harity : b.arity = 1) (hn : args.length = b.arity)
    (hbody : b.body r args = withArg args 0 fun arg => withFixnum b.name arg next)
    (h : ∀ n, args = [.fixnum n] → ¬ b.Mismatched args → Verdict b r args (next n)) :
    Verdict b r args (b.body r args) := by
  obtain ⟨v, rfl⟩ := List.length_eq_one_iff.mp (hn.trans harity)
  rw [hbody, withArg_zero]
  rcases withFixnum_cases b.name v next with ⟨n, rfl⟩ | ⟨hk, heq⟩
  · exact h n rfl (by simp [mismatched_one hasks, Value.kind])
  · rw [heq]
    exact .wrongKind hn ((mismatched_one hasks).mpr hk)

/-- Arithmetic that looks for its overflow: the test has to hold exactly outside the domain. -/
theorem verdict_checked {b : Builtin} {r : Value} {args : List Value} {wraps : Prop} [Decidable wraps]
    {detail : Bytes} {v : Value} (hwraps : wraps ↔ b.OutOfDomain r args) (hn : args.length = b.arity)
    (hk : ¬ b.Mismatched args) :
    Verdict b r args (if wraps then refuse (.outOfDomain b.name detail) else .done v) := by
  split
  · next h => exact .outOfDomain hn hk (hwraps.mp h)
  · next h => exact .value hn hk fun hout => h (hwraps.mpr hout)

theorem verdict_concat {storage : Nat} {bs : Bytes} {args : List Value} (hn : args.length = arity .stringAdd) :
    Verdict .stringAdd (.string storage bs) args (body .stringAdd (.string storage bs) args) := by
  obtain ⟨v, rfl⟩ := List.length_eq_one_iff.mp hn
  have hmis : Mismatched .stringAdd [v] ↔ v.kind ≠ .string := mismatched_one rfl
  cases v with
  | string => exact .string hn (by simp [hmis, Value.kind]) (by simp [OutOfDomain])
  | nil | bool | fixnum => exact .wrongKind hn (by simp [hmis, Value.kind])

theorem verdict_slice {storage : Nat} {bs : Bytes} {args : List Value} (hn : args.length = arity .stringSlice) :
    Verdict .stringSlice (.string storage bs) args (body .stringSlice (.string storage bs) args) := by
  obtain ⟨v, w, rfl⟩ := List.length_eq_two.mp hn
  have hmis : Mismatched .stringSlice [v, w] ↔ v.kind ≠ .fixnum ∨ w.kind ≠ .fixnum := mismatched_two rfl
  simp only [body, withArg_zero, withArg_one]
  rcases withFixnum_cases (name .stringSlice) v _ with ⟨start, rfl⟩ | ⟨hv, heq⟩
  · rcases withFixnum_cases (name .stringSlice) w _ with ⟨count, rfl⟩ | ⟨hw, heq⟩
    · have hk : ¬ Mismatched .stringSlice [.fixnum start, .fixnum count] := by simp [hmis, Value.kind]
      simp only [withFixnum, Value.fixnum?, withContents, Value.bytes?]
      by_cases hneg : count < 0
      · rw [if_pos hneg]
        exact .outOfDomain hn hk (Int64.lt_iff_toInt_lt.mp hneg)
      · rw [if_neg hneg]
        have hin : ¬ OutOfDomain .stringSlice (.string storage bs) [.fixnum start, .fixnum count] :=
          fun hout => hneg (Int64.lt_iff_toInt_lt.mpr hout)
        rcases slice_ends bs (Int64.not_lt.mp hneg) with heq | ⟨out, heq⟩
        · rw [heq]
          exact .value hn hk hin
        · rw [heq]
          exact .string hn hk hin
    · simp only [withFixnum, Value.fixnum?] at heq ⊢
      rw [heq]
      exact .wrongKind hn (hmis.mpr (.inr hw))
  · rw [heq]
    exact .wrongKind hn (hmis.mpr (.inl hv))

theorem kind_eq_fixnum {r : Value} (h : r.kind = .fixnum) : ∃ a, r = .fixnum a := by
  cases r with
  | fixnum a => exact ⟨a, rfl⟩
  | nil | bool | string => cases h

theorem kind_eq_string {r : Value} (h : r.kind = .string) : ∃ storage bs, r = .string storage bs := by
  cases r with
  | string storage bs => exact ⟨storage, bs, rfl⟩
  | nil | bool | fixnum => cases h

/-- **Verdicts.** Invoked on a receiver of its kind, a built-in ends in one of the five ways. -/
theorem invoke_verdict (b : Builtin) {r : Value} (hr : r.kind = b.kind) (args : List Value) :
    Verdict b r args (b.method.invoke r args) := by
  by_cases hn : args.length = b.arity
  · have hinvoke : b.method.invoke r args = b.body r args := by simp [method, Method.invoke, hn]
    rw [hinvoke]
    cases b with
    | nilToS | boolToS | fixnumToS => exact .string hn (not_mismatched rfl _) (by simp [OutOfDomain])
    | nilIsNil | boolNot | stringSize | stringIsEmpty | stringToS =>
      exact .value hn (not_mismatched rfl _) (by simp [OutOfDomain])
    | nilEq | boolEq | fixnumEq | stringEq =>
      obtain ⟨v, rfl⟩ := List.length_eq_one_iff.mp hn
      exact .value hn (not_mismatched rfl _) (by simp [OutOfDomain])
    | fixnumAdd =>
      obtain ⟨a, rfl⟩ := kind_eq_fixnum hr
      refine verdict_fixnum rfl rfl hn rfl fun n hargs hk => ?_
      subst hargs
      exact verdict_checked add_overflows_iff hn hk
    | fixnumSub =>
      obtain ⟨a, rfl⟩ := kind_eq_fixnum hr
      refine verdict_fixnum rfl rfl hn rfl fun n hargs hk => ?_
      subst hargs
      exact verdict_checked sub_overflows_iff hn hk
    | fixnumNeg =>
      obtain ⟨a, rfl⟩ := kind_eq_fixnum hr
      obtain rfl := List.length_eq_zero_iff.mp hn
      exact verdict_checked neg_overflows_iff hn (not_mismatched rfl _)
    | fixnumLess => exact verdict_fixnum rfl rfl hn rfl fun n _ hk => .value hn hk (by simp [OutOfDomain])
    | stringAdd =>
      obtain ⟨storage, bs, rfl⟩ := kind_eq_string hr
      exact verdict_concat hn
    | stringSlice =>
      obtain ⟨storage, bs, rfl⟩ := kind_eq_string hr
      exact verdict_slice hn
  · have hinvoke : b.method.invoke r args = refuse (.arity b.name b.arity args.length) := by
      simp [method, Method.invoke, hn, refuse]
    rw [hinvoke]
    exact .arity hn

end Builtin

end Dispatch
