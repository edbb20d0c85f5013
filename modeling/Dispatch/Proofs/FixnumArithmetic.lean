/-
Fixnum arithmetic is exact or refused. The programs of `+` and `-` wrap first and look at the sign of one operand
and the side of the other on which the result came to lie; sent as messages, they answer with the fixnum of the
sum or difference of the integers when there is one, and else fail (`ExactOrRefused`). From then on arithmetic is
that of the integers, and the laws between `+`, `-`, `-@`, `<` and `==` follow from it.
-/
import Dispatch.Proofs.BuiltinSends

namespace Dispatch

/-! ## Results that fit -/

/-- Only the negation of the least fixnum has no place. -/
theorem fits_neg_iff {a : Int64} : Fits (-a.toInt) ↔ a.toInt ≠ -0x8000000000000000 := by
  have ha := fits_toInt a
  unfold Fits at *
  omega

/-- The failed send of arithmetic whose result is no fixnum. -/
def overflowed (selector : Name) : Outcome :=
  .failure (.dispatch .fixnum selector (.outOfDomain selector (Bytes.ofString "fixnum overflow"))) .nil

theorem overflowed_failsWith (selector : Name) : (overflowed selector).FailsWith .invalidArgument :=
  ⟨_, _, rfl, rfl⟩

/-- The outcome of arithmetic with the result `n`: the fixnum of `n`, or a refusal when there is none. -/
def ExactOrRefused (selector : Name) (n : Int) (o : Outcome) : Prop :=
  (Fits n ∧ ∃ m : Int64, m.toInt = n ∧ o = .value (.fixnum m)) ∨ (¬ Fits n ∧ o = overflowed selector)

namespace ExactOrRefused

variable {selector : Name} {n : Int} {o : Outcome}

theorem failsWith_iff (h : ExactOrRefused selector n o) : o.FailsWith .invalidArgument ↔ ¬ Fits n := by
  rcases h with ⟨hfits, m, -, rfl⟩ | ⟨hover, rfl⟩
  · simp [hfits]
  · exact ⟨fun _ => hover, fun _ => overflowed_failsWith selector⟩

/-- A fixnum in the range is the answer, -/
theorem eq_value (h : ExactOrRefused selector n o) {m : Int64} (hm : m.toInt = n) : o = .value (.fixnum m) := by
  rcases h with ⟨-, m', hm', rfl⟩ | ⟨hover, -⟩
  · rw [Int64.toInt_inj.mp (hm'.trans hm.symm)]
  · exact absurd (hm ▸ fits_toInt m) hover

/-- and every answer is one. -/
theorem exists_of_value (h : ExactOrRefused selector n o) {v : Value} (hv : o = .value v) :
    ∃ m : Int64, m.toInt = n ∧ v = .fixnum m := by
  rcases h with ⟨-, m, hm, rfl⟩ | ⟨-, rfl⟩
  · cases hv
    exact ⟨m, hm, rfl⟩
  · cases hv

/-- Two ways to the same integer end alike, but for the selector. -/
theorem alike {selector' : Name} {o' : Outcome} (h : ExactOrRefused selector n o) (h' : ExactOrRefused selector' n o') :
    (∃ m, o = .value (.fixnum m) ∧ o' = .value (.fixnum m)) ∨
      (o = overflowed selector ∧ o' = overflowed selector') := by
  rcases h with ⟨-, m, hm, rfl⟩ | ⟨hover, rfl⟩
  · exact .inl ⟨m, rfl, h'.eq_value hm⟩
  · rcases h' with ⟨hfits, -⟩ | ⟨-, rfl⟩
    · exact absurd hfits hover
    · exact .inr ⟨rfl, rfl⟩

end ExactOrRefused

/-! ## The sends -/

namespace Context

variable {c : Context}

/-- A built-in that tests for overflow refuses or answers as its test says. -/
theorem checked_exactOrRefused {b : Builtin} {r : Value} {args : List Value} {wraps : Prop} [Decidable wraps]
    {m : Int64} {n : Int} (h : c.machine.Booted) (hr : r.kind = .fixnum) (hk : b.kind = .fixnum)
    (hp : b.method.invoke r args = if wraps then Builtin.overflow b.name else .done (.fixnum m))
    (hwraps : wraps ↔ ¬ Fits n) (hm : Fits n → m.toInt = n) :
    ExactOrRefused b.name n (c.sendName r b.name args).1 := by
  have hkind : r.kind = b.kind := hr.trans hk.symm
  by_cases hw : wraps
  · rw [if_pos hw] at hp
    obtain ⟨log, hsend⟩ := sendName_of_refuse h hkind rfl hp
    refine .inr ⟨hwraps.mp hw, ?_⟩
    rw [hsend, hr]
    rfl
  · rw [if_neg hw] at hp
    have hfits : Fits n := not_not.mp fun hn => hw (hwraps.mpr hn)
    obtain ⟨log, hsend⟩ := sendName_of_done h hkind hp
    exact .inl ⟨hfits, m, hm hfits, congrArg Prod.fst hsend⟩

theorem sendName_add (h : c.machine.Booted) (a b : Int64) :
    ExactOrRefused (Bytes.ofString "+") (a.toInt + b.toInt)
      (c.sendName (.fixnum a) (Bytes.ofString "+") [.fixnum b]).1 :=
  checked_exactOrRefused (b := .fixnumAdd) h rfl rfl rfl add_overflows_iff toInt_add_of_fits

theorem sendName_sub (h : c.machine.Booted) (a b : Int64) :
    ExactOrRefused (Bytes.ofString "-") (a.toInt - b.toInt)
      (c.sendName (.fixnum a) (Bytes.ofString "-") [.fixnum b]).1 :=
  checked_exactOrRefused (b := .fixnumSub) h rfl rfl rfl sub_overflows_iff toInt_sub_of_fits

theorem sendName_neg (h : c.machine.Booted) (a : Int64) :
    ExactOrRefused (Bytes.ofString "-@") (-a.toInt) (c.sendName (.fixnum a) (Bytes.ofString "-@") []).1 :=
  checked_exactOrRefused (b := .fixnumNeg) h rfl rfl rfl neg_overflows_iff toInt_neg_of_fits

theorem sendName_less (h : c.machine.Booted) (a b : Int64) :
    (c.sendName (.fixnum a) (Bytes.ofString "<") [.fixnum b]).1 = .value (.bool (decide (a.toInt < b.toInt))) := by
  have hp : (Builtin.method .fixnumLess).invoke (.fixnum a) [.fixnum b] = .done (.bool (decide (a < b))) := rfl
  obtain ⟨log, hsend⟩ := sendName_of_done h rfl hp
  rw [decide_eq_decide.mpr Int64.lt_iff_toInt_lt] at hsend
  exact congrArg Prod.fst hsend

theorem sendName_equal (h : c.machine.Booted) (a b : Int64) :
    (c.sendName (.fixnum a) (Bytes.ofString "==") [.fixnum b]).1 = .value (.bool (decide (a.toInt = b.toInt))) := by
  have hp : (Builtin.method .fixnumEq).invoke (.fixnum a) [.fixnum b] = .done (.bool (a == b)) := rfl
  obtain ⟨log, hsend⟩ := sendName_of_done h rfl hp
  rw [beq_eq_decide, decide_eq_decide.mpr Int64.toInt_inj.symm] at hsend
  exact congrArg Prod.fst hsend

theorem count_order (x y : Int) : [decide (x < y), decide (x = y), decide (y < x)].count true = 1 := by
  rcases Int.lt_trichotomy x y with h | rfl | h
  · have hne : x ≠ y := by omega
    have hnot : ¬ y < x := by omega
    simp [h, hne, hnot]
  · simp
  · have hne : x ≠ y := by omega
    have hnot : ¬ x < y := by omega
    simp [h, hne, hnot]

/-- **Fixnum arithmetic is exact or refused.** On any machine that a session comes to, and for any two fixnums: `+`,
`-` and `-@` answer with the fixnum of the integer that is meant, when there is one, and else fail for an invalid
argument; for `-@` that is the least fixnum alone. `<` is the order of the integers.

So a sum that is answered gives its first part back when the second is taken away; to subtract is to add the negation,
wherever that is answered, also in how it fails; and of less, equal and greater exactly one is true. The messages that
follow another may go to any other machine. -/
theorem fixnum_arithmetic_exact (c : Context) (h : c.machine.Reachable) (a b : Int64) :
    ExactOrRefused (Bytes.ofString "+") (a.toInt + b.toInt)
      (c.sendName (.fixnum a) (Bytes.ofString "+") [.fixnum b]).1 ∧
    ExactOrRefused (Bytes.ofString "-") (a.toInt - b.toInt)
      (c.sendName (.fixnum a) (Bytes.ofString "-") [.fixnum b]).1 ∧
    ExactOrRefused (Bytes.ofString "-@") (-a.toInt) (c.sendName (.fixnum a) (Bytes.ofString "-@") []).1 ∧
    (∀ selector, (overflowed selector).FailsWith .invalidArgument) ∧
    ((c.sendName (.fixnum a) (Bytes.ofString "-@") []).1.FailsWith .invalidArgument ↔
      a.toInt = -0x8000000000000000) ∧
    (c.sendName (.fixnum a) (Bytes.ofString "<") [.fixnum b]).1 = .value (.bool (decide (a.toInt < b.toInt))) ∧
    (∀ sum, (c.sendName (.fixnum a) (Bytes.ofString "+") [.fixnum b]).1 = .value sum →
      ∀ c' : Context, c'.machine.Reachable →
        (c'.sendName sum (Bytes.ofString "-") [.fixnum b]).1 = .value (.fixnum a)) ∧
    (∀ negated, (c.sendName (.fixnum b) (Bytes.ofString "-@") []).1 = .value negated →
      ∀ c' : Context, c'.machine.Reachable →
        (∃ n, (c.sendName (.fixnum a) (Bytes.ofString "-") [.fixnum b]).1 = .value (.fixnum n) ∧
          (c'.sendName (.fixnum a) (Bytes.ofString "+") [negated]).1 = .value (.fixnum n)) ∨
        ((c.sendName (.fixnum a) (Bytes.ofString "-") [.fixnum b]).1 = overflowed (Bytes.ofString "-") ∧
          (c'.sendName (.fixnum a) (Bytes.ofString "+") [negated]).1 = overflowed (Bytes.ofString "+"))) ∧
    ∃ less equal greater,
      (c.sendName (.fixnum a) (Bytes.ofString "<") [.fixnum b]).1 = .value (.bool less) ∧
      (c.sendName (.fixnum a) (Bytes.ofString "==") [.fixnum b]).1 = .value (.bool equal) ∧
      (c.sendName (.fixnum b) (Bytes.ofString "<") [.fixnum a]).1 = .value (.bool greater) ∧
      [less, equal, greater].count true = 1 := by
  have hb := h.booted
  have hneg := sendName_neg hb a
  refine ⟨sendName_add hb a b, sendName_sub hb a b, hneg, overflowed_failsWith, ?_, sendName_less hb a b, ?_, ?_,
    _, _, _, sendName_less hb a b, sendName_equal hb a b, sendName_less hb b a, count_order _ _⟩
  · rw [hneg.failsWith_iff, fits_neg_iff, not_not]
  · intro sum hsum c' h'
    obtain ⟨n, hn, rfl⟩ := (sendName_add hb a b).exists_of_value hsum
    exact (sendName_sub h'.booted n b).eq_value (by omega)
  · intro negated hnegated c' h'
    obtain ⟨n, hn, rfl⟩ := (sendName_neg hb b).exists_of_value hnegated
    have hadd := sendName_add h'.booted a n
    rw [hn, ← Int.sub_eq_add_neg] at hadd
    exact (sendName_sub hb a b).alike hadd

/-- The ends of the range: the least fixnum is added to the greatest and taken away again, although it has no negation;
and one less than the least is refused under both names. -/
theorem fixnum_arithmetic_exact_ends :
    let c : Context := ⟨.boot .empty false, 0, 0, [], []⟩
    c.machine.Reachable ∧
      (c.sendName (.fixnum Int64.maxValue) (Bytes.ofString "+") [.fixnum Int64.minValue]).1 = .value (.fixnum (-1)) ∧
      (c.sendName (.fixnum (-1)) (Bytes.ofString "-") [.fixnum Int64.minValue]).1 = .value (.fixnum Int64.maxValue) ∧
      (c.sendName (.fixnum Int64.minValue) (Bytes.ofString "-@") []).1.FailsWith .invalidArgument ∧
      (c.sendName (.fixnum 1) (Bytes.ofString "-@") []).1 = .value (.fixnum (-1)) ∧
      (c.sendName (.fixnum Int64.minValue) (Bytes.ofString "-") [.fixnum 1]).1 = overflowed (Bytes.ofString "-") ∧
      (c.sendName (.fixnum Int64.minValue) (Bytes.ofString "+") [.fixnum (-1)]).1 =
        overflowed (Bytes.ofString "+") := by
  intro c
  have h : c.machine.Reachable := Machine.boot_reachable false
  obtain ⟨hadd, -, -, -, -, -, hback, -⟩ := fixnum_arithmetic_exact c h Int64.maxValue Int64.minValue
  obtain ⟨-, hsub, -, -, hleast, -, -, hnegated, -⟩ := fixnum_arithmetic_exact c h Int64.minValue 1
  have hsum := hadd.eq_value (m := -1) (by decide)
  have hone := (fixnum_arithmetic_exact c h 1 0).2.2.1.eq_value (m := -1) (by decide)
  refine ⟨h, hsum, hback _ hsum c h, hleast.mpr (by decide), hone, ?_⟩
  rcases hnegated _ hone c h with ⟨n, hn, -⟩ | hrefused
  · have hfails : ¬ Fits (Int64.minValue.toInt - (1 : Int64).toInt) := by
      unfold Fits
      decide
    have hover := hsub.failsWith_iff.mpr hfails
    rw [hn] at hover
    exact absurd hover Outcome.not_failsWith_value
  · exact hrefused

end Context

end Dispatch
