/-
Fixnums as text. The numeral of a number is made by division, last digit first; reading it multiplies and adds, first
digit first. The two meet at the last digit (`digitsFrom?_concat`), so both what is read back and which numerals there
are go by induction along the digits.

A numeral without padding is the only one of its number (`eq_ofInt`). That is what makes `to_s` canonical: equal
numerals come from equal fixnums only.
-/
import Mathlib.Data.List.Induction
import Dispatch.Proofs.Expressions

namespace Dispatch.Decimal

/-! ## Numerals without padding -/

def IsDigit (b : UInt8) : Prop := 48 ≤ b.toNat ∧ b.toNat ≤ 57

instance (b : UInt8) : Decidable (IsDigit b) := inferInstanceAs (Decidable (48 ≤ b.toNat ∧ b.toNat ≤ 57))

/-- Digits, of which the first is zero only if it is the only one. -/
structure Unpadded (ds : Bytes) : Prop where
  ne_nil : ds ≠ []
  digits : ∀ b ∈ ds, IsDigit b
  first : ds.head? = some 48 → ds = [48]

instance (ds : Bytes) : Decidable (Unpadded ds) :=
  decidable_of_iff (ds ≠ [] ∧ ds.all (IsDigit ·) = true ∧ (ds.head? = some 48 → ds = [48])) <| by
    simp only [List.all_eq_true, decide_eq_true_eq]
    exact ⟨fun ⟨hne, hdigits, hfirst⟩ => ⟨hne, hdigits, hfirst⟩, fun ⟨hne, hdigits, hfirst⟩ => ⟨hne, hdigits, hfirst⟩⟩

/-- Digits without padding, after a minus sign perhaps, but not the zero then. -/
inductive Canonical : Bytes → Prop
  | natural {ds : Bytes} : Unpadded ds → Canonical ds
  | negative {ds : Bytes} : Unpadded ds → ds ≠ [48] → Canonical (45 :: ds)

/-! ## Digits -/

theorem toNat_digit {n : Nat} (h : n < 10) : (digit n).toNat = 48 + n := by
  simp [digit]
  omega

theorem isDigit_digit {n : Nat} (h : n < 10) : IsDigit (digit n) := by
  simp only [IsDigit, toNat_digit h]
  omega

theorem digit?_eq_some {b : UInt8} {n : Nat} : digit? b = some n ↔ n < 10 ∧ b = digit n := by
  unfold digit?
  constructor
  · intro h
    split at h
    next hb =>
      simp only [UInt8.le_iff_toNat_le] at hb
      have hlow : (48 : UInt8).toNat = 48 := rfl
      have hhigh : (57 : UInt8).toNat = 57 := rfl
      obtain rfl := Option.some.inj h
      have hn : b.toNat - 48 < 10 := by omega
      exact ⟨hn, UInt8.toNat_inj.mp (by rw [toNat_digit hn]; omega)⟩
    next => cases h
  · rintro ⟨hn, rfl⟩
    revert n
    decide

theorem digitsFrom?_concat (acc : Nat) (ds : Bytes) (d : UInt8) :
    digitsFrom? acc (ds ++ [d]) = (digitsFrom? acc ds).bind fun n => (digit? d).map (n * 10 + ·) := by
  induction ds generalizing acc with
  | nil => cases h : digit? d <;> simp [digitsFrom?, h]
  | cons b ds ih =>
    cases h : digit? b with
    | none => simp [digitsFrom?, h]
    | some n => simpa [digitsFrom?, h] using ih (acc * 10 + n)

theorem toNat?_eq {ds : Bytes} (h : ds ≠ []) : toNat? ds = digitsFrom? 0 ds := by
  cases ds with
  | nil => exact absurd rfl h
  | cons b bs => rfl

/-! ## Natural numbers -/

theorem ofNat_of_lt {n : Nat} (h : n < 10) : ofNat n = [digit n] := by
  rw [ofNat, if_pos h]

theorem ofNat_of_le {n : Nat} (h : 10 ≤ n) : ofNat n = ofNat (n / 10) ++ [digit (n % 10)] := by
  rw [ofNat, if_neg (by omega)]

theorem ofNat_ne_nil (n : Nat) : ofNat n ≠ [] := by
  unfold ofNat
  split <;> simp

theorem digitsFrom?_ofNat (n : Nat) : digitsFrom? 0 (ofNat n) = some n := by
  fun_induction ofNat n with
  | case1 n h => simp [digitsFrom?, digit?_eq_some.mpr ⟨h, rfl⟩]
  | case2 n h ih =>
    have hlast : n % 10 < 10 := Nat.mod_lt n (by decide)
    rw [digitsFrom?_concat, ih, digit?_eq_some.mpr ⟨hlast, rfl⟩]
    simp only [Option.bind_some, Option.map_some, Option.some.injEq]
    omega

theorem toNat?_ofNat (n : Nat) : toNat? (ofNat n) = some n := by
  rw [toNat?_eq (ofNat_ne_nil n), digitsFrom?_ofNat]

theorem isDigit_of_mem_ofNat {n : Nat} {b : UInt8} (h : b ∈ ofNat n) : IsDigit b := by
  fun_induction ofNat n with
  | case1 n hn =>
    rw [List.mem_singleton.mp h]
    exact isDigit_digit hn
  | case2 n _ ih =>
    rcases List.mem_append.mp h with hfront | hlast
    · exact ih hfront
    · rw [List.mem_singleton.mp hlast]
      exact isDigit_digit (Nat.mod_lt n (by decide))

/-- Only zero begins with a zero: the first digit is that of the last quotient. -/
theorem eq_zero_of_head? {n : Nat} (h : (ofNat n).head? = some 48) : n = 0 := by
  fun_induction ofNat n with
  | case1 n hn =>
    have hdigit : digit n = 48 := by simpa using h
    have htoNat := toNat_digit hn
    rw [hdigit] at htoNat
    have hzero : (48 : UInt8).toNat = 48 := rfl
    omega
  | case2 n hn ih =>
    rw [List.head?_append_of_ne_nil _ (ofNat_ne_nil _)] at h
    have hdiv := ih h
    omega

theorem ofNat_zero : ofNat 0 = [48] := ofNat_of_lt (by decide)

theorem unpadded_ofNat (n : Nat) : Unpadded (ofNat n) where
  ne_nil := ofNat_ne_nil n
  digits _ := isDigit_of_mem_ofNat
  first h := by rw [eq_zero_of_head? h, ofNat_zero]

theorem length_ofNat_le {n k : Nat} (h : n < Nat.pow 10 (k + 1)) : (ofNat n).length ≤ k + 1 := by
  induction k generalizing n with
  | zero =>
    have hn : n < 10 := h
    simp [ofNat_of_lt hn]
  | succ k ih =>
    by_cases hn : n < 10
    · simp [ofNat_of_lt hn]
    · have hdiv : n / 10 < Nat.pow 10 (k + 1) := Nat.div_lt_of_lt_mul (by rwa [Nat.mul_comm])
      rw [ofNat_of_le (by omega), List.length_append, List.length_singleton]
      have hfront := ih hdiv
      omega

/-- Digits without padding are the numeral of their number. -/
theorem eq_ofNat {ds : Bytes} {n : Nat} (h : Unpadded ds) (hn : toNat? ds = some n) : ds = ofNat n := by
  rw [toNat?_eq h.ne_nil] at hn
  induction ds using List.reverseRecOn generalizing n with
  | nil => exact absurd rfl h.ne_nil
  | append_singleton front d ih =>
    rw [digitsFrom?_concat] at hn
    obtain ⟨m, hm, hlast⟩ := Option.bind_eq_some_iff.mp hn
    obtain ⟨k, hk, rfl⟩ := Option.map_eq_some_iff.mp hlast
    obtain ⟨hlt, rfl⟩ := digit?_eq_some.mp hk
    by_cases hnil : front = []
    · subst hnil
      obtain rfl : 0 = m := Option.some.inj hm
      rw [Nat.zero_mul, Nat.zero_add, ofNat_of_lt hlt, List.nil_append]
    · -- More digits follow the first one, so it is not zero, and neither is the number of the front.
      have hfirst : front.head? ≠ some 48 := by
        intro hzero
        have hone := congrArg List.length (h.first (by rwa [List.head?_append_of_ne_nil _ hnil]))
        exact hnil (by simpa using hone)
      have hfront : Unpadded front :=
        ⟨hnil, fun b hb => h.digits b (List.mem_append_left _ hb), fun hzero => absurd hzero hfirst⟩
      have heq := ih hfront hm
      have hpos : m ≠ 0 := by
        rintro rfl
        rw [heq, ofNat_zero] at hfirst
        exact hfirst rfl
      have hdiv : (m * 10 + k) / 10 = m := by omega
      have hmod : (m * 10 + k) % 10 = k := by omega
      rw [ofNat_of_le (by omega), hdiv, hmod, ← heq]

/-! ## Integers -/

theorem toInt?_of_digits {ds : Bytes} (h : ∀ b ∈ ds, IsDigit b) : toInt? ds = (toNat? ds).map fun n : Nat => (n : Int) := by
  cases ds with
  | nil => rfl
  | cons b bs =>
    have hsign : b ≠ 45 := by
      rintro rfl
      exact absurd (h 45 List.mem_cons_self) (by decide)
    rw [toInt?, if_neg hsign]
    cases toNat? (b :: bs) <;> rfl

theorem toInt?_minus (ds : Bytes) : toInt? (45 :: ds) = (toNat? ds).map fun n : Nat => -(n : Int) := by
  rw [toInt?, if_pos rfl]
  cases toNat? ds <;> rfl

/-- A numeral is read back. -/
theorem toInt?_ofInt (n : Int) : toInt? (ofInt n) = some n := by
  cases n with
  | ofNat n =>
    rw [ofInt, toInt?_of_digits fun b => isDigit_of_mem_ofNat, toNat?_ofNat]
    rfl
  | negSucc n =>
    rw [ofInt, toInt?_minus, toNat?_ofNat]
    rfl

theorem canonical_ofInt (n : Int) : Canonical (ofInt n) := by
  cases n with
  | ofNat n => exact .natural (unpadded_ofNat n)
  | negSucc n =>
    refine .negative (unpadded_ofNat (n + 1)) fun hzero => ?_
    have hn : n + 1 = 0 := eq_zero_of_head? (by rw [hzero]; rfl)
    omega

/-- There is one canonical numeral of a number. -/
theorem eq_ofInt {bs : Bytes} {n : Int} (h : Canonical bs) (hn : toInt? bs = some n) : bs = ofInt n := by
  cases h with
  | natural h =>
    rw [toInt?_of_digits h.digits] at hn
    obtain ⟨k, hk, rfl⟩ := Option.map_eq_some_iff.mp hn
    exact eq_ofNat h hk
  | @negative ds h hzero =>
    rw [toInt?_minus] at hn
    obtain ⟨k, hk, rfl⟩ := Option.map_eq_some_iff.mp hn
    obtain rfl := eq_ofNat h hk
    cases k with
    | zero => exact absurd ofNat_zero hzero
    | succ k => rfl

theorem ofInt_inj {n m : Int} (h : ofInt n = ofInt m) : n = m := by
  have hread := toInt?_ofInt n
  rw [h, toInt?_ofInt m] at hread
  exact (Option.some.inj hread).symm

/-- Signs and padding in a canonical numeral: no zero stands before another digit, no minus sign before a zero, and
there is no plus sign. -/
theorem Canonical.unpadded {bs : Bytes} (h : Canonical bs) :
    (bs.head? = some 48 → bs = [48]) ∧ ¬ [45, 48] <+: bs ∧ 43 ∉ bs := by
  have hplus : ∀ ds : Bytes, Unpadded ds → 43 ∉ ds := fun ds hds hmem => absurd (hds.digits 43 hmem) (by decide)
  cases h with
  | natural h =>
    refine ⟨h.first, fun hstart => ?_, hplus _ h⟩
    exact absurd (h.digits 45 (hstart.mem (by simp))) (by decide)
  | @negative ds h hzero =>
    refine ⟨fun hfirst => absurd hfirst (by simp), fun hstart => hzero (h.first ?_), ?_⟩
    · obtain ⟨tail, htail⟩ := (List.cons_prefix_cons.mp hstart).2
      rw [← htail]
      rfl
    · rw [List.mem_cons, not_or]
      exact ⟨by decide, hplus ds h⟩

theorem length_ofInt_le (n : Int64) : (ofInt n.toInt).length ≤ 20 := by
  have hlow := n.le_toInt
  have hhigh := n.toInt_lt
  have hlength : ∀ k : Nat, k < 10000000000000000000 → (ofNat k).length ≤ 19 := fun k hk => length_ofNat_le hk
  cases hn : n.toInt with
  | ofNat k =>
    have hk := hlength k (by rw [hn] at hhigh; simp at hhigh; omega)
    rw [ofInt]
    omega
  | negSucc k =>
    have hk := hlength (k + 1) (by omega)
    rw [ofInt, List.length_cons]
    omega

end Dispatch.Decimal

namespace Dispatch

/-! ## The message -/

namespace Expression

def toS (e : Expression) : Expression := .message e (Bytes.ofString "to_s") []

theorem Denotes.toS_fixnum {e : Expression} {n : Int64} (h : Denotes e (.fixnum n)) :
    Denotes e.toS (.string 0 (Decimal.ofInt n.toInt)) :=
  h.string (b := .fixnumToS) .nil rfl (by decide) rfl

/-- The numerals of two fixnums are equal strings when the fixnums are equal, and only then. -/
theorem eval_equals_toS {c : Context} (hc : c.machine.Booted) (n m : Int64) :
    ((equals (toS (.value (.fixnum n))) (toS (.value (.fixnum m)))).eval c).1 = .value (.bool (decide (n = m))) := by
  have hn := (denotes_value (.fixnum n)).toS_fixnum
  have hm := (denotes_value (.fixnum m)).toS_fixnum
  have hiff : Decimal.ofInt n.toInt = Decimal.ofInt m.toInt ↔ n = m :=
    ⟨fun h => Int64.toInt_inj.mp (Decimal.ofInt_inj h), fun h => by rw [h]⟩
  rw [(hn.equals hm).eval_eq (by simp [Value.kind]) hc]
  simp [Value.equal, beq_eq_decide, hiff]

end Expression

namespace Context

/-- **The text of a fixnum is its canonical numeral.** On any machine that a session comes to, `to_s` sent to a fixnum
is answered with a new string. For every fixnum, the least one included, this string

- reads back as the fixnum;
- has no zero before another digit, no minus sign before a zero, no plus sign, and at most 20 bytes;
- is the inspect form of the fixnum;
- is the only numeral without padding that reads back as the fixnum.

So `==` between the texts of two fixnums is true when the fixnums are equal, and false when they are not. -/
theorem fixnum_toS_canonical (c : Context) (h : c.machine.Reachable) (n : Int64) :
    (∃ numeral log, c.sendName (.fixnum n) (Bytes.ofString "to_s") [] =
        (.value (.string c.fresh numeral), { c with fresh := c.fresh + 1, log }) ∧
      Decimal.toInt? numeral = some n.toInt ∧
      ((numeral.head? = some 48 → numeral = [48]) ∧ ¬ [45, 48] <+: numeral ∧ 43 ∉ numeral) ∧
      numeral.length ≤ 20 ∧
      numeral = (Value.fixnum n).inspect ∧
      Decimal.Canonical numeral ∧
      ∀ other, Decimal.Canonical other → Decimal.toInt? other = some n.toInt → other = numeral) ∧
    ∀ m : Int64, ((Expression.equals (.toS (.value (.fixnum n))) (.toS (.value (.fixnum m)))).eval c).1 =
      .value (.bool (decide (n = m))) := by
  have hcanonical := Decimal.canonical_ofInt n.toInt
  have hprogram : Builtin.fixnumToS.method.invoke (.fixnum n) [] = Builtin.answerString (Decimal.ofInt n.toInt) := rfl
  obtain ⟨log, hsend⟩ := sendName_of_string h.booted rfl hprogram
  refine ⟨⟨Decimal.ofInt n.toInt, log, hsend, Decimal.toInt?_ofInt _, hcanonical.unpadded, Decimal.length_ofInt_le n,
    rfl, hcanonical, fun other => Decimal.eq_ofInt⟩, Expression.eval_equals_toS h.booted n⟩

/-- The least fixnum, whose numeral takes all twenty bytes, and zero. -/
theorem fixnum_toS_canonical_least :
    let c : Context := ⟨.boot .empty false, 0, 0, [], []⟩
    c.machine.Reachable ∧
      (∃ numeral log, c.sendName (.fixnum Int64.minValue) (Bytes.ofString "to_s") [] =
          (.value (.string 0 numeral), { c with fresh := 1, log }) ∧
        numeral = Bytes.ofString "-9223372036854775808" ∧ numeral.length = 20) ∧
      ((Expression.equals (.toS (.value (.fixnum Int64.minValue))) (.toS (.value (.fixnum 0)))).eval c).1 =
        .value (.bool false) := by
  intro c
  have h : c.machine.Reachable := Machine.boot_reachable false
  obtain ⟨⟨numeral, log, hsend, -, -, -, -, -, honly⟩, hequal⟩ := fixnum_toS_canonical c h Int64.minValue
  have htext : Bytes.ofString "-9223372036854775808" = numeral :=
    honly _ (.negative (by decide) (by decide)) (by decide)
  exact ⟨h, ⟨numeral, log, hsend, htext.symm, by rw [← htext]; decide⟩, hequal 0⟩

end Context

end Dispatch
