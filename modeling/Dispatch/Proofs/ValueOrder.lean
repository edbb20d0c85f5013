/-
The order of values. It asks for the kind first, then for the number of a boolean or a fixnum, then for the size of a
string, and then for its bytes (`Value.order_eq_lex`); each of these orders is total, so their chain is. It finds
two values equal just when their contents are, and so a sorted list is settled up to copies of strings: whatever
order the values came in, sorting puts equal contents at equal places, and copies stay in the order they had.
-/
import Mathlib.Data.List.Forall2
import Dispatch.Proofs.Equality

namespace Dispatch

/-! ## The order of bytes -/

namespace Bytes

variable {a b : Bytes} {x y : UInt8}

/-- Where the two first differ, `a` has the smaller byte. -/
def Precedes (a b : Bytes) : Prop :=
  ∃ front x y s t, a = front ++ x :: s ∧ b = front ++ y :: t ∧ x.toNat < y.toNat

theorem precedes_cons_cons : Precedes (x :: a) (y :: b) ↔ x.toNat < y.toNat ∨ x = y ∧ Precedes a b := by
  constructor
  · rintro ⟨front, p, q, s, t, ha, hb, hlt⟩
    cases front with
    | nil =>
      obtain ⟨rfl, -⟩ := List.cons.inj ha
      obtain ⟨rfl, -⟩ := List.cons.inj hb
      exact .inl hlt
    | cons f front =>
      obtain ⟨rfl, rfl⟩ := List.cons.inj ha
      obtain ⟨rfl, rfl⟩ := List.cons.inj hb
      exact .inr ⟨rfl, front, p, q, s, t, rfl, rfl, hlt⟩
  · rintro (hlt | ⟨rfl, front, p, q, s, t, rfl, rfl, hlt⟩)
    · exact ⟨[], x, y, a, b, rfl, rfl, hlt⟩
    · exact ⟨x :: front, p, q, s, t, rfl, rfl, hlt⟩

theorem compare_byte_eq_lt : compare x y = .lt ↔ x.toNat < y.toNat := by
  rw [Std.compare_eq_lt, UInt8.lt_iff_toNat_lt]

/-- Between strings of one length the bytewise order is decided by the first difference. -/
theorem lex_eq_lt_iff (h : a.length = b.length) : lex a b = .lt ↔ Precedes a b := by
  induction a generalizing b with
  | nil =>
    obtain rfl := List.length_eq_zero_iff.mp h.symm
    constructor
    · intro hlt
      cases hlt
    · rintro ⟨front, x, y, s, t, ha, -⟩
      simp at ha
  | cons x a ih =>
    cases b with
    | nil => cases h
    | cons y b =>
      rw [precedes_cons_cons, ← ih (Nat.succ.inj h), lex, List.compareLex_cons_cons, Ordering.then_eq_lt,
        compare_byte_eq_lt, Std.compare_eq_iff_eq]
      rfl

end Bytes

/-! ## The order as a chain -/

theorem Kind.compare_tag_of_sublist {k l : Kind} (h : [k, l].Sublist [.nil, .bool, .fixnum, .string]) :
    compare k.tag l.tag = .lt := by
  revert h
  cases k <;> cases l <;> decide

namespace Value

variable {v w : Value}

/-- The number of a boolean or a fixnum, zero for every other value. -/
def number : Value → Int
  | .bool b => b.toNat
  | .fixnum n => n.toInt
  | _ => 0

/-- Four orders, each asked when those before it find no difference. -/
theorem order_eq_lex : order = compareLex (compareOn fun v => v.kind.tag)
    (compareLex (compareOn number) (compareLex (compareOn size) (compareOn text))) := by
  funext v w
  cases v with
  | nil => cases w <;> rfl
  | bool a =>
    cases w with
    | bool b => cases a <;> cases b <;> rfl
    | nil | fixnum | string => rfl
  | fixnum m =>
    cases w with
    | fixnum n => exact (Ordering.then_eq (o := compare m.toInt n.toInt)).symm
    | nil | bool | string => rfl
  | string => cases w <;> rfl

instance : Std.TransCmp order := by
  rw [order_eq_lex]
  infer_instance

theorem number_bool_inj {a b : Bool} : (bool a).number = (bool b).number ↔ a = b := by
  cases a <;> cases b <;> decide

/-- Kind, number and text are all there is to the content of a value. -/
theorem equal_iff_parts : v.equal w = true ↔
    v.kind.tag = w.kind.tag ∧ v.number = w.number ∧ v.text = w.text := by
  cases v <;> cases w
  case bool.bool a b => simp [equal, kind, text, bytes?, number_bool_inj]
  all_goals simp [equal, kind, Kind.tag, number, text, bytes?, Int64.toInt_inj]

/-- The order finds two values equal just when their contents are. -/
theorem order_eq_eq_iff : v.order w = .eq ↔ v.equal w = true := by
  have hsize : v.text = w.text → v.size = w.size := congrArg List.length
  simp only [order_eq_lex, compareLex, compareOn, Ordering.then_eq_eq, Std.compare_eq_iff_eq, equal_iff_parts,
    and_iff_right_of_imp hsize]

theorem order_swap (v w : Value) : w.order v = (v.order w).swap := Std.OrientedCmp.eq_swap

theorem order_isLE_trans (u v w : Value) (huv : (u.order v).isLE = true) (hvw : (v.order w).isLE = true) :
    (u.order w).isLE = true :=
  Std.TransCmp.isLE_trans huv hvw

theorem order_isLE_total (v w : Value) : ((v.order w).isLE || (w.order v).isLE) = true := by
  rw [order_swap v w]
  cases v.order w <;> rfl

/-! ## The order as a number -/

/-- The order as a sign. -/
def comparison (v w : Value) : Int :=
  match v.order w with
  | .lt => -1
  | .eq => 0
  | .gt => 1

theorem comparison_eq_neg_one : v.comparison w = -1 ↔ v.order w = .lt := by
  unfold comparison
  cases v.order w <;> decide

theorem comparison_eq_zero : v.comparison w = 0 ↔ v.equal w = true := by
  rw [← order_eq_eq_iff]
  unfold comparison
  cases v.order w <;> decide

theorem comparison_nonpos : v.comparison w ≤ 0 ↔ (v.order w).isLE = true := by
  unfold comparison
  cases v.order w <;> decide

theorem comparison_swap (v w : Value) : w.comparison v = -v.comparison w := by
  unfold comparison
  rw [order_swap v w]
  cases v.order w <;> rfl

/-- Values of different kinds are ordered by their kinds alone. -/
theorem comparison_of_kinds (h : [v.kind, w.kind].Sublist [.nil, .bool, .fixnum, .string]) :
    v.comparison w = -1 := by
  rw [comparison_eq_neg_one, order_eq_lex]
  exact Ordering.then_eq_lt.mpr (.inl (Kind.compare_tag_of_sublist h))

theorem comparison_fixnum (m n : Int64) : (fixnum m).comparison (fixnum n) = (m.toInt - n.toInt).sign := by
  have horder : (fixnum m).order (fixnum n) = compare m.toInt n.toInt := rfl
  unfold comparison
  rcases Int.lt_trichotomy m.toInt n.toInt with h | h | h
  · rw [horder, Int.compare_eq_lt.mpr h, Int.sign_eq_neg_one_of_neg (by omega)]
  · rw [horder, Int.compare_eq_eq.mpr h, h, Int.sub_self, Int.sign_zero]
  · rw [horder, Int.compare_eq_gt.mpr h, Int.sign_eq_one_of_pos (by omega)]

theorem comparison_string (a b : Nat) (bs bs' : Bytes) : (string a bs).comparison (string b bs') = -1 ↔
    bs.length < bs'.length ∨ bs.length = bs'.length ∧ bs.Precedes bs' := by
  have horder : (string a bs).order (string b bs') = (compare bs.length bs'.length).then (bs.lex bs') := rfl
  rw [comparison_eq_neg_one, horder, Ordering.then_eq_lt, Nat.compare_eq_lt, Nat.compare_eq_eq]
  exact or_congr_right (and_congr_right Bytes.lex_eq_lt_iff)

/-! ## Sorting -/

theorem sort_perm (vs : List Value) : (sort vs).Perm vs := List.mergeSort_perm vs _

theorem pairwise_sort (vs : List Value) : (sort vs).Pairwise fun v w => (v.order w).isLE = true :=
  @List.pairwise_mergeSort Value (fun v w => (v.order w).isLE) order_isLE_trans order_isLE_total vs

/-- Values of one content keep their places among each other. -/
theorem filter_sort (v : Value) (vs : List Value) : (sort vs).filter v.equal = vs.filter v.equal := by
  -- Values of one content are in order as they stand, so a stable sort has them as a sublist.
  have hequal : (vs.filter v.equal).Pairwise fun u w => (u.order w).isLE = true := by
    refine List.pairwise_filter.mpr (List.pairwise_of_forall fun u w hu hw => ?_)
    rw [order_eq_eq_iff.mpr]
    · rfl
    · rw [equal_iff] at *
      exact hu.symm.trans hw
  have hsub : (vs.filter v.equal).Sublist (sort vs) :=
    @List.sublist_mergeSort Value (fun v w => (v.order w).isLE) vs order_isLE_trans order_isLE_total _ hequal
      List.filter_sublist
  have hfilter := hsub.filter v.equal
  simp only [List.filter_filter, Bool.and_self] at hfilter
  exact (hfilter.eq_of_length ((sort_perm vs).filter v.equal).length_eq.symm).symm

theorem order_content (v w : Value) : v.content.order w.content = v.order w := by
  cases v <;> cases w <;> rfl

theorem content_content (v : Value) : v.content.content = v.content := by
  cases v <;> rfl

/-- Sorting two arrangements of the same values puts equal contents at equal places. -/
theorem equal_sort_of_perm {vs ws : List Value} (h : vs.Perm ws) :
    List.Forall₂ (fun v w => v.equal w = true) (sort vs) (sort ws) := by
  have hperm : (sort vs).Perm (sort ws) := (sort_perm vs).trans (h.trans (sort_perm ws).symm)
  have hsorted : ∀ us, ((sort us).map content).Pairwise fun v w => (v.order w).isLE = true := by
    intro us
    refine List.pairwise_map.mpr ((pairwise_sort us).imp ?_)
    intro v w hvw
    rwa [order_content]
  -- Between contents the order is antisymmetric, so there is one sorted list of them.
  have hcontents : (sort vs).map content = (sort ws).map content := by
    refine List.Perm.eq_of_pairwise ?_ (hsorted vs) (hsorted ws) (hperm.map content)
    intro a b ha hb hab hba
    obtain ⟨v, -, rfl⟩ := List.mem_map.mp ha
    obtain ⟨w, -, rfl⟩ := List.mem_map.mp hb
    have hequal := equal_iff.mp (order_eq_eq_iff.mp (Std.OrientedCmp.isLE_antisymm hab hba))
    rwa [content_content, content_content] at hequal
  have hplaces : List.Forall₂ (· = ·) ((sort vs).map content) ((sort ws).map content) := by
    rw [List.forall₂_eq_eq_eq, hcontents]
  refine (List.forall₂_map_left_iff.mp (List.forall₂_map_right_iff.mp hplaces)).imp ?_
  intro v w hvw
  exact equal_iff.mpr hvw

/-- **The order of values is total, and sorting by it is canonical.** As a sign the order is -1, 0 or 1, turns
around with its arguments, is transitive, and is 0 just between equal contents. Kinds come first, whatever the values
are; then false is before true, fixnums go by number, and strings by length and then by the first byte in which they
differ.

So the sorted list is a permutation of the values in ascending order, in which values of one content stay in the
order they had; and however the values are arranged before, the sorted lists have equal contents place by place. -/
theorem comparison_total_and_sort_canonical :
    (∀ v w : Value, v.comparison w = -1 ∨ v.comparison w = 0 ∨ v.comparison w = 1) ∧
    (∀ v w : Value, w.comparison v = -v.comparison w) ∧
    (∀ u v w : Value, u.comparison v ≤ 0 → v.comparison w ≤ 0 → u.comparison w ≤ 0) ∧
    (∀ v w : Value, v.comparison w = 0 ↔ v.equal w = true) ∧
    (∀ v w : Value, [v.kind, w.kind].Sublist [.nil, .bool, .fixnum, .string] → v.comparison w = -1) ∧
    (bool false).comparison (bool true) = -1 ∧
    (∀ m n : Int64, (fixnum m).comparison (fixnum n) = (m.toInt - n.toInt).sign) ∧
    (∀ (a b : Nat) (bs bs' : Bytes), (string a bs).comparison (string b bs') = -1 ↔
      bs.length < bs'.length ∨ bs.length = bs'.length ∧ bs.Precedes bs') ∧
    (∀ vs : List Value, (sort vs).Perm vs ∧ (sort vs).Pairwise (fun v w => v.comparison w ≤ 0) ∧
      ∀ v : Value, (sort vs).filter v.equal = vs.filter v.equal) ∧
    ∀ vs ws : List Value, vs.Perm ws → List.Forall₂ (fun v w => v.equal w = true) (sort vs) (sort ws) := by
  refine ⟨?_, comparison_swap, ?_, fun v w => comparison_eq_zero, fun v w => comparison_of_kinds, rfl,
    comparison_fixnum, comparison_string, fun vs => ⟨sort_perm vs, ?_, fun v => filter_sort v vs⟩,
    fun vs ws => equal_sort_of_perm⟩
  · intro v w
    unfold comparison
    cases v.order w <;> decide
  · intro u v w huv hvw
    rw [comparison_nonpos] at *
    exact order_isLE_trans u v w huv hvw
  · refine (pairwise_sort vs).imp ?_
    intro v w hvw
    exact comparison_nonpos.mpr hvw

/-- Bytes are compared without a sign, a longer string comes later whatever its bytes are, and any fixnum comes before
any string. Two copies of `b` and nil, in two arrangements. -/
theorem comparison_total_and_sort_canonical_copies :
    let vs : List Value := [string 0 [0x62], nil, string 1 [0x62]]
    let ws : List Value := [string 1 [0x62], string 0 [0x62], nil]
    (string 0 [0x7f]).comparison (string 1 [0x80]) = -1 ∧
      (string 1 [0x80]).comparison (string 2 [0, 0]) = -1 ∧
      [(fixnum Int64.maxValue).kind, (string 0 []).kind].Sublist [.nil, .bool, .fixnum, .string] ∧
      (fixnum Int64.maxValue).comparison (string 0 []) = -1 ∧
      (string 0 []).comparison (string 0 [0x7f]) ≤ 0 ∧
      (fixnum Int64.maxValue).comparison (string 0 [0x7f]) ≤ 0 ∧
      vs.Perm ws ∧ List.Forall₂ (fun v w => v.equal w = true) (sort vs) (sort ws) := by
  intro vs ws
  obtain ⟨-, -, htrans, -, hkinds, -, -, hstrings, -, hcanonical⟩ := comparison_total_and_sort_canonical
  have hkind : [(fixnum Int64.maxValue).kind, (string 0 []).kind].Sublist [.nil, .bool, .fixnum, .string] := by decide
  have hfirst := hkinds (fixnum Int64.maxValue) (string 0 []) hkind
  have hsecond : (string 0 []).comparison (string 0 [0x7f]) ≤ 0 := by decide
  have hperm : vs.Perm ws := by decide
  exact ⟨(hstrings 0 1 [0x7f] [0x80]).mpr (.inr ⟨rfl, [], 0x7f, 0x80, [], [], rfl, rfl, by decide⟩),
    (hstrings 1 2 [0x80] [0, 0]).mpr (.inl (by decide)), hkind, hfirst, hsecond,
    htrans _ _ _ (by rw [hfirst]; decide) hsecond, hperm, hcanonical vs ws hperm⟩

end Value

end Dispatch
