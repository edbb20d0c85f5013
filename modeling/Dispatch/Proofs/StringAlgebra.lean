/-
The laws of joining and cutting strings, as messages. `+` makes a new string from the bytes of both, and `[]` clamps its
count and cuts between two 64-bit places; on what they denote they are the append of lists and a `take` of a `drop`, and
the laws between them, with `size` and `==`, are those of lists. Every index of a law is a fixnum, and where a law
speaks of a sum or a size, that is a message too.
-/
import Dispatch.Proofs.Expressions
import Dispatch.Proofs.Slicing

namespace Dispatch

namespace Builtin

/-- A slice that starts inside is so many bytes of what is left after the start. -/
theorem slice_eq_take {bs : Bytes} (hsize : bs.length < 0x8000000000000000) {start count : Int64}
    (hstart : 0 ≤ start.toInt) (hle : start.toInt ≤ bs.length) (hcount : 0 ≤ count.toInt) :
    slice bs start count = answerString ((bs.drop start.toInt.toNat).take count.toInt.toNat) := by
  obtain ⟨n, hn, hhigh, hslice⟩ := slice_eq_cut hsize hstart hle hcount
  have hcut : (bs.take (start + n).toInt.toNat).drop start.toInt.toNat =
      (bs.drop start.toInt.toNat).take count.toInt.toNat := by
    rw [List.drop_take, List.take_eq_take_iff, List.length_drop]
    omega
  rw [hslice, cut_eq hstart (by omega) (by omega), hcut]

end Builtin

namespace Expression

def plus (e f : Expression) : Expression := .message e (Bytes.ofString "+") [f]

def size (e : Expression) : Expression := .message e (Bytes.ofString "size") []

/-- The part of a string from `start` on, of `count` bytes. -/
def slice (e start count : Expression) : Expression := .message e (Bytes.ofString "[]") [start, count]

def fixnum (n : Int64) : Expression := .value (.fixnum n)

namespace Denotes

variable {e f g : Expression} {x y : Nat} {a b : Bytes} {m n : Int64}

theorem plus (he : Denotes e (.string x a)) (hf : Denotes f (.string y b)) :
    Denotes (e.plus f) (.string 0 (a ++ b)) :=
  he.string (b := .stringAdd) (.cons hf .nil) rfl (by decide) rfl

theorem plus_fixnum (he : Denotes e (.fixnum m)) (hf : Denotes f (.fixnum n)) (h : Fits (m.toInt + n.toInt)) :
    Denotes (e.plus f) (.fixnum (m + n)) := by
  refine he.done (b := .fixnumAdd) (.cons hf .nil) rfl (by decide) ?_
  have hno : ¬ ((0 < n ∧ m + n < m) ∨ (n < 0 ∧ m < m + n)) := fun hover => add_overflows_iff.mp hover h
  exact if_neg hno

theorem size (he : Denotes e (.string x a)) : Denotes e.size (.fixnum (Int64.ofNat a.length)) :=
  he.done (b := .stringSize) .nil rfl (by decide) rfl

section

variable (he : Denotes e (.string x a)) (hf : Denotes f (.fixnum m)) (hg : Denotes g (.fixnum n))
  (hsize : a.length < 0x8000000000000000)

include he hf hg hsize

theorem slice (hm : 0 ≤ m.toInt) (hle : m.toInt ≤ a.length) (hn : 0 ≤ n.toInt) :
    Denotes (e.slice f g) (.string 0 ((a.drop m.toInt.toNat).take n.toInt.toNat)) := by
  refine he.string (b := .stringSlice) (.cons hf (.cons hg .nil)) rfl (by decide) ?_
  rw [Builtin.invoke_slice_of_nonneg x a hn m, Builtin.slice_eq_take hsize hm hle hn]

theorem slice_outside (hout : a.length < m.toInt) (hn : 0 ≤ n.toInt) : Denotes (e.slice f g) .nil := by
  refine he.done (b := .stringSlice) (.cons hf (.cons hg .nil)) rfl (by decide) ?_
  rw [Builtin.invoke_slice_of_nonneg x a hn m, Builtin.slice_outside hsize (.inr hout)]

end

end Denotes

/-! ## The laws -/

section

variable {c : Context} {e f g : Expression} {x y z : Nat} {s t u : Bytes} {i n : Int64}

theorem equates_strings (hc : c.machine.Booted) (he : Denotes e (.string x s)) (hf : Denotes f (.string y t))
    (h : s = t) : Equates c e f :=
  he.equates hf (by simp [Value.equal, h]) hc

theorem plus_assoc (hc : c.machine.Booted) (he : Denotes e (.string x s)) (hf : Denotes f (.string y t))
    (hg : Denotes g (.string z u)) : Equates c ((e.plus f).plus g) (e.plus (f.plus g)) :=
  equates_strings hc ((he.plus hf).plus hg) (he.plus (hf.plus hg)) (List.append_assoc s t u)

theorem empty_plus (hc : c.machine.Booted) (he : Denotes e (.string x [])) (hf : Denotes f (.string y t)) :
    Equates c (e.plus f) f :=
  equates_strings hc (he.plus hf) hf (List.nil_append t)

theorem plus_empty (hc : c.machine.Booted) (he : Denotes e (.string x s)) (hf : Denotes f (.string y [])) :
    Equates c (e.plus f) e :=
  equates_strings hc (he.plus hf) he (List.append_nil s)

theorem exists_toInt_of_fits {n : Int} (h : Fits n) : ∃ m : Int64, m.toInt = n :=
  ⟨Int64.ofInt n, Int64.toInt_ofInt_of_le h.1 h.2⟩

theorem size_plus (hc : c.machine.Booted) (he : Denotes e (.string x s)) (hf : Denotes f (.string y t))
    (hsize : s.length + t.length < 0x8000000000000000) : Equates c (e.plus f).size (e.size.plus f.size) := by
  have hs : (Int64.ofNat s.length).toInt = s.length := Builtin.toInt_ofNat_of_lt (by omega)
  have ht : (Int64.ofNat t.length).toInt = t.length := Builtin.toInt_ofNat_of_lt (by omega)
  have hfits : Fits ((Int64.ofNat s.length).toInt + (Int64.ofNat t.length).toInt) := by
    unfold Fits
    omega
  refine (he.plus hf).size.equates (he.size.plus_fixnum hf.size hfits) ?_ hc
  simp [Value.equal, Int64.ofNat_add]

theorem slice_plus_left (hc : c.machine.Booted) (he : Denotes e (.string x s)) (hf : Denotes f (.string y t))
    (hsize : s.length + t.length < 0x8000000000000000) :
    Equates c ((e.plus f).slice (fixnum 0) e.size) e := by
  have hs : (Int64.ofNat s.length).toInt = s.length := Builtin.toInt_ofNat_of_lt (by omega)
  have hlength : (s ++ t).length < 0x8000000000000000 := by rwa [List.length_append]
  refine equates_strings hc ((he.plus hf).slice (denotes_value _) he.size hlength ?_ ?_ ?_) he ?_
  · decide
  · rw [Int64.toInt_zero]
    omega
  · omega
  · rw [hs, Int64.toInt_zero, Int.toNat_zero, List.drop_zero, Int.toNat_natCast, List.take_left]

theorem slice_plus_right (hc : c.machine.Booted) (he : Denotes e (.string x s)) (hf : Denotes f (.string y t))
    (hsize : s.length + t.length < 0x8000000000000000) :
    Equates c ((e.plus f).slice e.size f.size) f := by
  have hs : (Int64.ofNat s.length).toInt = s.length := Builtin.toInt_ofNat_of_lt (by omega)
  have ht : (Int64.ofNat t.length).toInt = t.length := Builtin.toInt_ofNat_of_lt (by omega)
  have hlength : (s ++ t).length < 0x8000000000000000 := by rwa [List.length_append]
  refine equates_strings hc ((he.plus hf).slice he.size hf.size hlength ?_ ?_ ?_) hf ?_
  · omega
  · rw [hs, List.length_append]
    omega
  · omega
  · rw [hs, ht, Int.toNat_natCast, Int.toNat_natCast, List.drop_left, List.take_length]

theorem slice_plus_slice (hc : c.machine.Booted) (he : Denotes e (.string x s)) (hsize : s.length < 0x8000000000000000)
    (hi : 0 ≤ i.toInt) (hle : i.toInt ≤ s.length) (hn : s.length - i.toInt ≤ n.toInt) :
    Equates c ((e.slice (fixnum 0) (fixnum i)).plus (e.slice (fixnum i) (fixnum n))) e := by
  have hfront := he.slice (denotes_value (.fixnum 0)) (denotes_value (.fixnum i)) hsize (by decide)
    (by rw [Int64.toInt_zero]; omega) hi
  have hback := he.slice (denotes_value (.fixnum i)) (denotes_value (.fixnum n)) hsize hi hle (by omega)
  refine equates_strings hc (hfront.plus hback) he ?_
  -- The count may reach beyond the end; it takes all that is left.
  have hall : (s.drop i.toInt.toNat).length ≤ n.toInt.toNat := by
    rw [List.length_drop]
    omega
  rw [Int64.toInt_zero, Int.toNat_zero, List.drop_zero, List.take_of_length_le hall, List.take_append_drop]

theorem length_part (hi : 0 ≤ i.toInt) (hle : i.toInt ≤ s.length) (hn : 0 ≤ n.toInt) :
    (((s.drop i.toInt.toNat).take n.toInt.toNat).length : Int) = min n.toInt (s.length - i.toInt) := by
  rw [List.length_take, List.length_drop]
  omega

theorem exists_size_slice (he : Denotes e (.string x s)) (hsize : s.length < 0x8000000000000000)
    (hi : 0 ≤ i.toInt) (hle : i.toInt ≤ s.length) (hn : 0 ≤ n.toInt) :
    ∃ len : Int64, len.toInt = min n.toInt (s.length - i.toInt) ∧
      Denotes (e.slice (fixnum i) (fixnum n)).size (.fixnum len) := by
  have hlength := length_part hi hle hn
  have hpart := he.slice (denotes_value (.fixnum i)) (denotes_value (.fixnum n)) hsize hi hle hn
  refine ⟨_, ?_, hpart.size⟩
  rw [Builtin.toInt_ofNat_of_lt (by omega), hlength]

/-- A cut of a cut is a cut, clamped to where the first one ends. -/
theorem take_drop_take_drop {i n j m k : Nat} (hk : k = min m (min n (s.length - i) - j)) :
    (((s.drop i).take n).drop j).take m = (s.drop (i + j)).take k := by
  rw [List.drop_take, List.drop_drop, List.take_take, List.take_eq_take_iff, List.length_drop]
  omega

theorem toNat_min_sub {a b d : Int} (h : 0 ≤ d) : (min a (b - d)).toNat = min a.toNat (b.toNat - d.toNat) := by
  omega

/-- The part of a part is a part of the whole, clamped to where the first part ends. -/
theorem slice_slice (hc : c.machine.Booted) (he : Denotes e (.string x s)) (hsize : s.length < 0x8000000000000000)
    (hi : 0 ≤ i.toInt) (hle : i.toInt ≤ s.length) (hn : 0 ≤ n.toInt) {len : Int}
    (hlen : len = min n.toInt (s.length - i.toInt)) {j m k : Int64} (hj : 0 ≤ j.toInt) (hin : j.toInt ≤ len)
    (hm : 0 ≤ m.toInt) (hk : k.toInt = min m.toInt (len - j.toInt)) :
    Equates c ((e.slice (fixnum i) (fixnum n)).slice (fixnum j) (fixnum m))
      (e.slice ((fixnum i).plus (fixnum j)) (fixnum k)) := by
  have hlength := length_part hi hle hn
  have hfits : Fits (i.toInt + j.toInt) := by
    unfold Fits
    omega
  have hsum := toInt_add_of_fits hfits
  have hpart := he.slice (denotes_value (.fixnum i)) (denotes_value (.fixnum n)) hsize hi hle hn
  have hinner := hpart.slice (denotes_value (.fixnum j)) (denotes_value (.fixnum m)) (by omega) hj (by omega) hm
  have hstart := (denotes_value (.fixnum i)).plus_fixnum (denotes_value (.fixnum j)) hfits
  have houter := he.slice hstart (denotes_value (.fixnum k)) hsize (by omega) (by omega) (by omega)
  refine equates_strings hc hinner houter ?_
  rw [hsum, Int.toNat_add hi hj]
  refine take_drop_take_drop ?_
  rw [hk, toNat_min_sub hj, hlen, toNat_min_sub hi, Int.toNat_natCast]

/-- A start beyond the end of a part gives nil, even when the whole goes on. -/
theorem slice_slice_outside (he : Denotes e (.string x s)) (hsize : s.length < 0x8000000000000000)
    (hi : 0 ≤ i.toInt) (hle : i.toInt ≤ s.length) (hn : 0 ≤ n.toInt) {j m : Int64}
    (hout : min n.toInt (s.length - i.toInt) < j.toInt) (hm : 0 ≤ m.toInt) :
    Denotes ((e.slice (fixnum i) (fixnum n)).slice (fixnum j) (fixnum m)) .nil := by
  have hlength := length_part hi hle hn
  have hpart := he.slice (denotes_value (.fixnum i)) (denotes_value (.fixnum n)) hsize hi hle hn
  exact hpart.slice_outside (denotes_value (.fixnum j)) (denotes_value (.fixnum m)) (by omega) (by omega) hm

end

/-- **The algebra of strings.** On any machine that a session comes to, take strings of fewer than 2^63 bytes in all,
kept anywhere. Their laws hold as messages: each side is answered, with equal contents, and `==` between the sides is
true.

- `+` is associative, and the empty string is a unit on both sides;
- the size of a sum is the sum of the sizes, and the two parts of a sum can be cut out again by them;
- a string is cut in two at any place, with any count that is at least what is left, and put together again;
- a slice of a slice is a slice of the string, as long as it starts inside the first one, and else nil. -/
theorem string_algebra (c : Context) (h : c.machine.Reachable) (x y z : Nat) (s t u : Bytes)
    (hsize : s.length + t.length + u.length < 0x8000000000000000) :
    let first := Expression.value (.string x s)
    let second := Expression.value (.string y t)
    let third := Expression.value (.string z u)
    Equates c ((first.plus second).plus third) (first.plus (second.plus third)) ∧
    (∀ storage, Equates c ((Expression.value (.string storage [])).plus first) first ∧
      Equates c (first.plus (.value (.string storage []))) first) ∧
    Equates c (first.plus second).size (first.size.plus second.size) ∧
    Equates c ((first.plus second).slice (fixnum 0) first.size) first ∧
    Equates c ((first.plus second).slice first.size second.size) second ∧
    (∀ i n : Int64, 0 ≤ i.toInt → i.toInt ≤ s.length → s.length - i.toInt ≤ n.toInt →
      Equates c ((first.slice (fixnum 0) (fixnum i)).plus (first.slice (fixnum i) (fixnum n))) first) ∧
    ∀ i n : Int64, 0 ≤ i.toInt → i.toInt ≤ s.length → 0 ≤ n.toInt →
      ∃ len : Int64, ((first.slice (fixnum i) (fixnum n)).size.eval c).1 = .value (.fixnum len) ∧
        len.toInt = min n.toInt (s.length - i.toInt) ∧
        ∀ j m : Int64, 0 ≤ j.toInt → 0 ≤ m.toInt →
          (j.toInt ≤ len.toInt → ∃ k : Int64, k.toInt = min m.toInt (len.toInt - j.toInt) ∧
            Equates c ((first.slice (fixnum i) (fixnum n)).slice (fixnum j) (fixnum m))
              (first.slice ((fixnum i).plus (fixnum j)) (fixnum k))) ∧
          (len.toInt < j.toInt →
            (((first.slice (fixnum i) (fixnum n)).slice (fixnum j) (fixnum m)).eval c).1 = .value .nil) := by
  intro first second third
  have hc := h.booted
  have hfirst : Denotes first (.string x s) := denotes_value _
  have hsecond : Denotes second (.string y t) := denotes_value _
  have hpair : s.length + t.length < 0x8000000000000000 := by omega
  have hone : s.length < 0x8000000000000000 := by omega
  refine ⟨plus_assoc hc hfirst hsecond (denotes_value _), fun storage => ⟨?_, ?_⟩, size_plus hc hfirst hsecond hpair,
    slice_plus_left hc hfirst hsecond hpair, slice_plus_right hc hfirst hsecond hpair, ?_, ?_⟩
  · exact empty_plus hc (denotes_value _) hfirst
  · exact plus_empty hc hfirst (denotes_value _)
  · intro i n hi hle hn
    exact slice_plus_slice hc hfirst hone hi hle hn
  · intro i n hi hle hn
    obtain ⟨len, hlen, hdenotes⟩ := exists_size_slice hfirst hone hi hle hn
    refine ⟨len, hdenotes.eval_eq (by simp [Value.kind]) hc, hlen, fun j m hj hm => ⟨fun hin => ?_, fun hout => ?_⟩⟩
    · -- The clamped count is a fixnum because `m` is one.
      have hfits : Fits (min m.toInt (len.toInt - j.toInt)) := by
        have hmax := m.toInt_lt
        unfold Fits
        omega
      obtain ⟨k, hk⟩ := exists_toInt_of_fits hfits
      exact ⟨k, hk, slice_slice hc hfirst hone hi hle hn hlen hj hin hm hk⟩
    · exact (slice_slice_outside hfirst hone hi hle hn (hlen ▸ hout) hm).eval_eq (by simp [Value.kind]) hc

/-- The string `ab` and itself, with counts that reach far beyond the end. -/
theorem string_algebra_doubled :
    let c : Context := ⟨.boot .empty false, 0, 1, [], []⟩
    let s : Bytes := [0x61, 0x62]
    let first := Expression.value (.string 0 s)
    c.machine.Reachable ∧ s.length + s.length + ([] : Bytes).length < 0x8000000000000000 ∧
      Equates c ((first.plus first).slice first.size first.size) first ∧
      Equates c ((first.slice (fixnum 0) (fixnum 1)).plus (first.slice (fixnum 1) (fixnum Int64.maxValue))) first ∧
      (∃ k : Int64, k.toInt = 0 ∧
        Equates c ((first.slice (fixnum 1) (fixnum Int64.maxValue)).slice (fixnum 1) (fixnum Int64.maxValue))
          (first.slice ((fixnum 1).plus (fixnum 1)) (fixnum k))) ∧
      (((first.slice (fixnum 1) (fixnum Int64.maxValue)).slice (fixnum 2) (fixnum 0)).eval c).1 = .value .nil := by
  intro c s first
  have h : c.machine.Reachable := Machine.boot_reachable false
  have hsize : s.length + s.length + ([] : Bytes).length < 0x8000000000000000 := by decide
  obtain ⟨-, -, -, -, hright, hjoin, hslices⟩ := string_algebra c h 0 0 1 s s [] hsize
  obtain ⟨len, -, hlen, hparts⟩ := hslices 1 Int64.maxValue (by decide) (by decide) (by decide)
  have hone : len.toInt = 1 := hlen.trans (by decide)
  obtain ⟨k, hk, hequates⟩ := (hparts 1 Int64.maxValue (by decide) (by decide)).1 (by rw [hone]; decide)
  have hzero : k.toInt = 0 := hk.trans (by rw [hone]; decide)
  exact ⟨h, hsize, hright, hjoin 1 Int64.maxValue (by decide) (by decide) (by decide), ⟨k, hzero, hequates⟩,
    (hparts 2 0 (by decide) (by decide)).2 (by rw [hone]; decide)⟩

end Expression

end Dispatch
