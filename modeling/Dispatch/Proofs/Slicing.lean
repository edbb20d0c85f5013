/-
The `[]` of strings. It takes a start and a count, checks their kinds and the sign of the count, clamps the count to
what is left of the string, and cuts. Here every message with that name is answered, whatever its arguments are
(`Context.slice_answers`).

The one step that could go wrong is the end of the part, `start + n` in 64 bits: since the count is clamped before it
is added, the sum stays at the length of the string or below, and does not wrap (`Builtin.slice_eq_cut`).
-/
import Dispatch.Proofs.BuiltinSends

namespace Dispatch

/-- The bytes of `bs` at the places from `start` on, `count` of them or as many as there are. -/
structure IsPart (bs : Bytes) (start count : Int) (out : Bytes) : Prop where
  size : (out.length : Int) = min count (bs.length - start)
  bytes : ∀ k < out.length, out[k]? = bs[start.toNat + k]?

theorem isPart_drop_take {bs : Bytes} {start count high : Int} (hstart : 0 ≤ start) (hle : start ≤ bs.length)
    (hcount : 0 ≤ count) (hhigh : high = start + min count (bs.length - start)) :
    IsPart bs start count ((bs.take high.toNat).drop start.toNat) := by
  have hlength : ((bs.take high.toNat).drop start.toNat).length = (min count (bs.length - start)).toNat := by
    rw [List.length_drop, List.length_take]
    omega
  constructor
  · rw [hlength]
    omega
  · intro k hk
    rw [hlength] at hk
    rw [List.getElem?_drop, List.getElem?_take, if_pos (by omega)]

namespace Builtin

theorem toInt_ofNat_of_lt {n : Nat} (h : n < 0x8000000000000000) : (Int64.ofNat n).toInt = n := by
  rw [Int64.toInt_ofNat', Int64.size, Int.bmod]
  omega

theorem toInt_clamp (rest count : Int64) :
    (if rest < count then rest else count).toInt = min count.toInt rest.toInt := by
  simp only [Int64.lt_iff_toInt_lt]
  split <;> omega

/-- A slice that starts inside cuts from `start` to `start + n`, where `n` is the count, clamped. -/
theorem slice_eq_cut {bs : Bytes} (hsize : bs.length < 0x8000000000000000) {start count : Int64}
    (hstart : 0 ≤ start.toInt) (hle : start.toInt ≤ bs.length) (hcount : 0 ≤ count.toInt) :
    ∃ n : Int64, n.toInt = min count.toInt (bs.length - start.toInt) ∧ (start + n).toInt = start.toInt + n.toInt ∧
      slice bs start count = cut bs start (start + n) := by
  have hlength := toInt_ofNat_of_lt hsize
  have hin : ¬ (start < 0 ∨ Int64.ofNat bs.length < start) := by
    simp only [Int64.lt_iff_toInt_lt, Int64.toInt_zero, hlength]
    omega
  have hrest : (Int64.ofNat bs.length - start).toInt = bs.length - start.toInt := by
    rw [toInt_sub_of_fits, hlength]
    unfold Fits
    omega
  have hn := toInt_clamp (Int64.ofNat bs.length - start) count
  simp only [slice, if_neg hin]
  generalize (if Int64.ofNat bs.length - start < count then Int64.ofNat bs.length - start else count) = n at hn ⊢
  rw [hrest] at hn
  have hnot : ¬ n < 0 := by
    rw [Int64.lt_iff_toInt_lt, Int64.toInt_zero]
    omega
  refine ⟨n, hn, toInt_add_of_fits ?_, if_neg hnot⟩
  unfold Fits
  omega

/-- A cut between places of the string, in order, is made. -/
theorem cut_eq {bs : Bytes} {low high : Int64} (hlow : 0 ≤ low.toInt) (horder : low.toInt ≤ high.toInt)
    (hhigh : high.toInt ≤ bs.length) :
    cut bs low high = answerString ((bs.take high.toInt.toNat).drop low.toInt.toNat) := by
  have hinside : 0 ≤ low ∧ low ≤ high ∧ high.toInt ≤ bs.length := by
    simp only [Int64.le_iff_toInt_le, Int64.toInt_zero]
    exact ⟨hlow, horder, hhigh⟩
  rw [cut, if_pos hinside]

theorem slice_inside {bs : Bytes} (hsize : bs.length < 0x8000000000000000) {start count : Int64}
    (hstart : 0 ≤ start.toInt) (hle : start.toInt ≤ bs.length) (hcount : 0 ≤ count.toInt) :
    ∃ out, slice bs start count = answerString out ∧ IsPart bs start.toInt count.toInt out := by
  obtain ⟨n, hn, hhigh, hslice⟩ := slice_eq_cut hsize hstart hle hcount
  refine ⟨_, ?_, isPart_drop_take hstart hle hcount (hn ▸ hhigh)⟩
  rw [hslice, cut_eq hstart]
  · omega
  · omega

theorem slice_outside {bs : Bytes} (hsize : bs.length < 0x8000000000000000) {start count : Int64}
    (hout : start.toInt < 0 ∨ bs.length < start.toInt) : slice bs start count = .done .nil := by
  have hstart : start < 0 ∨ Int64.ofNat bs.length < start := by
    simpa only [Int64.lt_iff_toInt_lt, Int64.toInt_zero, toInt_ofNat_of_lt hsize] using hout
  simp only [slice, if_pos hstart]

/-! ## The program of `[]` -/

section

variable {storage : Nat} {bs : Bytes}

theorem invoke_slice_first {v w : Value} (hv : v.kind ≠ .fixnum) :
    (method .stringSlice).invoke (.string storage bs) [v, w] =
      refuse (.wrongKind (name .stringSlice) .fixnum v.kind) := by
  cases v with
  | fixnum => exact absurd rfl hv
  | nil | bool | string => rfl

theorem invoke_slice_second {start : Int64} {w : Value} (hw : w.kind ≠ .fixnum) :
    (method .stringSlice).invoke (.string storage bs) [.fixnum start, w] =
      refuse (.wrongKind (name .stringSlice) .fixnum w.kind) := by
  cases w with
  | fixnum => exact absurd rfl hw
  | nil | bool | string => rfl

theorem invoke_slice_fixnums {start count : Int64} :
    (method .stringSlice).invoke (.string storage bs) [.fixnum start, .fixnum count] =
      if count < 0 then refuse (.outOfDomain (name .stringSlice) (Bytes.ofString "negative count"))
      else slice bs start count := rfl

theorem invoke_slice_of_nonneg (storage : Nat) (bs : Bytes) {count : Int64} (h : 0 ≤ count.toInt) (start : Int64) :
    (method .stringSlice).invoke (.string storage bs) [.fixnum start, .fixnum count] = slice bs start count := by
  have hnot : ¬ count < 0 := by
    rw [Int64.lt_iff_toInt_lt, Int64.toInt_zero]
    omega
  rw [invoke_slice_fixnums, if_neg hnot]

theorem invoke_slice_arity {args : List Value} (h : args.length ≠ 2) :
    (method .stringSlice).invoke (.string storage bs) args = refuse (.arity (name .stringSlice) 2 args.length) :=
  if_neg h

end

end Builtin

/-! ## The message -/

namespace Context

/-- A `[]` that failed: a failed send to a string, of a cause. -/
def SliceRefused (cause : Cause) (e : Failure) (o : Outcome) : Prop :=
  o = .failure (.dispatch .string (Bytes.ofString "[]") e) .nil ∧ e.cause? = some cause

variable {c : Context} {storage : Nat} {bs : Bytes} {args : List Value}

theorem slice_refused {e : Failure} {cause : Cause} (h : c.machine.Booted) (he : e.dispatch? = none)
    (hcause : e.cause? = some cause)
    (hp : (Builtin.method .stringSlice).invoke (.string storage bs) args = Builtin.refuse e) :
    SliceRefused cause e (c.sendName (.string storage bs) (Bytes.ofString "[]") args).1 := by
  obtain ⟨log, hsend⟩ := sendName_of_refuse h rfl he hp
  exact ⟨congrArg Prod.fst hsend, hcause⟩

/-- **The `[]` of strings.** On any machine that a session comes to, to any string of fewer than 2^63 bytes:

- a start that is no fixnum, or else a count that is none, is refused by its kind, for a type mismatch;
- a negative count is refused for an invalid argument, whatever the start is;
- a start outside the string, of which the place after the last byte is a part, gives nil;
- any other start gives a new string of the bytes from there on, as many as were asked for or are left. The sum of
  the start and the clamped count does not wrap, and the cut ends inside the string;
- with another number of arguments it is refused for an invalid argument. -/
theorem slice_answers (c : Context) (h : c.machine.Reachable) (storage : Nat) (bs : Bytes)
    (hsize : bs.length < 0x8000000000000000) :
    (∀ start count : Value, start.kind ≠ .fixnum →
      SliceRefused .typeMismatch (.wrongKind (Bytes.ofString "[]") .fixnum start.kind)
        (c.sendName (.string storage bs) (Bytes.ofString "[]") [start, count]).1) ∧
    (∀ (start : Int64) (count : Value), count.kind ≠ .fixnum →
      SliceRefused .typeMismatch (.wrongKind (Bytes.ofString "[]") .fixnum count.kind)
        (c.sendName (.string storage bs) (Bytes.ofString "[]") [.fixnum start, count]).1) ∧
    (∀ start count : Int64, count.toInt < 0 →
      SliceRefused .invalidArgument (.outOfDomain (Bytes.ofString "[]") (Bytes.ofString "negative count"))
        (c.sendName (.string storage bs) (Bytes.ofString "[]") [.fixnum start, .fixnum count]).1) ∧
    (∀ start count : Int64, 0 ≤ count.toInt → start.toInt < 0 ∨ bs.length < start.toInt →
      (c.sendName (.string storage bs) (Bytes.ofString "[]") [.fixnum start, .fixnum count]).1 = .value .nil) ∧
    (∀ start count : Int64, 0 ≤ count.toInt → 0 ≤ start.toInt → start.toInt ≤ bs.length →
      (∃ out, (c.sendName (.string storage bs) (Bytes.ofString "[]") [.fixnum start, .fixnum count]).1 =
          .value (.string c.fresh out) ∧
        (c.sendName (.string storage bs) (Bytes.ofString "[]") [.fixnum start, .fixnum count]).2.fresh = c.fresh + 1 ∧
        IsPart bs start.toInt count.toInt out) ∧
      ∃ n : Int64, n.toInt = min count.toInt (bs.length - start.toInt) ∧
        Builtin.slice bs start count = Builtin.cut bs start (start + n) ∧
        (start + n).toInt = start.toInt + n.toInt ∧ (start + n).toInt ≤ bs.length) ∧
    ∀ args : List Value, args.length ≠ 2 →
      SliceRefused .invalidArgument (.arity (Bytes.ofString "[]") 2 args.length)
        (c.sendName (.string storage bs) (Bytes.ofString "[]") args).1 := by
  have hb := h.booted
  refine ⟨?_, ?_, ?_, ?_, ?_, ?_⟩
  · intro start count hstart
    exact slice_refused hb rfl rfl (Builtin.invoke_slice_first hstart)
  · intro start count hcount
    exact slice_refused hb rfl rfl (Builtin.invoke_slice_second hcount)
  · intro start count hneg
    have hlt : count < 0 := Int64.lt_iff_toInt_lt.mpr hneg
    exact slice_refused hb rfl rfl (Builtin.invoke_slice_fixnums.trans (if_pos hlt))
  · intro start count hcount hout
    have hp := Builtin.invoke_slice_of_nonneg storage bs hcount start
    rw [Builtin.slice_outside hsize hout] at hp
    obtain ⟨log, hsend⟩ := sendName_of_done hb rfl hp
    exact congrArg Prod.fst hsend
  · intro start count hcount hstart hle
    obtain ⟨out, hslice, hpart⟩ := Builtin.slice_inside hsize hstart hle hcount
    obtain ⟨n, hn, hsum, hcut⟩ := Builtin.slice_eq_cut hsize hstart hle hcount
    have hp := Builtin.invoke_slice_of_nonneg storage bs hcount start
    rw [hslice] at hp
    obtain ⟨log, hsend⟩ := sendName_of_string hb rfl hp
    refine ⟨⟨out, congrArg Prod.fst hsend, ?_, hpart⟩, n, hn, hcut, hsum, by omega⟩
    exact congrArg (fun result => result.2.fresh) hsend
  · intro args hargs
    exact slice_refused hb rfl rfl (Builtin.invoke_slice_arity hargs)

/-- The string `abc` and the greatest fixnum: as a count it is clamped, as a start it lies outside, and before a
negative count it does not matter. -/
theorem slice_answers_greatest :
    let c : Context := ⟨.boot .empty false, 0, 1, [], []⟩
    let bs : Bytes := [0x61, 0x62, 0x63]
    c.machine.Reachable ∧ bs.length < 0x8000000000000000 ∧
      (∃ out, (c.sendName (.string 0 bs) (Bytes.ofString "[]") [.fixnum 1, .fixnum Int64.maxValue]).1 =
        .value (.string 1 out) ∧ (out.length : Int) = 2 ∧ IsPart bs 1 Int64.maxValue.toInt out) ∧
      (c.sendName (.string 0 bs) (Bytes.ofString "[]") [.fixnum Int64.maxValue, .fixnum Int64.maxValue]).1 =
        .value .nil ∧
      SliceRefused .invalidArgument (.outOfDomain (Bytes.ofString "[]") (Bytes.ofString "negative count"))
        (c.sendName (.string 0 bs) (Bytes.ofString "[]") [.fixnum Int64.maxValue, .fixnum (-1)]).1 ∧
      SliceRefused .typeMismatch (.wrongKind (Bytes.ofString "[]") .fixnum .nil)
        (c.sendName (.string 0 bs) (Bytes.ofString "[]") [.nil, .bool true]).1 ∧
      SliceRefused .typeMismatch (.wrongKind (Bytes.ofString "[]") .fixnum .bool)
        (c.sendName (.string 0 bs) (Bytes.ofString "[]") [.fixnum (-1), .bool true]).1 ∧
      SliceRefused .invalidArgument (.arity (Bytes.ofString "[]") 2 3)
        (c.sendName (.string 0 bs) (Bytes.ofString "[]") [.nil, .nil, .nil]).1 := by
  intro c bs
  have h : c.machine.Reachable := Machine.boot_reachable false
  have hsize : bs.length < 0x8000000000000000 := by decide
  obtain ⟨hfirst, hsecond, hnegative, houtside, hinside, harity⟩ := slice_answers c h 0 bs hsize
  obtain ⟨⟨out, hout, -, hpart⟩, -⟩ := hinside 1 Int64.maxValue (by decide) (by decide) (by decide)
  exact ⟨h, hsize, ⟨out, hout, hpart.size.trans (by decide), hpart⟩,
    houtside Int64.maxValue Int64.maxValue (by decide) (by decide), hnegative Int64.maxValue (-1) (by decide),
    hfirst .nil (.bool true) (by decide), hsecond (-1) (.bool true) (by decide), harity [.nil, .nil, .nil] (by decide)⟩

end Context

end Dispatch
