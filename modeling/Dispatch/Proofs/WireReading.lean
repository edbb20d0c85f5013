/-
Reading back what was written, in front of any further data. A head is read back from every spelling
whose width holds its argument (`Head.read_spell`), and writing picks one of those; an item is then
read back from its head and what follows it. The statements all leave a rest behind, so that items can
stand one after another.
-/
import Dispatch.Wire.Item

namespace Dispatch.Wire

@[simp] theorem ok_bind {ε α β : Type} (a : α) (f : α → Except ε β) : (Except.ok a >>= f) = f a := rfl

@[simp] theorem error_bind {ε α β : Type} (e : ε) (f : α → Except ε β) : (Except.error e >>= f) = .error e := rfl

namespace Head

/-! ## Numbers as bytes -/

theorem number_concat (bs : Bytes) (b : UInt8) : number (bs ++ [b]) = number bs * 256 + b.toNat := by
  simp [number]

@[simp] theorem length_numeral (width n : Nat) : (numeral width n).length = width := by
  induction width generalizing n with
  | zero => rfl
  | succ width ih => simp [numeral, ih]

/-- A number is read back from every numeral that is wide enough for it. -/
theorem number_numeral {width n : Nat} (h : n < Nat.pow 256 width) : number (numeral width n) = n := by
  induction width generalizing n with
  | zero =>
    have hzero : n = 0 := Nat.lt_one_iff.mp h
    simp [numeral, number, hzero]
  | succ width ih =>
    have hdiv : n / 256 < Nat.pow 256 width := Nat.div_lt_of_lt_mul (by rwa [Nat.mul_comm])
    rw [numeral, number_concat, ih hdiv]
    simp
    omega

theorem takeExactly_append {n : Nat} {front : Bytes} (h : front.length = n) (rest : Bytes) :
    takeExactly n (front ++ rest) = some (front, rest) := by
  simp [takeExactly, ← h]

theorem takeExactly_eq_some {n : Nat} {bs front rest : Bytes} (h : takeExactly n bs = some (front, rest)) :
    bs = front ++ rest ∧ front.length = n := by
  simp only [takeExactly, List.splitAt_eq] at h
  split at h
  next hlength =>
    obtain ⟨rfl, rfl⟩ := Prod.mk.inj (Option.some.inj h)
    exact ⟨(List.take_append_drop n bs).symm, hlength⟩
  next => cases h

theorem takeExactly_of_short {n : Nat} {bs : Bytes} (h : bs.length < n) : takeExactly n bs = none := by
  have hlength : (bs.take n).length ≠ n := by
    rw [List.length_take]
    omega
  simp only [takeExactly, List.splitAt_eq, if_neg hlength]

/-! ## Heads -/

/-- Whether the additional information `info` announces a width that holds `n`, or is `n` itself. -/
def Holds (info n : Nat) : Prop := info < 24 ∧ n = info ∨ 24 ≤ info ∧ info < 28 ∧ n < Nat.pow 256 (width info)

/-- A head in the width that `info` announces. -/
def spell (major info n : Nat) : Bytes :=
  (major * 32 + info).toUInt8 :: if info < 24 then [] else numeral (width info) n

theorem toNat_first {major info : Nat} (hm : major < 8) (hi : info < 32) :
    (major * 32 + info).toUInt8.toNat = major * 32 + info := by
  simp
  omega

/-- A head is read back from each of its spellings. A simple value below 32 has none of two bytes. -/
theorem read_spell {major info n : Nat} (hm : major < 8) (hn : Holds info n)
    (hsimple : ¬ (major = 7 ∧ info = 24 ∧ n < 32)) (rest : Bytes) :
    read (spell major info n ++ rest) = .ok (⟨major, info, n⟩, rest) := by
  have hi : info < 32 := by
    unfold Holds at hn
    omega
  have hmajor : (major * 32 + info) / 32 = major := by omega
  have hinfo : (major * 32 + info) % 32 = info := by omega
  simp only [spell, List.cons_append, read, toNat_first hm hi, hmajor, hinfo]
  rcases hn with ⟨hlow, rfl⟩ | ⟨hlow, hhigh, hfits⟩
  · simp [hlow]
  · have hnot : ¬ info < 24 := by omega
    simp only [hnot, hhigh, if_false, if_true, takeExactly_append (length_numeral _ n), number_numeral hfits,
      hsimple]

/-- The bytes are a head of this major type and argument, in any width that holds the argument. -/
def Spells (major n : Nat) (front : Bytes) : Prop := ∃ info, Holds info n ∧ front = spell major info n

/-- The shortest head is a spelling. -/
theorem spells_write {n : Nat} (hn : n < 0x10000000000000000) (major : Nat) : Spells major n (write major n) := by
  unfold Spells write Holds
  split
  · next h => exact ⟨n, .inl ⟨h, rfl⟩, by simp [spell, h]⟩
  split
  · next h => exact ⟨24, .inr ⟨by omega, by omega, h⟩, rfl⟩
  split
  · next h => exact ⟨25, .inr ⟨by omega, by omega, h⟩, rfl⟩
  split
  · next h => exact ⟨26, .inr ⟨by omega, by omega, h⟩, rfl⟩
  · exact ⟨27, .inr ⟨by omega, by omega, hn⟩, rfl⟩

/-- A spelt head starts with its major type and an information that announces a known length. -/
theorem Spells.first {major n : Nat} {front : Bytes} (h : Spells major n front) (hm : major < 8) :
    ∃ b tail, front = b :: tail ∧ b.toNat / 32 = major ∧ b.toNat % 32 < 28 := by
  obtain ⟨info, hholds, rfl⟩ := h
  have hinfo : info < 28 := by
    unfold Holds at hholds
    omega
  refine ⟨_, _, rfl, ?_⟩
  rw [toNat_first hm (by omega)]
  omega

theorem Spells.ne_nil {major n : Nat} {front : Bytes} (h : Spells major n front) : front ≠ [] := by
  obtain ⟨info, -, rfl⟩ := h
  exact List.cons_ne_nil _ _

/-- A spelt head is read back, with a known length. -/
theorem Spells.read {major n : Nat} {front : Bytes} (h : Spells major n front) (hm : major < 7) (rest : Bytes) :
    ∃ head : Head, Head.read (front ++ rest) = .ok (head, rest) ∧ head.major = major ∧ head.arg = n ∧
      head.isIndefinite = false := by
  obtain ⟨info, hholds, rfl⟩ := h
  refine ⟨⟨major, info, n⟩, read_spell (by omega) hholds (by omega) rest, rfl, rfl, ?_⟩
  unfold Holds at hholds
  simp only [isIndefinite, beq_eq_false_iff_ne, ne_eq]
  omega

end Head

/-- An integer is a head. -/
def SpellsInt : Int → Bytes → Prop
  | .ofNat n => Head.Spells 0 n
  | .negSucc n => Head.Spells 1 n

namespace Item

/-! ## Items -/

/-- The reader of the items inside an item that may take `levels` levels. -/
def inside : (levels : Nat) → Option (Reader Item)
  | 0 => none
  | levels + 1 => some (read levels)

theorem read_eq (levels : Nat) : read levels = readWith (inside levels) := by cases levels <;> rfl

/-- An item that is not a tag is its head and what follows the head. -/
theorem read_of_head {bs rest : Bytes} {head : Head} (levels : Nat) (h : Head.read bs = .ok (head, rest))
    (hm : head.major ≠ 6) : read levels bs = readAfter (inside levels) head rest := by
  simp [read_eq, readWith, h, hm]

def ofInt : Int → Item
  | .ofNat n => .unsigned n
  | .negSucc n => .negative n

theorem read_ofInt {k : Int} {front : Bytes} (h : SpellsInt k front) (levels : Nat) (rest : Bytes) :
    read levels (front ++ rest) = .ok (ofInt k, rest) := by
  cases k with
  | ofNat n =>
    obtain ⟨head, hread, hmajor, harg, -⟩ := Head.Spells.read h (by omega) rest
    rw [read_of_head levels hread (by omega)]
    simp [readAfter, hmajor, harg, ofInt]
  | negSucc n =>
    obtain ⟨head, hread, hmajor, harg, -⟩ := Head.Spells.read h (by omega) rest
    rw [read_of_head levels hread (by omega)]
    simp [readAfter, hmajor, harg, ofInt]

theorem read_unsigned {n : Nat} (hn : n < 0x10000000000000000) (levels : Nat) (rest : Bytes) :
    read levels (Head.write 0 n ++ rest) = .ok (.unsigned n, rest) :=
  read_ofInt (k := .ofNat n) (Head.spells_write hn 0) levels rest

/-- Every length that may be read fits a head. -/
theorem lt_of_lt_lengthLimit {n : Nat} (h : n < lengthLimit) : n < 0x10000000000000000 :=
  Nat.lt_trans h (by decide)

theorem lt_lengthLimit_of_le {n : Nat} (h : n ≤ maxCount) : n < lengthLimit := Nat.lt_of_le_of_lt h (by decide)

theorem readString_append {bs : Bytes} (h : bs.length < lengthLimit) (rest : Bytes) :
    readString bs.length (bs ++ rest) = .ok (bs, rest) := by
  simp [readString, Nat.not_le.mpr h, Head.takeExactly_append]

theorem read_bytes_of_spells {bs front : Bytes} (hfront : Head.Spells 2 bs.length front) (h : bs.length < lengthLimit)
    (levels : Nat) (rest : Bytes) : read levels (front ++ (bs ++ rest)) = .ok (.bytes bs, rest) := by
  obtain ⟨head, hread, hmajor, harg, hdefinite⟩ := hfront.read (by omega) (bs ++ rest)
  rw [read_of_head levels hread (by omega)]
  simp [readAfter, readText, hmajor, harg, hdefinite, readString_append h]

theorem read_bytes {bs : Bytes} (h : bs.length < lengthLimit) (levels : Nat) (rest : Bytes) :
    read levels (Head.write 2 bs.length ++ (bs ++ rest)) = .ok (.bytes bs, rest) :=
  read_bytes_of_spells (Head.spells_write (lt_of_lt_lengthLimit h) 2) h levels rest

/-- An array of a length within the limits is read back from its head and its elements. -/
theorem read_array {items : List Item} {front bs rest : Bytes} {levels : Nat}
    (hfront : Head.Spells 4 items.length front) (hcount : items.length ≤ maxCount)
    (hitems : readMany (read levels) items.length bs = .ok (items, rest)) :
    read (levels + 1) (front ++ bs) = .ok (.array items, rest) := by
  have hlimit := lt_lengthLimit_of_le hcount
  obtain ⟨head, hread, hmajor, harg, hdefinite⟩ := hfront.read (by omega) bs
  rw [read_of_head (levels + 1) hread (by omega)]
  simp [readAfter, inside, readElements, hmajor, harg, hdefinite, Nat.not_le.mpr hlimit, Nat.not_lt.mpr hcount, hitems]

/-- A longer one is refused at its head. -/
theorem read_array_tooMany {count : Nat} (hmax : maxCount < count) (hlimit : count < lengthLimit) (levels : Nat)
    (bs : Bytes) : read (levels + 1) (Head.write 4 count ++ bs) = .error .tooManyElements := by
  obtain ⟨head, hread, hmajor, harg, hdefinite⟩ :=
    (Head.spells_write (lt_of_lt_lengthLimit hlimit) 4).read (by omega) bs
  rw [read_of_head (levels + 1) hread (by omega)]
  simp [readAfter, inside, readElements, hmajor, harg, hdefinite, Nat.not_le.mpr hlimit, hmax]

theorem read_map {pairs : List (Item × Item)} {front bs rest : Bytes} {levels : Nat}
    (hfront : Head.Spells 5 pairs.length front) (hcount : pairs.length ≤ maxCount)
    (hpairs : readPairs (read levels) pairs.length bs = .ok (pairs, rest)) :
    read (levels + 1) (front ++ bs) = .ok (.map pairs, rest) := by
  have hlimit := lt_lengthLimit_of_le hcount
  obtain ⟨head, hread, hmajor, harg, hdefinite⟩ := hfront.read (by omega) bs
  rw [read_of_head (levels + 1) hread (by omega)]
  simp [readAfter, inside, readEntries, hmajor, harg, hdefinite, Nat.not_le.mpr hlimit, Nat.not_lt.mpr hcount, hpairs]

/-! ## Items in a row -/

/-- If each thing is read back in front of any rest, so are things in a row. -/
theorem readMany_flatMap {α : Type} {item : Reader Item} {write : α → Bytes} {make : α → Item} :
    ∀ {xs : List α}, (∀ x ∈ xs, ∀ rest, item (write x ++ rest) = .ok (make x, rest)) → ∀ rest,
      readMany item xs.length (xs.flatMap write ++ rest) = .ok (xs.map make, rest)
  | [], _, _ => rfl
  | x :: xs, h, rest => by
    have hx := h x List.mem_cons_self (xs.flatMap write ++ rest)
    have hxs := readMany_flatMap (fun y hy => h y (List.mem_cons_of_mem x hy)) rest
    simp [readMany, hx, hxs]

theorem readPairs_cons {item : Reader Item} {count : Nat} {key value : Item} {pairs : List (Item × Item)}
    {bs bs' bs'' rest : Bytes} (hkey : item bs = .ok (key, bs')) (hvalue : item bs' = .ok (value, bs''))
    (hpairs : readPairs item count bs'' = .ok (pairs, rest)) :
    readPairs item (count + 1) bs = .ok ((key, value) :: pairs, rest) := by
  simp [readPairs, hkey, hvalue, hpairs]

/-- Data that is one item and nothing else holds that item. -/
theorem ofBytes_of_read {data : Bytes} {item : Item} (h : read maxLevels data = .ok (item, [])) :
    ofBytes data = .ok item := by
  cases data with
  | nil => cases h
  | cons b bs => simp [ofBytes, h]

/-- Data that the reader refuses holds none. -/
theorem ofBytes_of_error {data : Bytes} {m : Malformed} (hne : data ≠ []) (h : read maxLevels data = .error m) :
    ofBytes data = .error m := by
  simp [ofBytes, hne, h]

end Item

end Dispatch.Wire
