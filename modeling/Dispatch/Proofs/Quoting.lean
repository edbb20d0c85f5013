/-
Quoted byte strings lose nothing and are safe to log.

The reader of quoted strings is `unquote`. It knows all escapes of such strings, also those that quoting never writes,
and takes every other byte for itself. It works in front of any rest: each piece of a byte string is read back from
the way it is written (`Spells.readBody_append`), and so the whole is.

What quoting writes is the bytes of printable characters, and between the two quotes a backslash stands before every
quote.
-/
import Dispatch.Value
import Dispatch.Proofs.Utf8Facts

namespace Dispatch.Text.Quoted

/-! ## Reading quoted strings -/

/-- The value of a digit, of which there are sixteen in either case. -/
def digit? (b : UInt8) : Option Nat :=
  if 0x30 ≤ b.toNat ∧ b.toNat ≤ 0x39 then some (b.toNat - 0x30)
  else if 0x61 ≤ b.toNat ∧ b.toNat ≤ 0x66 then some (b.toNat - 0x57)
  else if 0x41 ≤ b.toNat ∧ b.toNat ≤ 0x46 then some (b.toNat - 0x37)
  else none

/-- The value of a digit below the base. -/
def digitBelow? (base : Nat) (b : UInt8) : Option Nat := (digit? b).filter (· < base)

/-- The number of digits in a base. -/
def number? (base : Nat) (digits : Bytes) : Option Nat :=
  digits.foldlM (fun n b => (digitBelow? base b).map (n * base + ·)) 0

/-- The number that the first `width` bytes spell in a base, and the bytes after them. -/
def readNumber (base width : Nat) (bs : Bytes) : Option (Nat × Bytes) :=
  if width ≤ bs.length then (number? base (bs.take width)).map (·, bs.drop width) else none

/-- The letters that stand for a byte after a backslash. -/
def letters : List (UInt8 × UInt8) :=
  [(0x61, 0x07), (0x62, 0x08), (0x74, 0x09), (0x6e, 0x0a), (0x76, 0x0b), (0x66, 0x0c), (0x72, 0x0d), (0x22, 0x22),
   (0x5c, 0x5c)]

/-- The byte of a number. -/
def byteOf? (n : Nat) : Option Bytes := if n < 256 then some [n.toUInt8] else none

/-- The bytes of a code point. -/
def codePointOf? (n : Nat) : Option Bytes := (Utf8.scalar? 0 n).map Utf8.encode

/-- What a number of `width` digits stands for, and the bytes after it. -/
def readNumbered (base width : Nat) (meaning : Nat → Option Bytes) (bs : Bytes) : Option (Bytes × Bytes) :=
  (readNumber base width bs).bind fun p => (meaning p.1).map (·, p.2)

/-- What the escape after a backslash stands for, and the bytes after it. A letter announces a byte in two hexadecimal
digits or a code point in four or eight, and three octal digits are a byte as well; the other letters are escapes of
their own. -/
def readEscape : Bytes → Option (Bytes × Bytes)
  | [] => none
  | b :: bs =>
    if b = 0x78 then readNumbered 16 2 byteOf? bs
    else if b = 0x75 then readNumbered 16 4 codePointOf? bs
    else if b = 0x55 then readNumbered 16 8 codePointOf? bs
    else if (digitBelow? 8 b).isSome then readNumbered 8 3 byteOf? (b :: bs)
    else (letters.lookup b).map ([·], bs)

theorem length_of_readNumbered {base width : Nat} {meaning : Nat → Option Bytes} {bs out rest : Bytes}
    (h : readNumbered base width meaning bs = some (out, rest)) : rest.length + width = bs.length := by
  obtain ⟨p, hp, hmeaning⟩ := Option.bind_eq_some_iff.mp h
  obtain ⟨_, _, heq⟩ := Option.map_eq_some_iff.mp hmeaning
  cases heq
  unfold readNumber at hp
  split at hp
  next hwidth =>
    obtain ⟨n, -, rfl⟩ := Option.map_eq_some_iff.mp hp
    rw [List.length_drop]
    omega
  next => cases hp

/-- An escape takes at least one byte. -/
theorem length_lt_of_readEscape {bs out rest : Bytes} (h : readEscape bs = some (out, rest)) :
    rest.length < bs.length := by
  unfold readEscape at h
  split at h
  · cases h
  next b bs =>
  rw [List.length_cons]
  split at h
  · have hlength := length_of_readNumbered h
    omega
  split at h
  · have hlength := length_of_readNumbered h
    omega
  split at h
  · have hlength := length_of_readNumbered h
    omega
  split at h
  · have hlength := length_of_readNumbered h
    rw [List.length_cons] at hlength
    omega
  · obtain ⟨l, -, heq⟩ := Option.map_eq_some_iff.mp h
    cases heq
    omega

/-- Put bytes before what was read. -/
def before (out : Bytes) (result : Option (Bytes × Bytes)) : Option (Bytes × Bytes) :=
  result.map fun p => (out ++ p.1, p.2)

/-- What stands before the closing quote, with its escapes read, and the bytes after the quote. A line may not end
inside the quotes. -/
def readBody : Bytes → Option (Bytes × Bytes)
  | [] => none
  | b :: bs =>
    if b = 0x22 then some ([], bs)
    else if b = 0x5c then
      match _h : readEscape bs with
      | some (out, rest) => before out (readBody rest)
      | none => none
    else if b = 0x0a then none
    else before [b] (readBody bs)
termination_by bs => bs.length
decreasing_by
  · have hlength := length_lt_of_readEscape _h
    simp only [List.length_cons]
    omega
  · simp

/-- A quoted byte string at the front and the bytes after it. -/
def readQuoted : Bytes → Option (Bytes × Bytes)
  | [] => none
  | b :: bs => if b = 0x22 then readBody bs else none

/-- The byte string that a quoted one stands for. -/
def unquote (bs : Bytes) : Option Bytes :=
  match readQuoted bs with
  | some (out, []) => some out
  | _ => none

/-! ## Numbers are read back -/

theorem number?_concat (base : Nat) (digits : Bytes) (d : UInt8) : number? base (digits ++ [d]) =
    (number? base digits).bind fun n => (digitBelow? base d).map (n * base + ·) := by
  simp [number?, List.foldlM_append]

theorem digitBelow?_hexDigit {n : Nat} (h : n < 16) : digitBelow? 16 (Bytes.hexDigit n) = some n := by
  revert n
  decide

theorem length_hex (width n : Nat) : (Bytes.hex width n).length = width := by
  induction width generalizing n with
  | zero => rfl
  | succ width ih => rw [Bytes.hex, List.length_append, ih, List.length_singleton]

/-- A number is read back from its digits when there are enough of them. -/
theorem number?_hex {width n : Nat} (h : n < Nat.pow 16 width) : number? 16 (Bytes.hex width n) = some n := by
  induction width generalizing n with
  | zero =>
    have hzero : n = 0 := Nat.lt_one_iff.mp h
    rw [hzero]
    rfl
  | succ width ih =>
    have hdiv : n / 16 < Nat.pow 16 width := Nat.div_lt_of_lt_mul (by rwa [Nat.mul_comm])
    have hlast : n / 16 * 16 + n % 16 = n := by omega
    rw [Bytes.hex, number?_concat, ih hdiv, digitBelow?_hexDigit (by omega)]
    exact congrArg some hlast

theorem readNumber_hex {width n : Nat} (h : n < Nat.pow 16 width) (rest : Bytes) :
    readNumber 16 width (Bytes.hex width n ++ rest) = some (n, rest) := by
  have hlength := length_hex width n
  have hwidth : width ≤ (Bytes.hex width n ++ rest).length := by
    rw [List.length_append]
    omega
  rw [readNumber, if_pos hwidth, List.take_left' hlength, List.drop_left' hlength, number?_hex h, Option.map_some]

theorem readNumbered_hex {width n : Nat} {meaning : Nat → Option Bytes} {out : Bytes} (h : n < Nat.pow 16 width)
    (hmeaning : meaning n = some out) (rest : Bytes) :
    readNumbered 16 width meaning (Bytes.hex width n ++ rest) = some (out, rest) := by
  rw [readNumbered, readNumber_hex h, Option.bind_some, hmeaning, Option.map_some]

/-! ## Pieces are read back -/

theorem before_before (a b : Bytes) (result : Option (Bytes × Bytes)) :
    before a (before b result) = before (a ++ b) result := by
  cases result with
  | none => rfl
  | some p => simp [before]

theorem before_nil (result : Option (Bytes × Bytes)) : before [] result = result := by
  cases result <;> rfl

theorem readBody_escape {bs out rest : Bytes} (h : readEscape bs = some (out, rest)) :
    readBody (0x5c :: bs) = before out (readBody rest) := by
  rw [readBody, if_neg (by decide), if_pos rfl]
  split
  next out' rest' h' =>
    rw [h] at h'
    cases h'
    rfl
  next h' =>
    rw [h] at h'
    cases h'

/-- Bytes that stand for themselves inside the quotes. -/
def Plain (b : UInt8) : Prop := b ≠ 0x22 ∧ b ≠ 0x5c ∧ b ≠ 0x0a

theorem readBody_plain {b : UInt8} (h : Plain b) (bs : Bytes) : readBody (b :: bs) = before [b] (readBody bs) := by
  rw [readBody, if_neg h.1, if_neg h.2.1, if_neg h.2.2]

theorem readBody_plain_append {front : Bytes} (h : ∀ b ∈ front, Plain b) (rest : Bytes) :
    readBody (front ++ rest) = before front (readBody rest) := by
  induction front with
  | nil => rw [List.nil_append, before_nil]
  | cons b front ih =>
    have hb := h b List.mem_cons_self
    have hfront := ih fun x hx => h x (List.mem_cons_of_mem b hx)
    rw [List.cons_append, readBody_plain hb, hfront, before_before, List.singleton_append]

/-! ## How pieces are written -/

/-- The ways in which a piece is written inside the quotes. -/
inductive Spells : (bytes text : Bytes) → Prop
  | shown {c : Char} : isPrintable c = true → c ≠ '\x22' → c ≠ '\\' → Spells (Utf8.encode c) (Utf8.encode c)
  | letter {l b : UInt8} : (l, b) ∈ letters → Spells [b] [0x5c, l]
  | byte {n : Nat} : n < 256 → Spells [n.toUInt8] (numbered 'x' 2 n)
  | short {c : Char} : c.toNat < 0x10000 → Spells (Utf8.encode c) (numbered 'u' 4 c.toNat)
  | long (c : Char) : Spells (Utf8.encode c) (numbered 'U' 8 c.toNat)

theorem mem_letters_of_letter? {c l : Char} (h : letter? c = some l) :
    c.toNat < 0x80 ∧ (l.toNat.toUInt8, UInt8.ofNat c.toNat) ∈ letters := by
  unfold letter? at h
  split at h <;> cases h
  all_goals
    rename_i hc
    rw [hc]
    decide

theorem spells_char (c : Char) : Spells (Utf8.encode c) (char c) := by
  unfold char
  split
  next h =>
    rcases h with rfl | rfl
    · exact .letter (by decide)
    · exact .letter (by decide)
  next hmark =>
  split
  next h => exact .shown h (fun hc => hmark (.inl hc)) fun hc => hmark (.inr hc)
  next =>
  split
  next l hl =>
    obtain ⟨hlow, hmem⟩ := mem_letters_of_letter? hl
    rw [Utf8.encode_of_lt hlow]
    exact .letter hmem
  next =>
  split
  next h =>
    rw [Utf8.encode_of_lt h]
    exact .byte (by omega)
  next =>
  split
  next h => exact .short h
  next => exact .long c

theorem spells_piece (p : Utf8.Piece) : Spells p.bytes (piece p) := by
  cases p with
  | char c => exact spells_char c
  | stray b =>
    have h := Spells.byte b.toNat_lt
    rwa [show b.toNat.toUInt8 = b from UInt8.ofNat_toNat] at h

/-! ## Reading back -/

theorem plain_of_le {b : UInt8} (h : 0x80 ≤ b.toNat) : Plain b := by
  refine ⟨?_, ?_, ?_⟩
  all_goals
    rintro rfl
    revert h
    decide

theorem codePointOf?_toNat (c : Char) : codePointOf? c.toNat = some (Utf8.encode c) := by
  rw [codePointOf?, Utf8.scalar?_toNat (Nat.zero_le _), Option.map_some]

theorem eq_charOfNat {c : Char} {b : UInt8} (h : c.toNat < 0x80) (hb : b = UInt8.ofNat c.toNat) :
    c = Char.ofNat b.toNat := by
  rw [hb, Utf8.toNat_byteOfNat (by omega), Char.ofNat_toNat]

/-- The bytes of a shown character stand for themselves. -/
theorem plain_of_mem_encode {c : Char} {b : UInt8} (hprintable : isPrintable c = true) (hquote : c ≠ '\x22')
    (hbackslash : c ≠ '\\') (hb : b ∈ Utf8.encode c) : Plain b := by
  -- In ASCII the byte is the character; beyond it, no byte of a character is one of ASCII.
  by_cases hlow : c.toNat < 0x80
  · rw [Utf8.encode_of_lt hlow, List.mem_singleton] at hb
    have hc := eq_charOfNat hlow hb
    refine ⟨?_, ?_, ?_⟩
    · rintro rfl
      exact hquote hc
    · rintro rfl
      exact hbackslash hc
    · rintro rfl
      rw [hc] at hprintable
      revert hprintable
      decide
  · exact plain_of_le (Utf8.le_toNat_of_mem_encode (Nat.not_lt.mp hlow) hb)

theorem of_mem_letters {P : UInt8 × UInt8 → Prop} [DecidablePred P] (hall : letters.all (P ·) = true)
    {p : UInt8 × UInt8} (h : p ∈ letters) : P p :=
  of_decide_eq_true (List.all_eq_true.mp hall p h)

theorem readEscape_letter {l b : UInt8} (h : (l, b) ∈ letters) (rest : Bytes) :
    readEscape (l :: rest) = some ([b], rest) := by
  obtain ⟨hx, hu, hU, hdigit, hlookup⟩ : l ≠ 0x78 ∧ l ≠ 0x75 ∧ l ≠ 0x55 ∧ ¬ (digitBelow? 8 l).isSome = true ∧
      letters.lookup l = some b :=
    of_mem_letters (P := fun p => p.1 ≠ 0x78 ∧ p.1 ≠ 0x75 ∧ p.1 ≠ 0x55 ∧ ¬ (digitBelow? 8 p.1).isSome = true ∧
      letters.lookup p.1 = some p.2) (by decide) h
  rw [readEscape, if_neg hx, if_neg hu, if_neg hU, if_neg hdigit, hlookup, Option.map_some]

/-- A piece is read back from the way it is written, in front of any rest. -/
theorem Spells.readBody_append {bytes text : Bytes} (h : Spells bytes text) (rest : Bytes) :
    readBody (text ++ rest) = before bytes (readBody rest) := by
  cases h with
  | shown hprintable hquote hbackslash =>
    exact readBody_plain_append (fun b => plain_of_mem_encode hprintable hquote hbackslash) rest
  | letter h => exact readBody_escape (readEscape_letter h rest)
  | byte h => exact readBody_escape (readNumbered_hex h (if_pos h) rest)
  | short h => exact readBody_escape (readNumbered_hex h (codePointOf?_toNat _) rest)
  | long c =>
    have h : c.toNat < Nat.pow 16 8 := Nat.lt_trans (Utf8.toNat_lt c) (by decide)
    exact readBody_escape (readNumbered_hex h (codePointOf?_toNat c) rest)

theorem readBody_pieces (ps : List Utf8.Piece) (rest : Bytes) :
    readBody (ps.flatMap piece ++ 0x22 :: rest) = some (ps.flatMap Utf8.Piece.bytes, rest) := by
  induction ps with
  | nil =>
    rw [List.flatMap_nil, List.nil_append, readBody, if_pos rfl]
    rfl
  | cons p ps ih =>
    rw [List.flatMap_cons, List.append_assoc, (spells_piece p).readBody_append, ih]
    rfl

/-- A quoted byte string is read back, in front of any rest. -/
theorem readQuoted_quote (s rest : Bytes) : readQuoted (quote s ++ rest) = some (s, rest) := by
  have hbody := readBody_pieces (Utf8.pieces s) rest
  rw [Utf8.flatMap_bytes_pieces] at hbody
  simpa [quote, readQuoted, body] using hbody

theorem unquote_quote (s : Bytes) : unquote (quote s) = some s := by
  have h := readQuoted_quote s []
  rw [List.append_nil] at h
  rw [unquote, h]

/-! ## What a log shows -/

/-- The bytes of printable characters. -/
def Shown (bs : Bytes) : Prop := ∃ cs, bs = Utf8.encodeAll cs ∧ ∀ c ∈ cs, isPrintable c = true

theorem Shown.append {a b : Bytes} (ha : Shown a) (hb : Shown b) : Shown (a ++ b) := by
  obtain ⟨cs, rfl, hcs⟩ := ha
  obtain ⟨ds, rfl, hds⟩ := hb
  refine ⟨cs ++ ds, List.flatMap_append.symm, ?_⟩
  intro c hc
  exact (List.mem_append.mp hc).elim (hcs c) (hds c)

theorem shown_encode {c : Char} (h : isPrintable c = true) : Shown (Utf8.encode c) := by
  refine ⟨[c], by simp [Utf8.encodeAll], ?_⟩
  intro d hd
  rw [List.mem_singleton.mp hd, h]

/-- Bytes that are visible in ASCII, the space included. -/
def Visible (b : UInt8) : Prop := 0x20 ≤ b.toNat ∧ b.toNat < 0x7f

instance (b : UInt8) : Decidable (Visible b) := inferInstanceAs (Decidable (0x20 ≤ b.toNat ∧ b.toNat < 0x7f))

theorem shown_of_visible {bs : Bytes} (h : ∀ b ∈ bs, Visible b) : Shown bs := by
  induction bs with
  | nil => exact ⟨[], rfl, by simp⟩
  | cons b bs ih =>
    obtain ⟨hlow, hhigh⟩ := h b List.mem_cons_self
    have hnumber : (Char.ofNat b.toNat).toNat = b.toNat := Utf8.toNat_charOfNat (.inl (by omega))
    have hprintable : isPrintable (Char.ofNat b.toNat) = true := by
      simp only [isPrintable, hnumber, if_pos hhigh, hlow, decide_true]
    have hfront := shown_encode hprintable
    rw [Utf8.encode_one (by omega)] at hfront
    exact hfront.append (ih fun x hx => h x (List.mem_cons_of_mem b hx))

/-- Between quotes: a quote stands only after a backslash that does not itself stand after one. -/
inductive Escaped : Bytes → Prop
  | nil : Escaped []
  | plain {b : UInt8} {bs : Bytes} : b ≠ 0x22 → b ≠ 0x5c → Escaped bs → Escaped (b :: bs)
  | escape {b : UInt8} {bs : Bytes} : Escaped bs → Escaped (0x5c :: b :: bs)

theorem Escaped.append {a b : Bytes} (ha : Escaped a) (hb : Escaped b) : Escaped (a ++ b) := by
  induction ha with
  | nil => exact hb
  | plain hquote hbackslash _ ih => exact .plain hquote hbackslash ih
  | escape _ ih => exact .escape ih

theorem escaped_of_plain {bs : Bytes} (h : ∀ b ∈ bs, Plain b) : Escaped bs := by
  induction bs with
  | nil => exact .nil
  | cons b bs ih =>
    obtain ⟨hquote, hbackslash, -⟩ := h b List.mem_cons_self
    exact .plain hquote hbackslash (ih fun x hx => h x (List.mem_cons_of_mem b hx))

theorem hexDigit_of_mem_hex {width n : Nat} {b : UInt8} (h : b ∈ Bytes.hex width n) : Visible b ∧ Plain b := by
  have hdigit : ∀ d < 16, Visible (Bytes.hexDigit d) ∧ Plain (Bytes.hexDigit d) := by
    unfold Plain
    decide
  induction width generalizing n with
  | zero => cases h
  | succ width ih =>
    rcases List.mem_append.mp h with hfront | hlast
    · exact ih hfront
    · rw [List.mem_singleton.mp hlast]
      exact hdigit _ (Nat.mod_lt n (by decide))

theorem shown_numbered {letter : Char} (h : Visible letter.toNat.toUInt8) (width n : Nat) :
    Shown (numbered letter width n) := by
  refine shown_of_visible fun b hb => ?_
  rcases List.mem_cons.mp hb with rfl | hb
  · decide
  rcases List.mem_cons.mp hb with rfl | hb
  · exact h
  · exact (hexDigit_of_mem_hex hb).1

theorem escaped_numbered (letter : Char) (width n : Nat) : Escaped (numbered letter width n) :=
  .escape (escaped_of_plain fun _ hb => (hexDigit_of_mem_hex hb).2)

theorem Spells.shown_text {bytes text : Bytes} (h : Spells bytes text) : Shown text := by
  cases h with
  | shown hprintable => exact shown_encode hprintable
  | letter h =>
    have hvisible := of_mem_letters (P := fun p => Visible p.1) (by decide) h
    exact shown_of_visible (List.forall_mem_cons.mpr ⟨by decide, List.forall_mem_singleton.mpr hvisible⟩)
  | byte | short | long => exact shown_numbered (by decide) _ _

theorem Spells.escaped_text {bytes text : Bytes} (h : Spells bytes text) : Escaped text := by
  cases h with
  | shown hprintable hquote hbackslash =>
    exact escaped_of_plain fun b => plain_of_mem_encode hprintable hquote hbackslash
  | letter => exact .escape .nil
  | byte | short | long => exact escaped_numbered _ _ _

theorem shown_body (s : Bytes) : Shown (body s) := by
  unfold body
  induction Utf8.pieces s with
  | nil => exact ⟨[], rfl, by simp⟩
  | cons p ps ih => exact (spells_piece p).shown_text.append ih

theorem escaped_body (s : Bytes) : Escaped (body s) := by
  unfold body
  induction Utf8.pieces s with
  | nil => exact .nil
  | cons p ps ih => exact (spells_piece p).escaped_text.append ih

theorem shown_quote (s : Bytes) : Shown (quote s) := by
  have hmark : Shown [0x22] := shown_of_visible (List.forall_mem_singleton.mpr (by decide))
  exact (hmark.append (shown_body s)).append hmark

/-! ## What is printable -/

/-- Controls and the separators of lines and paragraphs. -/
def BreaksLog (c : Char) : Prop :=
  c.toNat < 0x20 ∨ 0x7f ≤ c.toNat ∧ c.toNat < 0xa0 ∨ c.toNat = 0x2028 ∨ c.toNat = 0x2029

theorem not_breaksLog_of_isPrintable {c : Char} (h : isPrintable c = true) : ¬ BreaksLog c := by
  -- No range of the table touches a control or a separator.
  have hranges : ∀ r ∈ Printable.ranges, (r.2 < 0x7f ∨ 0xa0 ≤ r.1) ∧ (r.2 < 0x2028 ∨ 0x2029 < r.1) := by
    decide +kernel
  unfold isPrintable at h
  unfold BreaksLog
  by_cases hlow : c.toNat < 0x7f
  · simp only [if_pos hlow, decide_eq_true_eq] at h
    omega
  · simp only [if_neg hlow, List.any_eq_true, Bool.and_eq_true, decide_eq_true_eq] at h
    obtain ⟨r, hr, hfrom, hto⟩ := h
    have hrange := hranges r hr
    omega

end Dispatch.Text.Quoted

namespace Dispatch.Value

open Text Text.Quoted

/-- **The inspect form of a string loses nothing and is safe to log.** For every byte string:

- reading its escapes back gives exactly the byte string;
- it is a quote, then bytes in which every quote is escaped by a backslash, then a quote;
- it is valid UTF-8 throughout, and each of its characters is printable, so that no control, no line end and no stray
  byte stands in it as it is. -/
theorem inspect_string_lossless (storage : Nat) (s : Bytes) :
    unquote (inspect (.string storage s)) = some s ∧
    (∃ inside, inspect (.string storage s) = 0x22 :: inside ++ [0x22] ∧ Escaped inside) ∧
    Utf8.isValid (inspect (.string storage s)) = true ∧
    ∃ cs, Utf8.decodeAll? (inspect (.string storage s)) = some cs ∧
      inspect (.string storage s) = Utf8.encodeAll cs ∧ ∀ c ∈ cs, isPrintable c = true ∧ ¬ BreaksLog c := by
  obtain ⟨cs, hcs, hprintable⟩ := shown_quote s
  have hinspect : inspect (.string storage s) = Utf8.encodeAll cs := hcs
  refine ⟨unquote_quote s, ⟨body s, rfl, escaped_body s⟩, ?_, cs, ?_, hinspect, ?_⟩
  · rw [hinspect, Utf8.isValid_encodeAll]
  · rw [hinspect, Utf8.decodeAll?_encodeAll]
  · intro c hc
    exact ⟨hprintable c hc, not_breaksLog_of_isPrintable (hprintable c hc)⟩

/-- Bytes that look like an escape, a line end, an overlong form, a surrogate, a soft hyphen and an `é`. -/
theorem inspect_string_lossless_mixed :
    let s : Bytes := [0x22, 0x5c, 0x78, 0x0a, 0xc0, 0x80, 0xed, 0xa0, 0x80, 0xc2, 0xad, 0xc3, 0xa9]
    inspect (.string 0 s) = Bytes.ofString "\"\\\"\\\\x\\n\\xc0\\x80\\xed\\xa0\\x80\\u00adé\"" ∧
    unquote (inspect (.string 0 s)) = some s ∧
    ∃ cs, Utf8.decodeAll? (inspect (.string 0 s)) = some cs ∧ 'é' ∈ cs ∧ isPrintable 'é' = true ∧ ¬ BreaksLog 'é' := by
  intro s
  obtain ⟨hread, -, -, cs, hcs, -, hall⟩ := inspect_string_lossless 0 s
  have hmem : ((Utf8.decodeAll? (inspect (.string 0 s))).any (·.contains 'é')) = true := by decide +kernel
  have hin : 'é' ∈ cs := by simpa [hcs] using hmem
  exact ⟨by decide +kernel, hread, cs, hcs, hin, hall 'é' hin⟩

end Dispatch.Value
