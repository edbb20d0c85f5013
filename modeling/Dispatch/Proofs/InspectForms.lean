/-
Inspect forms can be told apart, alone and in a list. A value is read off the front of a text: a quoted string ends at
its closing quote, and every other form is a word, which ends before a space or a closing bracket. No word begins with a
quote, and what stands between quotes never ends a word, so the spaces and brackets of a string do not come into it.

The content of a value is read back in front of whatever follows in a list (`readInspected_inspect`); so two lists with
one text have their values one by one in common.
-/
import Dispatch.Proofs.Numerals
import Dispatch.Proofs.Quoting

namespace Dispatch.Value

open Text.Quoted

/-! ## Reading a value -/

/-- The bytes that end a word in a list. -/
def endsWord (b : UInt8) : Bool := b == 0x20 || b == 0x5d

/-- The value that a word stands for. -/
def ofWord? (word : Bytes) : Option Value :=
  if word = Bytes.ofString "nil" then some .nil
  else if word = Bytes.ofString "true" then some (.bool true)
  else if word = Bytes.ofString "false" then some (.bool false)
  else (Decimal.toInt? word).map fun n => .fixnum (Int64.ofInt n)

/-- The value whose inspect form stands at the front, and the bytes after it. -/
def readInspected (bs : Bytes) : Option (Value × Bytes) :=
  if bs.head? = some 0x22 then (readQuoted bs).map fun p => (.string 0 p.1, p.2)
  else (ofWord? (bs.takeWhile (! endsWord ·))).map (·, bs.dropWhile (! endsWord ·))

/-! ## Words -/

/-- Some bytes that do not begin with a quote, and none of which ends a word. -/
structure Word (bs : Bytes) : Prop where
  first : ∃ b tail, bs = b :: tail ∧ b ≠ 0x22
  whole : ∀ b ∈ bs, endsWord b = false

theorem readInspected_word {word rest : Bytes} {b : UInt8} (h : Word word) (hb : endsWord b = true) :
    readInspected (word ++ b :: rest) = (ofWord? word).map (·, b :: rest) := by
  obtain ⟨first, tail, hword, hquote⟩ := h.first
  have hhead : (word ++ b :: rest).head? ≠ some 0x22 := by simp [hword, hquote]
  have hwhole : ∀ x ∈ word, (! endsWord x) = true := fun x hx => by simp [h.whole x hx]
  rw [readInspected, if_neg hhead, List.takeWhile_append_of_pos hwhole, List.dropWhile_append_of_pos hwhole]
  simp [hb]

theorem word_of_all {bs : Bytes} (hall : bs.all (fun b => b ≠ 0x22 ∧ ! endsWord b) = true) (hne : bs ≠ []) :
    Word bs := by
  have hbytes : ∀ b ∈ bs, b ≠ 0x22 ∧ endsWord b = false := by simpa using hall
  cases bs with
  | nil => exact absurd rfl hne
  | cons b tail => exact ⟨⟨b, tail, rfl, (hbytes b List.mem_cons_self).1⟩, fun x hx => (hbytes x hx).2⟩

theorem not_endsWord_of_isDigit {b : UInt8} (h : Decimal.IsDigit b) : b ≠ 0x22 ∧ endsWord b = false := by
  have hne : ∀ x : UInt8, ¬ Decimal.IsDigit x → b ≠ x := fun x hx heq => hx (heq ▸ h)
  simp only [endsWord, Bool.or_eq_false_iff, beq_eq_false_iff_ne]
  exact ⟨hne _ (by decide), hne _ (by decide), hne _ (by decide)⟩

theorem word_ofInt (n : Int) : Word (Decimal.ofInt n) := by
  have hdigits : ∀ k, ∀ b ∈ Decimal.ofNat k, b ≠ 0x22 ∧ endsWord b = false := fun k b hb =>
    not_endsWord_of_isDigit (Decimal.isDigit_of_mem_ofNat hb)
  cases n with
  | ofNat k =>
    rw [Decimal.ofInt]
    exact word_of_all (by simpa using hdigits k) (Decimal.ofNat_ne_nil k)
  | negSucc k =>
    refine ⟨⟨45, Decimal.ofNat (k + 1), rfl, by decide⟩, fun b hb => ?_⟩
    rcases List.mem_cons.mp hb with rfl | hb
    · decide
    · exact (hdigits (k + 1) b hb).2

/-- The words of nil and the booleans are no numerals, so a numeral is taken for its number. -/
theorem ofWord?_ofInt (n : Int64) : ofWord? (Decimal.ofInt n.toInt) = some (.fixnum n) := by
  have hread := Decimal.toInt?_ofInt n.toInt
  have hne : ∀ word, Decimal.toInt? word = none → Decimal.ofInt n.toInt ≠ word := by
    intro word hword heq
    rw [heq, hword] at hread
    cases hread
  rw [ofWord?, if_neg (hne _ (by decide)), if_neg (hne _ (by decide)), if_neg (hne _ (by decide)), hread]
  simp

/-! ## Values are read back -/

/-- The content of a value is read back from its inspect form, in front of anything that a word ends before. -/
theorem readInspected_inspect (v : Value) {b : UInt8} (hb : endsWord b = true) (rest : Bytes) :
    readInspected (v.inspect ++ b :: rest) = some (v.content, b :: rest) := by
  cases v with
  | nil => rw [inspect, readInspected_word (word_of_all (by decide) (by decide)) hb]; rfl
  | bool truth =>
    cases truth with
    | false => rw [inspect, readInspected_word (word_of_all (by decide) (by decide)) hb]; rfl
    | true => rw [inspect, readInspected_word (word_of_all (by decide) (by decide)) hb]; rfl
  | fixnum n => rw [inspect, readInspected_word (word_ofInt n.toInt) hb, ofWord?_ofInt]; rfl
  | string storage bs =>
    have hquote : (Text.quote bs ++ b :: rest).head? = some 0x22 := rfl
    rw [inspect, readInspected, if_pos hquote, readQuoted_quote]
    rfl

theorem inspect_content (v : Value) : v.content.inspect = v.inspect := by
  cases v <;> rfl

theorem inspect_eq_of_equal {v w : Value} (h : v.equal w = true) : v.inspect = w.inspect := by
  rw [← inspect_content v, equal_iff.mp h, inspect_content]

/-! ## Lists -/

/-- What follows a value in the text of a list, if more values come. -/
def following : List Value → Bytes
  | [] => [0x5d]
  | v :: vs => 0x20 :: (v.inspect ++ following vs)

theorem following_ends (vs : List Value) : ∃ b rest, following vs = b :: rest ∧ endsWord b = true := by
  cases vs with
  | nil => exact ⟨0x5d, [], rfl, by decide⟩
  | cons v vs => exact ⟨0x20, _, rfl, by decide⟩

theorem joinWith_inspect (v : Value) (vs : List Value) :
    Bytes.joinWith [0x20] ((v :: vs).map inspect) ++ [0x5d] = v.inspect ++ following vs := by
  induction vs generalizing v with
  | nil => rfl
  | cons w vs ih =>
    have hrest := ih w
    simp only [List.map_cons] at hrest
    simp [Bytes.joinWith, following, hrest]

theorem inspectAll_nil : inspectAll [] = [0x5b, 0x5d] := rfl

theorem inspectAll_cons (v : Value) (vs : List Value) :
    inspectAll (v :: vs) = 0x5b :: (v.inspect ++ following vs) := by
  rw [← joinWith_inspect]
  rfl

theorem content_eq_of_text {v w : Value} {vs ws : List Value}
    (h : v.inspect ++ following vs = w.inspect ++ following ws) :
    v.content = w.content ∧ following vs = following ws := by
  obtain ⟨b, rest, hvs, hb⟩ := following_ends vs
  obtain ⟨b', rest', hws, hb'⟩ := following_ends ws
  rw [hvs, hws] at h ⊢
  have hread := readInspected_inspect v hb rest
  rw [h, readInspected_inspect w hb' rest'] at hread
  obtain ⟨hcontent, hrest⟩ := Prod.mk.inj (Option.some.inj hread)
  exact ⟨hcontent.symm, hrest.symm⟩

theorem equal_of_following {vs ws : List Value} (h : following vs = following ws) :
    List.Forall₂ (fun v w => v.equal w = true) vs ws := by
  induction vs generalizing ws with
  | nil =>
    cases ws with
    | nil => exact .nil
    | cons w ws => exact absurd (List.cons.inj h).1 (by decide)
  | cons v vs ih =>
    cases ws with
    | nil => exact absurd (List.cons.inj h).1 (by decide)
    | cons w ws =>
      obtain ⟨hcontent, hrest⟩ := content_eq_of_text (List.cons.inj h).2
      exact .cons (equal_iff.mpr hcontent) (ih hrest)

/-- No value has an empty form before the closing bracket. -/
theorem inspect_following_ne (v : Value) (vs : List Value) : v.inspect ++ following vs ≠ [0x5d] := by
  intro h
  obtain ⟨b, rest, hvs, hb⟩ := following_ends vs
  have hread := readInspected_inspect v hb rest
  have hnone : readInspected [0x5d] = none := by decide
  rw [← hvs, h, hnone] at hread
  cases hread

theorem equal_of_inspectAll {vs ws : List Value} (h : inspectAll vs = inspectAll ws) :
    List.Forall₂ (fun v w => v.equal w = true) vs ws := by
  cases vs with
  | nil =>
    cases ws with
    | nil => exact .nil
    | cons w ws =>
      rw [inspectAll_nil, inspectAll_cons] at h
      exact absurd (List.cons.inj h).2.symm (inspect_following_ne w ws)
  | cons v vs =>
    cases ws with
    | nil =>
      rw [inspectAll_nil, inspectAll_cons] at h
      exact absurd (List.cons.inj h).2 (inspect_following_ne v vs)
    | cons w ws =>
      rw [inspectAll_cons, inspectAll_cons] at h
      obtain ⟨hcontent, hrest⟩ := content_eq_of_text (List.cons.inj h).2
      exact .cons (equal_iff.mpr hcontent) (equal_of_following hrest)

theorem inspectAll_eq_of_equal {vs ws : List Value} (h : List.Forall₂ (fun v w => v.equal w = true) vs ws) :
    inspectAll vs = inspectAll ws := by
  have hforms : vs.map inspect = ws.map inspect := by
    induction h with
    | nil => rfl
    | cons hv _ ih => rw [List.map_cons, List.map_cons, inspect_eq_of_equal hv, ih]
  rw [inspectAll, inspectAll, hforms]

/-- **Formatted lists are unambiguous.** Two lists of values have the same text when they are equally long and equal
place by place, and only then: whatever spaces, brackets and quotes their strings hold. So two values of any kinds have
the same inspect form when they are equal, and only then. -/
theorem inspectAll_unambiguous :
    (∀ vs ws : List Value, inspectAll vs = inspectAll ws ↔ List.Forall₂ (fun v w => v.equal w = true) vs ws) ∧
    ∀ v w : Value, v.inspect = w.inspect ↔ v.equal w = true := by
  refine ⟨fun vs ws => ⟨equal_of_inspectAll, inspectAll_eq_of_equal⟩, fun v w => ⟨fun h => ?_, inspect_eq_of_equal⟩⟩
  -- Alone they are lists of one value.
  have htexts : inspectAll [v] = inspectAll [w] := by rw [inspectAll_cons, inspectAll_cons, h]
  cases equal_of_inspectAll htexts with
  | cons hequal _ => exact hequal

/-- A string that spells the text of two others, and these two. -/
example : inspectAll [.string 0 (Bytes.ofString "a\" \"b")] = Bytes.ofString "[\"a\\\" \\\"b\"]" ∧
    inspectAll [.string 0 (Bytes.ofString "a"), .string 1 (Bytes.ofString "b")] = Bytes.ofString "[\"a\" \"b\"]" := by
  decide +kernel

end Dispatch.Value
