/-
Values over the wire come back as they were. The encoding of a value leaves out what is zero or empty
and picks the shortest of five heads for each number; decoding first reads an item, knowing nothing of
values, and then fits the item into an envelope. The item between them is `Envelope.item`: what was
written is read as it (`read_write`), and it fits the envelope it came from (`ofItem_item`).

Since decoding takes an encoding back to its envelope, two values with one encoding have one envelope,
and then the same content.

Lengths of strings and of lists are numbers below 2^63 (`Item.lengthLimit`) throughout.
-/
import Mathlib.Data.List.Forall2
import Dispatch.Proofs.WireReading
import Dispatch.Wire.Transfer

namespace Dispatch.Wire

namespace Envelope

/-! ## The item of an envelope -/

/-- An integer as an item. -/
def intItem (n : Int64) : Item :=
  match n.toInt with
  | .ofNat n => .unsigned n
  | .negSucc n => .negative n

/-- The integer's entry, left out for zero. -/
def intEntry (n : Int64) : List (Item × Item) := if n = 0 then [] else [(.unsigned 2, intItem n)]

/-- The bytes' entry, left out when there are none. -/
def bytesEntry (bs : Bytes) : List (Item × Item) := if bs.isEmpty then [] else [(.unsigned 3, .bytes bs)]

def entries (e : Envelope) : List (Item × Item) :=
  (.unsigned 1, .unsigned e.kind.toNat) :: (intEntry e.int ++ bytesEntry e.bytes)

/-- The item that the one spelling of an envelope spells. -/
def item (e : Envelope) : Item := .map e.entries

theorem length_entries (e : Envelope) : e.entries.length = e.entryCount := by
  simp only [entries, entryCount, intEntry, bytesEntry, List.length_cons, List.length_append]
  split <;> split <;> rfl

theorem length_entries_le (e : Envelope) : e.entries.length ≤ maxCount := by
  rw [length_entries, entryCount, maxCount]
  split <;> split <;> omega

/-! ## Reading an envelope that was written -/

theorem spellsInt_writeInt (n : Int64) : SpellsInt n.toInt (writeInt n) := by
  have hlow := n.le_toInt
  have hhigh := n.toInt_lt
  unfold writeInt
  cases hn : n.toInt with
  | ofNat m =>
    have hm : m < 0x10000000000000000 := by rw [hn, Int.ofNat_eq_natCast] at hhigh; omega
    exact Head.spells_write hm 0
  | negSucc m =>
    have hm : m < 0x10000000000000000 := by rw [hn] at hlow; omega
    exact Head.spells_write hm 1

theorem read_writeInt (n : Int64) (levels : Nat) (rest : Bytes) :
    Item.read levels (writeInt n ++ rest) = .ok (intItem n, rest) :=
  Item.read_ofInt (spellsInt_writeInt n) levels rest

theorem readPairs_bytes {bs : Bytes} (h : bs.length < Item.lengthLimit) (levels : Nat) (rest : Bytes) :
    Item.readPairs (Item.read levels) (bytesEntry bs).length (writeBytesEntry bs ++ rest) =
      .ok (bytesEntry bs, rest) := by
  unfold bytesEntry writeBytesEntry
  split
  · rfl
  · rw [List.append_assoc, List.append_assoc]
    exact Item.readPairs_cons (Item.read_unsigned (by decide) levels _) (Item.read_bytes h levels rest) rfl

theorem readPairs_int (n : Int64) {pairs : List (Item × Item)} {bs rest : Bytes} {levels : Nat}
    (h : Item.readPairs (Item.read levels) pairs.length bs = .ok (pairs, rest)) :
    Item.readPairs (Item.read levels) (intEntry n ++ pairs).length (writeIntEntry n ++ bs) =
      .ok (intEntry n ++ pairs, rest) := by
  unfold intEntry writeIntEntry
  split
  · exact h
  · rw [List.append_assoc]
    exact Item.readPairs_cons (Item.read_unsigned (by decide) levels _) (read_writeInt n levels bs) h

/-- What is written for an envelope is read as its item. -/
theorem read_write {e : Envelope} (h : e.bytes.length < Item.lengthLimit) (levels : Nat) (rest : Bytes) :
    Item.read (levels + 1) (e.write ++ rest) = .ok (e.item, rest) := by
  have hkind : e.kind.toNat < 0x10000000000000000 := Nat.lt_trans e.kind.toNat_lt (by decide)
  -- The entries are put together from the last to the first, as either of the last two may be missing.
  have hpairs : Item.readPairs (Item.read levels) e.entries.length
      (Head.write 0 1 ++ (Head.write 0 e.kind.toNat ++ (writeIntEntry e.int ++ (writeBytesEntry e.bytes ++ rest)))) =
      .ok (e.entries, rest) :=
    Item.readPairs_cons (Item.read_unsigned (by decide) levels _) (Item.read_unsigned hkind levels _)
      (readPairs_int e.int (readPairs_bytes h levels rest))
  have hcount : e.entries.length < 0x10000000000000000 := Nat.lt_of_le_of_lt e.length_entries_le (by decide)
  have hmap := Item.read_map (Head.spells_write hcount 5) e.length_entries_le hpairs
  rw [length_entries] at hmap
  simpa only [write, item, List.append_assoc] using hmap

/-! ## Fitting the item into the envelope -/

theorem asByte_unsigned (n : UInt8) : (Item.unsigned n.toNat).asByte = .ok n := by
  have hn := n.toNat_lt
  have hrange : (0 : Int) ≤ n.toNat ∧ (n.toNat : Int) < 256 := by omega
  simp [Item.asByte, Item.content, Content.integer, hrange]

theorem asInt64_intItem (n : Int64) : (intItem n).asInt64 = .ok n := by
  have hcontent : (intItem n).content = .ok (.plain (intItem n)) := by
    unfold intItem
    cases n.toInt <;> rfl
  have hinteger : (Content.plain (intItem n)).integer = .ok n.toInt := by
    unfold intItem
    cases n.toInt with
    | ofNat m => rfl
    | negSucc m => simp only [Content.integer, Int.negSucc_eq, Except.ok.injEq]; omega
  have hrange : Int64.minValue.toInt ≤ n.toInt ∧ n.toInt ≤ Int64.maxValue.toInt :=
    ⟨n.minValue_le_toInt, n.toInt_le⟩
  simp only [Item.asInt64, hcontent, ok_bind, hinteger, if_pos hrange, Int64.ofInt_toInt]

/-- The integer is met in its entry, or stays zero. -/
theorem foldlM_intEntry (kind : Option UInt8) (n : Int64) :
    ∃ int, (intEntry n).foldlM Fields.enter ⟨kind, none, none⟩ = .ok ⟨kind, int, none⟩ ∧ int.getD 0 = n := by
  unfold intEntry
  split
  next hn => exact ⟨none, rfl, hn.symm⟩
  next =>
    refine ⟨some n, ?_, rfl⟩
    simp [Fields.enter, Field.ofKey, Field.ofNumber?, asInt64_intItem]

/-- The bytes are met in their entry, or stay empty. -/
theorem foldlM_bytesEntry (kind : Option UInt8) (int : Option Int64) (bs : Bytes) :
    ∃ bytes, (bytesEntry bs).foldlM Fields.enter ⟨kind, int, none⟩ = .ok ⟨kind, int, bytes⟩ ∧
      bytes.getD [] = bs := by
  unfold bytesEntry
  split
  next hbs => exact ⟨none, rfl, (List.isEmpty_iff.1 hbs).symm⟩
  next => exact ⟨some bs, rfl, rfl⟩

/-- The item of an envelope is made into that envelope. -/
theorem ofItem_item (e : Envelope) : ofItem e.item = .ok e := by
  obtain ⟨int, hint, hgetInt⟩ := foldlM_intEntry (some e.kind) e.int
  obtain ⟨bytes, hbytes, hgetBytes⟩ := foldlM_bytesEntry (some e.kind) int e.bytes
  have hkind : Fields.enter ⟨none, none, none⟩ (.unsigned 1, .unsigned e.kind.toNat) =
      .ok ⟨some e.kind, none, none⟩ := by
    simp [Fields.enter, Field.ofKey, Field.ofNumber?, asByte_unsigned]
  have hfields : e.entries.foldlM Fields.enter ⟨none, none, none⟩ = .ok ⟨some e.kind, int, bytes⟩ := by
    simp only [entries, List.foldlM_cons, hkind, ok_bind, List.foldlM_append, hint, hbytes]
  simp [ofItem, item, Item.content, hfields, ofFields, hgetInt, hgetBytes]

theorem item_injective : Function.Injective item := by
  intro e f h
  have hok : ofItem e.item = ofItem f.item := by rw [h]
  rw [ofItem_item, ofItem_item] at hok
  exact Except.ok.inj hok

/-- The spelling of an envelope tells it from all others. -/
theorem write_injective {e f : Envelope} (he : e.bytes.length < Item.lengthLimit)
    (hf : f.bytes.length < Item.lengthLimit) (h : e.write = f.write) : e = f := by
  have hread := read_write he 0 []
  rw [h, read_write hf 0 []] at hread
  exact (item_injective (Prod.mk.inj (Except.ok.inj hread)).1).symm

/-! ## Lists of envelopes -/

/-- What is written for the elements of a list is read as their items. -/
theorem readMany_write {es : List Envelope} (h : ∀ e ∈ es, e.bytes.length < Item.lengthLimit) (levels : Nat)
    (rest : Bytes) :
    Item.readMany (Item.read (levels + 1)) es.length (es.flatMap write ++ rest) = .ok (es.map item, rest) :=
  Item.readMany_flatMap (fun e he rest => read_write (h e he) levels rest) rest

theorem read_writeAll {es : List Envelope} (h : ∀ e ∈ es, e.bytes.length < Item.lengthLimit)
    (hcount : es.length ≤ maxCount) (levels : Nat) (rest : Bytes) :
    Item.read (levels + 2) (writeAll es ++ rest) = .ok (.array (es.map item), rest) := by
  have hmany : Item.readMany (Item.read (levels + 1)) (es.map item).length (es.flatMap write ++ rest) =
      .ok (es.map item, rest) := by
    rw [List.length_map]
    exact readMany_write h levels rest
  have hlength : (es.map item).length ≤ maxCount := by rwa [List.length_map]
  have hhead := Head.spells_write (Item.lt_of_lt_lengthLimit (Item.lt_lengthLimit_of_le hlength)) 4
  have harray := Item.read_array hhead hlength hmany
  rwa [List.length_map, ← List.append_assoc] at harray

theorem listOfItem_items (es : List Envelope) : listOfItem (.array (es.map item)) = .ok es := by
  have hitems : (es.map item).mapM ofItem = .ok es := by
    induction es with
    | nil => rfl
    | cons e es ih => simp [List.mapM_cons, ofItem_item, ih]
  exact hitems

/-- The spelling of a list of envelopes tells it from all others, however long the lists are. -/
theorem writeAll_injective {es fs : List Envelope} (hes : es.length < Item.lengthLimit)
    (hfs : fs.length < Item.lengthLimit) (he : ∀ e ∈ es, e.bytes.length < Item.lengthLimit)
    (hf : ∀ f ∈ fs, f.bytes.length < Item.lengthLimit) (h : writeAll es = writeAll fs) : es = fs := by
  -- An array of more than `maxCount` elements is not read, so head and elements are read apart.
  obtain ⟨head, hread, -, harg, -⟩ :=
    (Head.spells_write (Item.lt_of_lt_lengthLimit hes) 4).read (by omega) (es.flatMap write)
  obtain ⟨head', hread', -, harg', -⟩ :=
    (Head.spells_write (Item.lt_of_lt_lengthLimit hfs) 4).read (by omega) (fs.flatMap write)
  unfold writeAll at h
  rw [h, hread'] at hread
  obtain ⟨rfl, helements⟩ := Prod.mk.inj (Except.ok.inj hread)
  have hlength : es.length = fs.length := harg.symm.trans harg'
  have hitems := readMany_write he 0 []
  rw [hlength, ← helements, readMany_write hf 0 []] at hitems
  have hmap := (Prod.mk.inj (Except.ok.inj hitems)).1
  exact (List.map_injective_iff.2 item_injective hmap).symm

/-! ## Values -/

theorem bytes_ofValue (v : Value) : (ofValue v).bytes = v.text := by cases v <;> rfl

/-- Values have one envelope just if they have the same content. -/
theorem ofValue_eq_iff {v w : Value} : ofValue v = ofValue w ↔ v.equal w = true := by
  cases v <;> cases w <;> simp [ofValue, Value.equal, Kind.tag]
  case bool.bool a b => cases a <;> cases b <;> simp

/-- A value as it comes back: a string has storage of its own. -/
def copy (fresh : Nat) : Value → Value × Nat
  | .string _ bs => (.string fresh bs, fresh + 1)
  | v => (v, fresh)

theorem toValue_ofValue (fresh : Nat) (v : Value) : (ofValue v).toValue fresh = .ok (copy fresh v) := by
  cases v with
  | nil => rfl
  | bool b => cases b <;> rfl
  | fixnum n => rfl
  | string storage bs => rfl

theorem equal_copy (fresh : Nat) (v : Value) : v.equal (copy fresh v).1 = true := by
  cases v <;> simp [copy, Value.equal]

/-- Element by element, values come back with the content they had. -/
theorem toValues_ofValue (vs : List Value) (fresh index : Nat) :
    ∃ ws fresh', toValues fresh index (vs.map ofValue) = .ok (ws, fresh') ∧
      List.Forall₂ (fun v w => v.equal w = true) vs ws := by
  induction vs generalizing fresh index with
  | nil => exact ⟨[], fresh, rfl, .nil⟩
  | cons v vs ih =>
    obtain ⟨ws, fresh', htail, hequal⟩ := ih (copy fresh v).2 (index + 1)
    refine ⟨(copy fresh v).1 :: ws, fresh', ?_, .cons (equal_copy fresh v) hequal⟩
    simp [toValues, toValue_ofValue, htail]

theorem map_ofValue_eq_iff {vs ws : List Value} :
    vs.map ofValue = ws.map ofValue ↔ List.Forall₂ (fun v w => v.equal w = true) vs ws := by
  rw [← List.forall₂_eq_eq_eq, List.forall₂_map_left_iff, List.forall₂_map_right_iff]
  simp only [ofValue_eq_iff]

end Envelope

open Envelope

/-! ## Encoding and decoding a value -/

theorem marshal_inj {v w : Value} (hv : v.size < Item.lengthLimit) (hw : w.size < Item.lengthLimit) :
    marshal v = marshal w ↔ v.equal w = true := by
  rw [← ofValue_eq_iff]
  refine ⟨fun h => write_injective ?_ ?_ h, fun h => by rw [marshal, marshal, h]⟩
  · rwa [bytes_ofValue]
  · rwa [bytes_ofValue]

theorem unmarshal_marshal_eq (fresh : Nat) {v : Value} (hv : v.size < Item.lengthLimit) :
    unmarshal fresh (marshal v) = .ok (copy fresh v) := by
  have hread : Item.read maxLevels (marshal v) = .ok ((ofValue v).item, []) := by
    have h := read_write (e := ofValue v) (by rwa [bytes_ofValue]) 31 []
    rwa [List.append_nil] at h
  have hitem := Item.ofBytes_of_read hread
  simp [unmarshal, decodeAs, hitem, ofItem_item, toValue_ofValue, Except.mapError]

/-- **A value comes back from the wire, and its encoding is its content.** Every value is decoded from
its encoding with the same content: one that is no string as itself, a string at storage that no string
before it has. Two values have one encoding just if they have the same content. -/
theorem unmarshal_marshal (fresh : Nat) :
    (∀ v : Value, v.size < 0x8000000000000000 →
      ∃ w fresh', unmarshal fresh (marshal v) = .ok (w, fresh') ∧ v.equal w = true ∧
        (v.kind ≠ .string → w = v ∧ v.same w = true ∧ fresh' = fresh) ∧
        (v.kind = .string → w = .string fresh v.text ∧ fresh' = fresh + 1 ∧
          ∀ storage bs, storage < fresh → (Value.string storage bs).same w = false)) ∧
    ∀ v w : Value, v.size < 0x8000000000000000 → w.size < 0x8000000000000000 →
      (marshal v = marshal w ↔ v.equal w = true) := by
  refine ⟨fun v hv => ?_, fun v w hv hw => marshal_inj hv hw⟩
  refine ⟨(copy fresh v).1, (copy fresh v).2, unmarshal_marshal_eq fresh hv, equal_copy fresh v, ?_, ?_⟩
  · intro hkind
    cases v with
    | nil | bool | fixnum => simp [copy, Value.same]
    | string storage bs => exact absurd rfl hkind
  · intro hkind
    cases v with
    | nil | bool | fixnum => cases hkind
    | string storage bs =>
      refine ⟨rfl, rfl, fun storage' bs' hlt => ?_⟩
      simp only [copy, Value.same, beq_eq_false_iff_ne]
      omega

/-- The least fixnum takes the longest head, and copies of a string are encoded alike. -/
theorem unmarshal_marshal_min_and_copies :
    (∃ w fresh', unmarshal 3 (marshal (.fixnum Int64.minValue)) = .ok (w, fresh') ∧
      w = .fixnum Int64.minValue) ∧
    marshal (.string 1 [0x61]) = marshal (.string 2 [0x61]) := by
  refine ⟨?_, ((unmarshal_marshal 3).2 _ _ (by decide) (by decide)).2 rfl⟩
  obtain ⟨w, fresh', hok, -, hsame, -⟩ := (unmarshal_marshal 3).1 (.fixnum Int64.minValue) (by decide)
  exact ⟨w, fresh', hok, (hsame (by decide)).1⟩

/-! ## Encoding and decoding a list -/

section Lists

variable {vs ws : List Value}

theorem bytes_of_mem_map (h : ∀ v ∈ vs, v.size < Item.lengthLimit) :
    ∀ e ∈ vs.map ofValue, e.bytes.length < Item.lengthLimit := by
  intro e he
  obtain ⟨v, hv, rfl⟩ := List.mem_map.1 he
  rw [bytes_ofValue]
  exact h v hv

theorem marshalAll_inj (hvs : vs.length < Item.lengthLimit) (hws : ws.length < Item.lengthLimit)
    (hv : ∀ v ∈ vs, v.size < Item.lengthLimit) (hw : ∀ w ∈ ws, w.size < Item.lengthLimit) :
    marshalAll vs = marshalAll ws ↔ List.Forall₂ (fun v w => v.equal w = true) vs ws := by
  rw [← map_ofValue_eq_iff]
  refine ⟨fun h => writeAll_injective ?_ ?_ (bytes_of_mem_map hv) (bytes_of_mem_map hw) h, fun h => ?_⟩
  · rwa [List.length_map]
  · rwa [List.length_map]
  · rw [marshalAll, marshalAll, h]

theorem unmarshalAll_marshalAll_eq (fresh : Nat) (hv : ∀ v ∈ vs, v.size < Item.lengthLimit)
    (hcount : vs.length ≤ maxCount) :
    unmarshalAll fresh (marshalAll vs) = toValues fresh 0 (vs.map ofValue) := by
  have hread : Item.read maxLevels (marshalAll vs) = .ok (.array ((vs.map ofValue).map item), []) := by
    have h := read_writeAll (bytes_of_mem_map hv) (by rwa [List.length_map]) 30 []
    rwa [List.append_nil] at h
  have hitem := Item.ofBytes_of_read hread
  simp only [unmarshalAll, decodeAs, hitem, listOfItem_items, Except.mapError, ok_bind]

/-- A list that is too long is encoded all the same; decoding stops at the head. -/
theorem unmarshalAll_marshalAll_tooMany (fresh : Nat) (hmax : maxCount < vs.length)
    (hlimit : vs.length < Item.lengthLimit) :
    unmarshalAll fresh (marshalAll vs) = .error (.undecodableList (.malformed .tooManyElements)) := by
  have hne : marshalAll vs ≠ [] := by
    have hhead := (Head.spells_write (Item.lt_of_lt_lengthLimit hlimit) 4).ne_nil
    simp [marshalAll, writeAll, hhead]
  have hread : Item.read maxLevels (marshalAll vs) = .error .tooManyElements := by
    rw [marshalAll, writeAll, List.length_map]
    exact Item.read_array_tooMany hmax hlimit 31 _
  have hitem := Item.ofBytes_of_error hne hread
  simp [unmarshalAll, decodeAs, hitem, Except.mapError]

end Lists

/-- **A list of values comes back from the wire up to its limit, and its encoding is its contents.** A
list of at most 131072 values is decoded from its encoding, place by place with the same content. A
longer one has an encoding too, and decoding it fails for its number of elements. Two lists, of any
lengths, have one encoding just if they are as long and have the same contents place by place. -/
theorem unmarshalAll_marshalAll (fresh : Nat) :
    (∀ vs : List Value, (∀ v ∈ vs, v.size < 0x8000000000000000) → vs.length ≤ 131072 →
      ∃ ws fresh', unmarshalAll fresh (marshalAll vs) = .ok (ws, fresh') ∧ ws.length = vs.length ∧
        List.Forall₂ (fun v w => v.equal w = true) vs ws) ∧
    (∀ vs : List Value, 131072 < vs.length → vs.length < 0x8000000000000000 →
      unmarshalAll fresh (marshalAll vs) = .error (.undecodableList (.malformed .tooManyElements))) ∧
    ∀ vs ws : List Value, vs.length < 0x8000000000000000 → ws.length < 0x8000000000000000 →
      (∀ v ∈ vs, v.size < 0x8000000000000000) → (∀ w ∈ ws, w.size < 0x8000000000000000) →
      (marshalAll vs = marshalAll ws ↔
        vs.length = ws.length ∧ List.Forall₂ (fun v w => v.equal w = true) vs ws) := by
  refine ⟨fun vs hv hcount => ?_, fun vs hmax hlimit => unmarshalAll_marshalAll_tooMany fresh hmax hlimit,
    fun vs ws hvs hws hv hw => ?_⟩
  · obtain ⟨ws, fresh', hok, hequal⟩ := toValues_ofValue vs fresh 0
    refine ⟨ws, fresh', ?_, hequal.length_eq.symm, hequal⟩
    rw [unmarshalAll_marshalAll_eq fresh hv hcount, hok]
  · rw [marshalAll_inj hvs hws hv hw]
    exact ⟨fun h => ⟨h.length_eq, h⟩, And.right⟩

/-- One value more than the limit: the first list comes back, the second does not. -/
theorem unmarshalAll_marshalAll_at_limit :
    (∃ ws fresh', unmarshalAll 0 (marshalAll (List.replicate 131072 .nil)) = .ok (ws, fresh') ∧
      ws.length = 131072) ∧
    unmarshalAll 0 (marshalAll (List.replicate 131073 .nil)) =
      .error (.undecodableList (.malformed .tooManyElements)) ∧
    marshalAll [.string 0 [], .bool true] = marshalAll [.string 1 [], .bool true] := by
  have hnil : ∀ v ∈ List.replicate 131072 Value.nil, v.size < 0x8000000000000000 := by
    intro v hv
    rw [List.eq_of_mem_replicate hv]
    decide
  refine ⟨?_, ?_, ?_⟩
  · obtain ⟨ws, fresh', hok, hlength, -⟩ :=
      (unmarshalAll_marshalAll 0).1 (List.replicate 131072 .nil) hnil (Nat.le_of_eq List.length_replicate)
    exact ⟨ws, fresh', hok, by rw [hlength, List.length_replicate]⟩
  · refine (unmarshalAll_marshalAll 0).2.1 (List.replicate 131073 .nil) ?_ ?_
    · rw [List.length_replicate]; decide
    · rw [List.length_replicate]; decide
  · refine ((unmarshalAll_marshalAll 0).2.2 _ _ (by decide) (by decide) (by decide) (by decide)).2 ⟨rfl, ?_⟩
    exact .cons rfl (.cons rfl .nil)

end Dispatch.Wire
