/-
An envelope has many spellings, and all of them are decoded alike. Here is the grammar of these spellings:
heads in any width, byte strings in chunks, maps with or without their length, entries in any order and
with others among them, self-describing tags in front. Reading follows the grammar, each part in front of
any rest, and gives a map whose entries say what the envelope holds (`Says`). The fields that are met do
not depend on the order of the entries, since all entries for a field say the same.
-/
import Dispatch.Proofs.ListDecoding

namespace Dispatch.Wire

/-! ## The grammar -/

/-- The tag that says that an item is one, and nothing else. -/
def selfDescribing : Nat := 55799

/-- Chunks of known lengths, and the break after them. -/
inductive SpellsChunks : Bytes → Bytes → Prop where
  | stop : SpellsChunks [] [breakByte]
  | chunk {head chunk bs data : Bytes} : Head.Spells 2 chunk.length head → SpellsChunks bs data →
      SpellsChunks (chunk ++ bs) (head ++ (chunk ++ data))

/-- Bytes are one string of a known length, or chunks after the head that leaves the length open. -/
inductive SpellsBytes (bs : Bytes) : Bytes → Prop where
  | definite {head : Bytes} : Head.Spells 2 bs.length head → SpellsBytes bs (head ++ bs)
  | chunked {data : Bytes} : SpellsChunks bs data → SpellsBytes bs (0x5f :: data)

/-- The same with a self-describing tag in front, or without. -/
inductive Described (P : Bytes → Prop) : Bytes → Prop where
  | bare {data : Bytes} : P data → Described P data
  | tagged {tag data : Bytes} : Head.Spells 6 selfDescribing tag → P data → Described P (tag ++ data)

/-- An entry under a key: a field of the envelope, or any item under a key that is none of the fields'. -/
inductive SpellsEntry (e : Envelope) : Int → Bytes → Prop where
  | kind {key value : Bytes} : SpellsInt 1 key → Described (SpellsInt e.kind.toNat) value →
      SpellsEntry e 1 (key ++ value)
  | int {key value : Bytes} : SpellsInt 2 key → Described (SpellsInt e.int.toInt) value →
      SpellsEntry e 2 (key ++ value)
  | bytes {key value : Bytes} : SpellsInt 3 key → Described (SpellsBytes e.bytes) value →
      SpellsEntry e 3 (key ++ value)
  | other {k : Int} {key value : Bytes} {x : Item} : k ≠ 1 → k ≠ 2 → k ≠ 3 → Int64.minValue.toInt ≤ k →
      k ≤ Int64.maxValue.toInt → SpellsInt k key → Item.ofBytes value = .ok x → x.depth ≤ 31 →
      SpellsEntry e k (key ++ value)

/-- A map is its head and its entries; if the head leaves their number open, there is a break after them. -/
inductive SpellsMap (entries : List Bytes) : Bytes → Prop where
  | definite {head : Bytes} : Head.Spells 5 entries.length head → SpellsMap entries (head ++ entries.flatten)
  | indefinite : SpellsMap entries (0xbf :: (entries.flatten ++ [breakByte]))

/-- The data spells the envelope: a map with the kind, the integer unless it is zero and the bytes unless
there are none, in any order and with any other entries among them. A key may come more than once. -/
def Envelope.Spells (e : Envelope) (data : Bytes) : Prop :=
  ∃ entries : List (Int × Bytes), entries.length ≤ maxCount ∧ (∀ entry ∈ entries, SpellsEntry e entry.1 entry.2) ∧
    1 ∈ entries.map Prod.fst ∧ (2 ∈ entries.map Prod.fst ∨ e.int = 0) ∧ (3 ∈ entries.map Prod.fst ∨ e.bytes = []) ∧
    Described (SpellsMap (entries.map Prod.snd)) data

/-! ## Reading what is spelt -/

namespace Item

/-- The data is read as this item, in front of any rest. -/
def ReadAs (levels : Nat) (data : Bytes) (x : Item) : Prop := ∀ rest, read levels (data ++ rest) = .ok (x, rest)

variable {levels : Nat}

theorem readAs_int {k : Int} {data : Bytes} (h : SpellsInt k data) : ReadAs levels data (ofInt k) :=
  read_ofInt h levels

theorem readAs_tagged {front data : Bytes} {n : Nat} {x : Item} (hfront : Head.Spells 6 n front)
    (h : ReadAs levels data x) (hx : x.isTag = false) : ReadAs levels (front ++ data) (.tag n x) := by
  intro rest
  rw [List.append_assoc]
  obtain ⟨head, hhead, hmajor, harg, -⟩ := hfront.read (by omega) (data ++ rest)
  obtain ⟨next, mid, hnext, ⟨hplain, hafter⟩ | ⟨-, _, _, _, -, rfl, -⟩⟩ := read_eq_ok.1 (h rest)
  · refine read_eq_ok.2 ⟨head, data ++ rest, hhead, .inr ⟨hmajor, next, mid, x, hnext, ?_, .inl ⟨hplain, hafter⟩⟩⟩
    rw [harg]
  · cases hx

theorem readChunks_of_spells {bs data : Bytes} (h : SpellsChunks bs data) (hbs : bs.length < lengthLimit) :
    ∃ chunks, chunks.flatten = bs ∧ ∀ most rest, data.length ≤ most →
      readChunks 2 most (data ++ rest) = .ok (chunks, rest) := by
  induction h with
  | stop =>
    refine ⟨[], rfl, fun most rest hmost => ?_⟩
    cases most with
    | zero => cases hmost
    | succ most => rfl
  | @chunk head chunk bs data hhead _ ih =>
    rw [List.length_append] at hbs
    obtain ⟨chunks, rfl, hread⟩ := ih (by omega)
    refine ⟨chunk :: chunks, rfl, fun most rest hmost => ?_⟩
    obtain ⟨b, tail, rfl, hmajor, hinfo⟩ := hhead.first (by omega)
    obtain ⟨h, hh, -, harg, -⟩ := hhead.read (by omega) (chunk ++ (data ++ rest))
    have hbreak : b ≠ breakByte := by
      rintro rfl
      exact absurd hinfo (by decide)
    cases most with
    | zero => cases hmost
    | succ most =>
      have hrest := hread most rest (by simp only [List.length_append, List.length_cons] at hmost; omega)
      simp only [List.cons_append, List.append_assoc] at hh ⊢
      have hkind : ¬ (b.toNat / 32 ≠ 2 ∨ b.toNat % 32 = 31) := by omega
      have hchunk : chunk.length < lengthLimit := Nat.lt_of_le_of_lt (Nat.le_add_right _ _) hbs
      simp [readChunks, hbreak, hkind, hh, harg, readString_append hchunk, hrest]

theorem readAs_bytes {bs data : Bytes} (h : SpellsBytes bs data) (hbs : bs.length < lengthLimit) :
    ReadAs levels data (.bytes bs) := by
  intro rest
  cases h with
  | definite hhead =>
    rw [List.append_assoc]
    exact read_bytes_of_spells hhead hbs levels rest
  | @chunked data hchunks =>
    obtain ⟨chunks, rfl, hread⟩ := readChunks_of_spells hchunks hbs
    have hhead : Head.read (0x5f :: (data ++ rest)) = .ok (⟨2, 31, 31⟩, data ++ rest) := rfl
    rw [List.cons_append, read_of_head levels hhead (by decide)]
    have hall := hread (data.length + rest.length) rest (Nat.le_add_right _ _)
    simp [readAfter, readText, Head.isIndefinite, hall]

/-- A self-describing tag in front changes nothing that looks through tags. -/
theorem exists_readAs_of_described {P : Bytes → Prop} {Q : Item → Prop} {data : Bytes} (h : Described P data)
    (hP : ∀ data, P data → ∃ x, x.isTag = false ∧ Q x ∧ ReadAs levels data x)
    (hQ : ∀ x, Q x → Q (.tag selfDescribing x)) : ∃ x, Q x ∧ ReadAs levels data x := by
  cases h with
  | bare hdata =>
    obtain ⟨x, -, hx, hread⟩ := hP _ hdata
    exact ⟨x, hx, hread⟩
  | tagged htag hdata =>
    obtain ⟨x, hplain, hx, hread⟩ := hP _ hdata
    exact ⟨.tag selfDescribing x, hQ x hx, readAs_tagged htag hread hplain⟩

/-! ## Entries -/

/-- The data is a key and a value after it. -/
def PairReadAs (levels : Nat) (data : Bytes) (pair : Item × Item) : Prop :=
  ∃ key value, data = key ++ value ∧ ReadAs levels key pair.1 ∧ ReadAs levels value pair.2

section Pairs

variable {entries : List Bytes} {pairs : List (Item × Item)}

theorem readPairs_of_readAs (h : List.Forall₂ (PairReadAs levels) entries pairs) (rest : Bytes) :
    readPairs (read levels) pairs.length (entries.flatten ++ rest) = .ok (pairs, rest) := by
  induction h with
  | nil => rfl
  | @cons data pair entries pairs hpair _ ih =>
    obtain ⟨key, value, rfl, hkey, hvalue⟩ := hpair
    simp only [List.flatten_cons, List.append_assoc]
    exact readPairs_cons (hkey _) (hvalue _) ih

/-- No item starts with the break. -/
theorem exists_cons_of_read {bs : Bytes} {p : Item × Bytes} (h : read levels bs = .ok p) :
    ∃ b tail, b ≠ breakByte ∧ bs = b :: tail := by
  cases bs with
  | nil => rw [read_of_error rfl] at h; cases h
  | cons b tail =>
    refine ⟨b, tail, ?_, rfl⟩
    rintro rfl
    rw [read_of_error rfl] at h
    cases h

theorem readPairsUntilBreak_of_readAs (h : List.Forall₂ (PairReadAs levels) entries pairs) {left : Nat}
    (hleft : pairs.length ≤ left) (rest : Bytes) :
    readPairsUntilBreak (read levels) left (entries.flatten ++ breakByte :: rest) = .ok (pairs, rest) := by
  induction h generalizing left with
  | nil => exact readPairsUntilBreak_eq_ok.2 (.inl ⟨rfl, rfl⟩)
  | @cons data pair entries pairs hpair _ ih =>
    obtain ⟨key, value, rfl, hkey, hvalue⟩ := hpair
    obtain ⟨left, rfl⟩ : ∃ left', left = left' + 1 := ⟨left - 1, by rw [List.length_cons] at hleft; omega⟩
    have hothers := ih (Nat.le_of_succ_le_succ hleft)
    have hkey' := hkey (value ++ (entries.flatten ++ breakByte :: rest))
    have hvalue' := hvalue (entries.flatten ++ breakByte :: rest)
    -- Neither key nor value starts with the break, so neither is taken for the end of the map.
    obtain ⟨b, tail, hb, hstart⟩ := exists_cons_of_read hkey'
    obtain ⟨c, tail', hc, hstart'⟩ := exists_cons_of_read hvalue'
    have hafter : readValue (read levels) (value ++ (entries.flatten ++ breakByte :: rest)) =
        .ok (pair.2, entries.flatten ++ breakByte :: rest) := by
      rw [hstart'] at hvalue' ⊢
      rw [readValue, if_neg hc, hvalue']
    simp only [List.flatten_cons, List.append_assoc]
    exact readPairsUntilBreak_eq_ok.2
      (.inr ⟨b, tail, pair.1, _, pair.2, _, pairs, left, hb, hstart, rfl, rfl, hstart ▸ hkey', hafter, hothers⟩)

theorem readAs_map {data : Bytes} (hdata : SpellsMap entries data) (h : List.Forall₂ (PairReadAs levels) entries pairs)
    (hcount : pairs.length ≤ maxCount) : ReadAs (levels + 1) data (.map pairs) := by
  intro rest
  cases hdata with
  | definite hhead =>
    rw [h.length_eq] at hhead
    rw [List.append_assoc]
    exact read_map hhead hcount (readPairs_of_readAs h rest)
  | indefinite =>
    have hhead : Head.read (0xbf :: (entries.flatten ++ breakByte :: rest)) =
        .ok (⟨5, 31, 31⟩, entries.flatten ++ breakByte :: rest) := rfl
    simp only [List.cons_append, List.append_assoc, List.nil_append]
    rw [read_of_head (levels + 1) hhead (by decide)]
    simp [readAfter, inside, readEntries, Head.isIndefinite, readPairsUntilBreak_of_readAs h hcount rest]

end Pairs

end Item

/-! ## What the entries say -/

namespace Envelope

/-- The entry under a key tells a field of the envelope as it is, or tells none. -/
inductive Says (e : Envelope) : Int → Item × Item → Prop where
  | kind {value : Item} : value.asByte = .ok e.kind → Says e 1 (.unsigned 1, value)
  | int {value : Item} : value.asInt64 = .ok e.int → Says e 2 (.unsigned 2, value)
  | bytes {value : Item} : value.asBytes = .ok e.bytes → Says e 3 (.unsigned 3, value)
  | other {k : Int} {key value : Item} : k ≠ 1 → k ≠ 2 → k ≠ 3 → Field.ofKey key = .ok none → Says e k (key, value)

/-- The fields that are known after entries under these keys. -/
def known (e : Envelope) (keys : List Int) : Fields :=
  ⟨if 1 ∈ keys then some e.kind else none, if 2 ∈ keys then some e.int else none,
    if 3 ∈ keys then some e.bytes else none⟩

variable {e : Envelope}

theorem enter_of_says {k : Int} {pair : Item × Item} (h : Says e k pair) (seen : List Int) :
    Fields.enter (known e seen) pair = .ok (known e (seen ++ [k])) := by
  cases h with
  | kind hvalue =>
    by_cases hseen : (1 : Int) ∈ seen <;>
      simp [Fields.enter, Field.ofKey, Field.ofNumber?, known, hseen, hvalue]
  | int hvalue =>
    by_cases hseen : (2 : Int) ∈ seen <;>
      simp [Fields.enter, Field.ofKey, Field.ofNumber?, known, hseen, hvalue]
  | bytes hvalue =>
    by_cases hseen : (3 : Int) ∈ seen <;>
      simp [Fields.enter, Field.ofKey, Field.ofNumber?, known, hseen, hvalue]
  | other h1 h2 h3 hkey => simp [Fields.enter, hkey, known, Ne.symm h1, Ne.symm h2, Ne.symm h3]

/-- The fields that entries make known are those of their keys, whatever the order. -/
theorem foldlM_of_says {keys : List Int} {pairs : List (Item × Item)} (h : List.Forall₂ (Says e) keys pairs)
    (seen : List Int) : pairs.foldlM Fields.enter (known e seen) = .ok (known e (seen ++ keys)) := by
  induction h generalizing seen with
  | nil => simp [pure, Except.pure]
  | cons hpair _ ih => simp [List.foldlM_cons, enter_of_says hpair, ih]

theorem ofFields_known {keys : List Int} (hkind : 1 ∈ keys) (hint : 2 ∈ keys ∨ e.int = 0)
    (hbytes : 3 ∈ keys ∨ e.bytes = []) : ofFields (known e keys) = e := by
  have hgetInt : (known e keys).int.getD 0 = e.int := by
    by_cases hmem : 2 ∈ keys
    · simp [known, hmem]
    · simp [known, hmem, hint.resolve_left hmem]
  have hgetBytes : (known e keys).bytes.getD [] = e.bytes := by
    by_cases hmem : 3 ∈ keys
    · simp [known, hmem]
    · simp [known, hmem, hbytes.resolve_left hmem]
  unfold ofFields
  rw [hgetInt, hgetBytes]
  simp [known, hkind]

theorem isTag_ofInt (k : Int) : (Item.ofInt k).isTag = false := by cases k <;> rfl

/-- A key beside the fields' names no field. -/
theorem ofKey_ofInt {k : Int} (h1 : k ≠ 1) (h2 : k ≠ 2) (h3 : k ≠ 3) (hmin : Int64.minValue.toInt ≤ k) :
    Field.ofKey (Item.ofInt k) = .ok none := by
  cases k with
  | ofNat n =>
    have hn : n ≠ 1 ∧ n ≠ 2 ∧ n ≠ 3 := by
      rw [Int.ofNat_eq_natCast] at h1 h2 h3
      omega
    simp [Item.ofInt, Field.ofKey, Field.ofNumber?, hn]
  | negSucc n =>
    have hn : (n : Int) ≤ Int64.maxValue.toInt := by
      have hlow : Int64.minValue.toInt = -Int64.maxValue.toInt - 1 := by decide
      omega
    simp [Item.ofInt, Field.ofKey, hn]

/-- Every entry of the grammar is read as a pair that says what it spells. -/
theorem exists_says_of_spells {k : Int} {data : Bytes} (h : SpellsEntry e k data)
    (hbytes : e.bytes.length < Item.lengthLimit) : ∃ pair, Says e k pair ∧ Item.PairReadAs 31 data pair := by
  cases h with
  | kind hkey hvalue =>
    obtain ⟨x, hx, hread⟩ := Item.exists_readAs_of_described (Q := fun x => x.asByte = .ok e.kind) hvalue
      (fun _ h => ⟨.unsigned e.kind.toNat, rfl, asByte_unsigned e.kind, Item.readAs_int h⟩) fun _ hx => hx
    exact ⟨(.unsigned 1, x), .kind hx, _, _, rfl, Item.readAs_int hkey, hread⟩
  | int hkey hvalue =>
    obtain ⟨x, hx, hread⟩ := Item.exists_readAs_of_described (Q := fun x => x.asInt64 = .ok e.int) hvalue
      (fun _ h => ⟨intItem e.int, isTag_ofInt _, asInt64_intItem e.int, Item.readAs_int h⟩) fun _ hx => hx
    exact ⟨(.unsigned 2, x), .int hx, _, _, rfl, Item.readAs_int hkey, hread⟩
  | bytes hkey hvalue =>
    obtain ⟨x, hx, hread⟩ := Item.exists_readAs_of_described (Q := fun x => x.asBytes = .ok e.bytes) hvalue
      (fun _ h => ⟨.bytes e.bytes, rfl, rfl, Item.readAs_bytes h hbytes⟩) fun _ hx => hx
    exact ⟨(.unsigned 3, x), .bytes hx, _, _, rfl, Item.readAs_int hkey, hread⟩
  | @other k key value x h1 h2 h3 hmin hmax hkey hvalue hdepth =>
    exact ⟨(Item.ofInt k, x), .other h1 h2 h3 (ofKey_ofInt h1 h2 h3 hmin), _, _, rfl, Item.readAs_int hkey,
      Item.read_append_of_ofBytes hvalue hdepth⟩

/-- Every spelling of an envelope is decoded as that envelope. -/
theorem decodeAs_of_spells {data : Bytes} (h : e.Spells data) (hbytes : e.bytes.length < Item.lengthLimit) :
    decodeAs ofItem data = .ok e := by
  obtain ⟨entries, hcount, hentries, hkind, hint, hrest, hdata⟩ := h
  obtain ⟨pairs, hpairs⟩ := exists_forall₂ fun entry hentry => exists_says_of_spells (hentries entry hentry) hbytes
  have hsays : List.Forall₂ (Says e) (entries.map Prod.fst) pairs :=
    List.forall₂_map_left_iff.2 (hpairs.imp fun _ _ hpair => hpair.1)
  have hreads : List.Forall₂ (Item.PairReadAs 31) (entries.map Prod.snd) pairs :=
    List.forall₂_map_left_iff.2 (hpairs.imp fun _ _ hpair => hpair.2)
  have hmap : ofItem (.map pairs) = .ok e := by
    have hfields : pairs.foldlM Fields.enter ⟨none, none, none⟩ = .ok (known e (entries.map Prod.fst)) :=
      foldlM_of_says hsays []
    simp [ofItem, Item.content, hfields, ofFields_known hkind hint hrest]
  rw [hpairs.length_eq] at hcount
  obtain ⟨x, hx, hread⟩ := Item.exists_readAs_of_described (Q := fun x => ofItem x = .ok e) hdata
    (fun _ h => ⟨.map pairs, rfl, hmap, Item.readAs_map h hreads hcount⟩) fun _ hx => hx
  have hall := hread []
  rw [List.append_nil] at hall
  simp [decodeAs, Item.ofBytes_of_read hall, hx, Except.mapError]

/-! ## The spelling that is written -/

/-- The entries that are written, each under its key. -/
def written (e : Envelope) : List (Int × Bytes) :=
  (1, Head.write 0 1 ++ Head.write 0 e.kind.toNat) ::
    ((if e.int = 0 then [] else [(2, Head.write 0 2 ++ writeInt e.int)]) ++
      if e.bytes = [] then [] else [(3, Head.write 0 3 ++ (Head.write 2 e.bytes.length ++ e.bytes))])

theorem write_eq (e : Envelope) :
    e.write = Head.write 5 e.written.length ++ (e.written.map Prod.snd).flatten := by
  by_cases hint : e.int = 0 <;> by_cases hbytes : e.bytes = [] <;>
    simp [write, entryCount, writeIntEntry, writeBytesEntry, written, hint, hbytes]

theorem spellsEntry_of_mem_written (hbytes : e.bytes.length < Item.lengthLimit) {entry : Int × Bytes}
    (h : entry ∈ e.written) : SpellsEntry e entry.1 entry.2 := by
  have hkind : e.kind.toNat < 0x10000000000000000 := Nat.lt_trans e.kind.toNat_lt (by decide)
  have hlength := Item.lt_of_lt_lengthLimit hbytes
  simp only [written, List.mem_cons, List.mem_append, List.mem_ite_nil_left, List.not_mem_nil, or_false] at h
  rcases h with rfl | ⟨-, rfl⟩ | ⟨-, rfl⟩
  · exact .kind (Head.spells_write (n := 1) (by decide) 0) (.bare (Head.spells_write hkind 0))
  · exact .int (Head.spells_write (n := 2) (by decide) 0) (.bare (spellsInt_writeInt e.int))
  · exact .bytes (Head.spells_write (n := 3) (by decide) 0) (.bare (.definite (Head.spells_write hlength 2)))

theorem spells_write (hbytes : e.bytes.length < Item.lengthLimit) : e.Spells e.write := by
  have hcount : e.written.length ≤ 3 := by
    by_cases hint : e.int = 0 <;> by_cases hstring : e.bytes = [] <;> simp [written, hint, hstring]
  refine ⟨e.written, Nat.le_trans hcount (by decide), fun _ => spellsEntry_of_mem_written hbytes, ?_, ?_, ?_, ?_⟩
  · simp [written]
  · by_cases hint : e.int = 0 <;> simp [written, hint]
  · by_cases hstring : e.bytes = [] <;> simp [written, hstring]
  · have hhead : Head.Spells 5 (e.written.map Prod.snd).length (Head.write 5 e.written.length) := by
      rw [List.length_map]
      exact Head.spells_write (by omega) 5
    rw [write_eq]
    exact .bare (.definite hhead)

end Envelope

/-- **Decoding does not depend on the spelling.** However the envelope of a value is spelt, decoding gives what
it gives for the encoding of that value, which is a spelling too: a value of the same content. -/
theorem unmarshal_of_spells (fresh : Nat) (v : Value) (hv : v.size < 0x8000000000000000) :
    (Envelope.ofValue v).Spells (marshal v) ∧
    ∀ data, (Envelope.ofValue v).Spells data →
      unmarshal fresh data = unmarshal fresh (marshal v) ∧
      ∃ w fresh', unmarshal fresh data = .ok (w, fresh') ∧ v.equal w = true := by
  have hbytes : (Envelope.ofValue v).bytes.length < Item.lengthLimit := by rwa [Envelope.bytes_ofValue]
  refine ⟨Envelope.spells_write hbytes, fun data h => ?_⟩
  have hok : unmarshal fresh data = .ok (Envelope.copy fresh v) := by
    rw [unmarshal_of_decoded (Envelope.decodeAs_of_spells h hbytes), Envelope.toValue_ofValue]
  exact ⟨by rw [hok, unmarshal_marshal_eq fresh hv], _, _, hok, Envelope.equal_copy fresh v⟩

/-- A string under a self-describing tag, in a map of open length: first its bytes, in two chunks and with a
key of two bytes, then an array under -1, the kind in eight bytes and a zero that could be left out. -/
def looseString : Bytes :=
  [0xd9, 0xd9, 0xf7, 0xbf, 0x18, 0x03, 0xd9, 0xd9, 0xf7, 0x5f, 0x41, 0x61, 0x42, 0x62, 0x63, 0xff,
    0x20, 0x82, 0x01, 0xf6, 0x01, 0x1b, 0, 0, 0, 0, 0, 0, 0, 0x03, 0x02, 0x00, 0xff]

theorem unmarshal_of_spells_looseString :
    (Envelope.ofValue (.string 0 [0x61, 0x62, 0x63])).Spells looseString ∧
    unmarshal 7 looseString = unmarshal 7 (marshal (.string 0 [0x61, 0x62, 0x63])) ∧
    ∃ w fresh', unmarshal 7 looseString = .ok (w, fresh') ∧ Value.equal (.string 0 [0x61, 0x62, 0x63]) w = true := by
  have hsmall : ∀ major n, n < 24 → Head.Spells major n [(major * 32 + n).toUInt8] := fun major n hn =>
    ⟨n, .inl ⟨hn, rfl⟩, by simp [Head.spell, hn]⟩
  have htag : Head.Spells 6 selfDescribing [0xd9, 0xd9, 0xf7] := ⟨25, .inr ⟨by omega, by omega, by decide⟩, rfl⟩
  have hthree : SpellsInt 3 [0x18, 0x03] := ⟨24, .inr ⟨by omega, by omega, by decide⟩, rfl⟩
  have hkind : SpellsInt 3 [0x1b, 0, 0, 0, 0, 0, 0, 0, 0x03] := ⟨27, .inr ⟨by omega, by omega, by decide⟩, rfl⟩
  have hlast : SpellsChunks [0x62, 0x63] [0x42, 0x62, 0x63, 0xff] :=
    @SpellsChunks.chunk _ [0x62, 0x63] _ _ (hsmall 2 2 (by omega)) .stop
  have hchunks : SpellsChunks [0x61, 0x62, 0x63] [0x41, 0x61, 0x42, 0x62, 0x63, 0xff] :=
    @SpellsChunks.chunk _ [0x61] _ _ (hsmall 2 1 (by omega)) hlast
  have hspells : (Envelope.ofValue (.string 0 [0x61, 0x62, 0x63])).Spells looseString := by
    refine ⟨[(3, [0x18, 0x03, 0xd9, 0xd9, 0xf7, 0x5f, 0x41, 0x61, 0x42, 0x62, 0x63, 0xff]),
      (-1, [0x20, 0x82, 0x01, 0xf6]), (1, [0x01, 0x1b, 0, 0, 0, 0, 0, 0, 0, 0x03]), (2, [0x02, 0x00])],
      by decide, ?_, by decide, by decide, by decide, .tagged htag .indefinite⟩
    simp only [List.forall_mem_cons, List.not_mem_nil, false_imp_iff, implies_true, and_true]
    refine ⟨.bytes hthree (.tagged htag (.chunked hchunks)), ?_, ?_, ?_⟩
    · exact @SpellsEntry.other _ (-1) [0x20] [0x82, 0x01, 0xf6] (.array [.unsigned 1, .simple 22]) (by decide)
        (by decide) (by decide) (by decide) (by decide) (hsmall 1 0 (by omega)) rfl (by decide)
    · exact .kind (hsmall 0 1 (by omega)) (.bare hkind)
    · exact .int (hsmall 0 2 (by omega)) (.bare (hsmall 0 0 (by omega)))
  exact ⟨hspells, (unmarshal_of_spells 7 _ (by decide)).2 _ hspells⟩

end Dispatch.Wire
