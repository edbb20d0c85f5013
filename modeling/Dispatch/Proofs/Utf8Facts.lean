/-
UTF-8 is read back as it was written, and nothing else is read: a character stands at the front of a byte string just
when its bytes do (`decode_eq_some_iff`). So a byte string is the bytes of its pieces, one after the other, and what
was written from characters is read as those characters.
-/
import Dispatch.Text.Utf8

namespace Dispatch.Text.Utf8

variable {bs rest : Bytes} {c : Char} {n : Nat}

theorem toNat_charOfNat (h : n.isValidChar) : (Char.ofNat n).toNat = n := by
  rw [Char.ofNat, dif_pos h]
  rfl

theorem isValidChar_toNat (c : Char) : c.toNat.isValidChar := c.valid

theorem toNat_lt (c : Char) : c.toNat < 0x110000 := by
  have h := isValidChar_toNat c
  unfold Nat.isValidChar at h
  omega

theorem scalar?_toNat {least : Nat} (h : least ≤ c.toNat) : scalar? least c.toNat = some c := by
  rw [scalar?, if_pos ⟨h, isValidChar_toNat c⟩, Char.ofNat_toNat]

theorem scalar?_eq_some {least : Nat} (h : scalar? least n = some c) : least ≤ n ∧ c.toNat = n := by
  unfold scalar? at h
  split at h
  · next hn =>
    cases h
    exact ⟨hn.1, toNat_charOfNat hn.2⟩
  · cases h

/-! ## The four forms -/

theorem encode_eq (c : Char) : encode c =
    if c.toNat ≤ 0x7f then [UInt8.ofNat c.toNat]
    else if c.toNat ≤ 0x7ff then [UInt8.ofNat (c.toNat / 64 % 32 + 192), UInt8.ofNat (c.toNat % 64 + 128)]
    else if c.toNat ≤ 0xffff then
      [UInt8.ofNat (c.toNat / 4096 % 16 + 224), UInt8.ofNat (c.toNat / 64 % 64 + 128), UInt8.ofNat (c.toNat % 64 + 128)]
    else
      [UInt8.ofNat (c.toNat / 262144 % 8 + 240), UInt8.ofNat (c.toNat / 4096 % 64 + 128),
        UInt8.ofNat (c.toNat / 64 % 64 + 128), UInt8.ofNat (c.toNat % 64 + 128)] := rfl

theorem isContinuation_iff {b : UInt8} : isContinuation b = true ↔ 0x80 ≤ b.toNat ∧ b.toNat < 0xc0 := by
  simp [isContinuation, UInt8.le_iff_toNat_le, UInt8.lt_iff_toNat_lt]

theorem toNat_byteOfNat (h : n < 256) : (UInt8.ofNat n).toNat = n := UInt8.toNat_ofNat_of_lt' h

/-- The byte that carries six bits is a continuation and carries them. -/
theorem isContinuation_ofNat (n : Nat) : isContinuation (UInt8.ofNat (n % 64 + 128)) = true := by
  rw [isContinuation_iff, toNat_byteOfNat (by omega)]
  omega

theorem low6_ofNat (n : Nat) : low6 (UInt8.ofNat (n % 64 + 128)) = n % 64 := by
  have h := toNat_byteOfNat (n := n % 64 + 128) (by omega)
  unfold low6
  omega

section

variable {a b d e : UInt8}

theorem lt_of_toNat (bound : Nat) (hbound : bound < 256) (h : a.toNat < bound) : a < UInt8.ofNat bound := by
  rwa [UInt8.lt_iff_toNat_lt, toNat_byteOfNat hbound]

theorem not_lt_of_toNat (bound : Nat) (hbound : bound < 256) (h : bound ≤ a.toNat) : ¬ a < UInt8.ofNat bound := by
  rw [UInt8.lt_iff_toNat_lt, toNat_byteOfNat hbound]
  omega

theorem decode_one (ha : a.toNat < 0x80) (rest : Bytes) : decode (a :: rest) = some (Char.ofNat a.toNat, rest) := by
  have h1 : a < 0x80 := lt_of_toNat 0x80 (by decide) ha
  unfold decode
  exact if_pos h1

theorem decode_two (ha : 0xc0 ≤ a.toNat) (ha' : a.toNat < 0xe0) (hb : isContinuation b = true) (rest : Bytes) :
    decode (a :: b :: rest) = (scalar? 0x80 ((a.toNat - 0xc0) * 0x40 + low6 b)).map (·, rest) := by
  have h1 : ¬ a < 0x80 := not_lt_of_toNat 0x80 (by decide) (by omega)
  have h2 : ¬ a < 0xc0 := not_lt_of_toNat 0xc0 (by decide) ha
  have h3 : a < 0xe0 := lt_of_toNat 0xe0 (by decide) ha'
  unfold decode
  simp only [h1, h2, h3, hb, if_true, if_false]

theorem decode_three (ha : 0xe0 ≤ a.toNat) (ha' : a.toNat < 0xf0) (hb : isContinuation b = true)
    (hd : isContinuation d = true) (rest : Bytes) : decode (a :: b :: d :: rest) =
      (scalar? 0x800 ((a.toNat - 0xe0) * 0x1000 + low6 b * 0x40 + low6 d)).map (·, rest) := by
  have h1 : ¬ a < 0x80 := not_lt_of_toNat 0x80 (by decide) (by omega)
  have h2 : ¬ a < 0xc0 := not_lt_of_toNat 0xc0 (by decide) (by omega)
  have h3 : ¬ a < 0xe0 := not_lt_of_toNat 0xe0 (by decide) ha
  have h4 : a < 0xf0 := lt_of_toNat 0xf0 (by decide) ha'
  unfold decode
  simp only [h1, h2, h3, h4, hb, hd, Bool.and_self, if_true, if_false]

theorem decode_four (ha : 0xf0 ≤ a.toNat) (ha' : a.toNat < 0xf8) (hb : isContinuation b = true)
    (hd : isContinuation d = true) (he : isContinuation e = true) (rest : Bytes) : decode (a :: b :: d :: e :: rest) =
      (scalar? 0x10000 ((a.toNat - 0xf0) * 0x40000 + low6 b * 0x1000 + low6 d * 0x40 + low6 e)).map (·, rest) := by
  have h1 : ¬ a < 0x80 := not_lt_of_toNat 0x80 (by decide) (by omega)
  have h2 : ¬ a < 0xc0 := not_lt_of_toNat 0xc0 (by decide) (by omega)
  have h3 : ¬ a < 0xe0 := not_lt_of_toNat 0xe0 (by decide) (by omega)
  have h4 : ¬ a < 0xf0 := not_lt_of_toNat 0xf0 (by decide) ha
  have h5 : a < 0xf8 := lt_of_toNat 0xf8 (by decide) ha'
  unfold decode
  simp only [h1, h2, h3, h4, h5, hb, hd, he, Bool.and_self, if_true, if_false]

end

/-- A character is read back from its bytes, in front of any rest. -/
theorem decode_encode (c : Char) (rest : Bytes) : decode (encode c ++ rest) = some (c, rest) := by
  have hmax := toNat_lt c
  rw [encode_eq]
  split
  · have hfirst := toNat_byteOfNat (n := c.toNat) (by omega)
    rw [List.singleton_append, decode_one (by omega), hfirst, Char.ofNat_toNat]
  split
  · have hfirst := toNat_byteOfNat (n := c.toNat / 64 % 32 + 192) (by omega)
    have hnumber : (c.toNat / 64 % 32 + 192 - 0xc0) * 0x40 + c.toNat % 64 = c.toNat := by omega
    rw [List.cons_append, List.singleton_append, decode_two (by omega) (by omega) (isContinuation_ofNat _), low6_ofNat,
      hfirst, hnumber, scalar?_toNat (by omega)]
    rfl
  split
  · have hfirst := toNat_byteOfNat (n := c.toNat / 4096 % 16 + 224) (by omega)
    have hnumber : (c.toNat / 4096 % 16 + 224 - 0xe0) * 0x1000 + c.toNat / 64 % 64 * 0x40 + c.toNat % 64 = c.toNat := by
      omega
    rw [List.cons_append, List.cons_append, List.singleton_append,
      decode_three (by omega) (by omega) (isContinuation_ofNat _) (isContinuation_ofNat _), low6_ofNat, low6_ofNat,
      hfirst, hnumber, scalar?_toNat (by omega)]
    rfl
  · have hfirst := toNat_byteOfNat (n := c.toNat / 262144 % 8 + 240) (by omega)
    have hnumber : (c.toNat / 262144 % 8 + 240 - 0xf0) * 0x40000 + c.toNat / 4096 % 64 * 0x1000 +
        c.toNat / 64 % 64 * 0x40 + c.toNat % 64 = c.toNat := by omega
    rw [List.cons_append, List.cons_append, List.cons_append, List.singleton_append,
      decode_four (by omega) (by omega) (isContinuation_ofNat _) (isContinuation_ofNat _) (isContinuation_ofNat _),
      low6_ofNat, low6_ofNat, low6_ofNat, hfirst, hnumber, scalar?_toNat (by omega)]
    rfl

/-! ## Nothing but the shortest form is read -/

section

variable {a b d e : UInt8}

theorem byteOfNat_eq (h : n = a.toNat) : UInt8.ofNat n = a := by
  rw [h, UInt8.ofNat_toNat]

theorem encode_one (ha : a.toNat < 0x80) : encode (Char.ofNat a.toNat) = [a] := by
  have hvalid : a.toNat.isValidChar := .inl (by omega)
  rw [encode_eq, toNat_charOfNat hvalid, if_pos (by omega), byteOfNat_eq rfl]

theorem encode_two (ha : 0xc0 ≤ a.toNat) (ha' : a.toNat < 0xe0) (hb : isContinuation b = true)
    (h : scalar? 0x80 ((a.toNat - 0xc0) * 0x40 + low6 b) = some c) : encode c = [a, b] := by
  obtain ⟨hleast, hc⟩ := scalar?_eq_some h
  rw [isContinuation_iff] at hb
  unfold low6 at hleast hc
  rw [encode_eq, if_neg (by omega), if_pos (by omega), byteOfNat_eq (a := a) (by omega),
    byteOfNat_eq (a := b) (by omega)]

theorem encode_three (ha : 0xe0 ≤ a.toNat) (ha' : a.toNat < 0xf0) (hb : isContinuation b = true)
    (hd : isContinuation d = true)
    (h : scalar? 0x800 ((a.toNat - 0xe0) * 0x1000 + low6 b * 0x40 + low6 d) = some c) : encode c = [a, b, d] := by
  obtain ⟨hleast, hc⟩ := scalar?_eq_some h
  rw [isContinuation_iff] at hb hd
  unfold low6 at hleast hc
  rw [encode_eq, if_neg (by omega), if_neg (by omega), if_pos (by omega), byteOfNat_eq (a := a) (by omega),
    byteOfNat_eq (a := b) (by omega), byteOfNat_eq (a := d) (by omega)]

theorem encode_four (ha : 0xf0 ≤ a.toNat) (ha' : a.toNat < 0xf8) (hb : isContinuation b = true)
    (hd : isContinuation d = true) (he : isContinuation e = true)
    (h : scalar? 0x10000 ((a.toNat - 0xf0) * 0x40000 + low6 b * 0x1000 + low6 d * 0x40 + low6 e) = some c) :
    encode c = [a, b, d, e] := by
  obtain ⟨hleast, hc⟩ := scalar?_eq_some h
  rw [isContinuation_iff] at hb hd he
  unfold low6 at hleast hc
  rw [encode_eq, if_neg (by omega), if_neg (by omega), if_neg (by omega), byteOfNat_eq (a := a) (by omega),
    byteOfNat_eq (a := b) (by omega), byteOfNat_eq (a := d) (by omega), byteOfNat_eq (a := e) (by omega)]

end

theorem map_scalar?_eq_some {least : Nat} {rest' : Bytes}
    (h : (scalar? least n).map (·, rest') = some (c, rest)) : scalar? least n = some c ∧ rest' = rest := by
  obtain ⟨c', hc', heq⟩ := Option.map_eq_some_iff.mp h
  obtain ⟨rfl, rfl⟩ := Prod.mk.inj heq
  exact ⟨hc', rfl⟩

theorem eq_encode_of_decode (h : decode bs = some (c, rest)) : bs = encode c ++ rest := by
  unfold decode at h
  split at h
  · cases h
  next a rest' =>
  -- The lead byte tells the form: `h1` to `h5` say below which bounds it lies.
  simp only [UInt8.lt_iff_toNat_lt, UInt8.reduceToNat] at h
  split at h
  next h1 =>
    cases h
    rw [encode_one h1, List.singleton_append]
  next h1 =>
  split at h
  · cases h
  next h2 =>
  split at h
  next h3 =>
    split at h
    next b rest' =>
      split at h
      next hb =>
        obtain ⟨hc, rfl⟩ := map_scalar?_eq_some h
        rw [encode_two (by omega) h3 hb hc]
        rfl
      · cases h
    · cases h
  next h3 =>
  split at h
  next h4 =>
    split at h
    next b d rest' =>
      split at h
      next hcont =>
        rw [Bool.and_eq_true] at hcont
        obtain ⟨hc, rfl⟩ := map_scalar?_eq_some h
        rw [encode_three (by omega) h4 hcont.1 hcont.2 hc]
        rfl
      · cases h
    · cases h
  next h4 =>
  split at h
  next h5 =>
    split at h
    next b d e rest' =>
      split at h
      next hcont =>
        rw [Bool.and_eq_true, Bool.and_eq_true] at hcont
        obtain ⟨hc, rfl⟩ := map_scalar?_eq_some h
        rw [encode_four (by omega) h5 hcont.1.1 hcont.1.2 hcont.2 hc]
        rfl
      · cases h
    · cases h
  · cases h

/-- A character stands at the front just when its bytes do. -/
theorem decode_eq_some_iff : decode bs = some (c, rest) ↔ bs = encode c ++ rest := by
  constructor
  · exact eq_encode_of_decode
  · intro h
    rw [h, decode_encode]

/-! ## Whole byte strings -/

theorem pieces_encode (c : Char) (rest : Bytes) : pieces (encode c ++ rest) = .char c :: pieces rest := by
  have hdecode := decode_encode c rest
  cases hbs : encode c ++ rest with
  | nil =>
    rw [hbs] at hdecode
    cases hdecode
  | cons b bs =>
    rw [hbs] at hdecode
    rw [pieces]
    split
    next c' rest' hc' =>
      rw [hdecode] at hc'
      cases hc'
      rfl
    next hnone =>
      rw [hdecode] at hnone
      cases hnone

/-- A byte string is the bytes of its pieces. -/
theorem flatMap_bytes_pieces (bs : Bytes) : (pieces bs).flatMap Piece.bytes = bs := by
  induction bs using pieces.induct with
  | case1 => rw [pieces, List.flatMap_nil]
  | case2 b bs c rest hdecode ih =>
    rw [decode_eq_some_iff.mp hdecode, pieces_encode, List.flatMap_cons, ih]
    rfl
  | case3 b bs hdecode ih =>
    have hpieces : pieces (b :: bs) = .stray b :: pieces bs := by
      rw [pieces]
      split
      next hsome =>
        rw [hdecode] at hsome
        cases hsome
      next => rfl
    rw [hpieces, List.flatMap_cons, ih]
    rfl

/-- Characters that were written are read back. -/
theorem pieces_encodeAll (cs : List Char) : pieces (encodeAll cs) = cs.map .char := by
  induction cs with
  | nil => rw [encodeAll, List.flatMap_nil, pieces, List.map_nil]
  | cons c cs ih =>
    rw [encodeAll, List.flatMap_cons, pieces_encode, List.map_cons]
    exact congrArg _ ih

theorem decodeAll?_encodeAll (cs : List Char) : decodeAll? (encodeAll cs) = some cs := by
  rw [decodeAll?, pieces_encodeAll]
  induction cs with
  | nil => rfl
  | cons c cs ih =>
    rw [List.map_cons, List.mapM_cons, ih]
    rfl

theorem isValid_encodeAll (cs : List Char) : isValid (encodeAll cs) = true := by
  rw [isValid, pieces_encodeAll, List.all_map, List.all_eq_true]
  intro c _
  rfl

/-! ## ASCII -/

theorem encode_of_lt (h : c.toNat < 0x80) : encode c = [UInt8.ofNat c.toNat] := by
  rw [encode_eq, if_pos (by omega)]

theorem le_toNat_byteOfNat (h : 0x80 ≤ n) (h' : n < 256) : 0x80 ≤ (UInt8.ofNat n).toNat := by
  rwa [toNat_byteOfNat h']

/-- The bytes of a character beyond ASCII are themselves beyond ASCII. -/
theorem le_toNat_of_mem_encode {b : UInt8} (h : 0x80 ≤ c.toNat) (hb : b ∈ encode c) : 0x80 ≤ b.toNat := by
  rw [encode_eq, if_neg (by omega)] at hb
  split at hb
  · simp only [List.mem_cons, List.not_mem_nil, or_false] at hb
    rcases hb with rfl | rfl
    all_goals exact le_toNat_byteOfNat (by omega) (by omega)
  split at hb
  · simp only [List.mem_cons, List.not_mem_nil, or_false] at hb
    rcases hb with rfl | rfl | rfl
    all_goals exact le_toNat_byteOfNat (by omega) (by omega)
  · simp only [List.mem_cons, List.not_mem_nil, or_false] at hb
    rcases hb with rfl | rfl | rfl | rfl
    all_goals exact le_toNat_byteOfNat (by omega) (by omega)

end Dispatch.Text.Utf8
