/-
Every item says where it ends. A reader takes bytes off the front; which ones does not depend on what
follows them, and if only some of them are there the data has been cut short, whatever the place of the
cut (`Takes`). Readers that are put together from such readers are such readers (`Framed.bind` and what
follows it), so the proof for items goes along the definition of the reader.

It comes to this: of data that is one item, every initial part is truncated, and every continuation has
something extraneous. No encoding is the start of another.
-/
import Dispatch.Proofs.RoundTrip

namespace Dispatch.Wire

theorem bind_eq_ok {ε α β : Type} {x : Except ε α} {f : α → Except ε β} {b : β} :
    x >>= f = .ok b ↔ ∃ a, x = .ok a ∧ f a = .ok b := by
  cases x <;> simp

theorem bind_congr_ok {ε α β : Type} {x : Except ε α} {f g : α → Except ε β} (h : ∀ a, x = .ok a → f a = g a) :
    x >>= f = x >>= g := by
  cases x with
  | error e => rfl
  | ok a => exact h a rfl

namespace Item

variable {α β : Type}

/-- The reader takes exactly `used` off the front, as `a`, and asks for more while it has only a part. -/
structure Takes (r : Reader α) (used : Bytes) (a : α) : Prop where
  reads : ∀ rest, r (used ++ rest) = .ok (a, rest)
  cut : ∀ front, front <+: used → front ≠ used → r front = .error .truncated

/-- The reader finds the end of what it reads by itself. -/
def Framed (r : Reader α) : Prop :=
  ∀ bs a rest, r bs = .ok (a, rest) → ∃ used, bs = used ++ rest ∧ Takes r used a

/-! ## Putting readers together -/

section Readers

variable {r : Reader α} {used : Bytes} {a : α}

theorem Takes.ne_nil (h : Takes r used a) (hnil : ∀ p, r [] ≠ .ok p) : used ≠ [] := by
  rintro rfl
  exact hnil _ (h.reads [])

/-- An initial part of two pieces is a part of the first, or the first and a part of the second. -/
theorem prefix_append_cases {front u v : Bytes} (h : front <+: u ++ v) (hne : front ≠ u ++ v) :
    (front <+: u ∧ front ≠ u) ∨ ∃ t, front = u ++ t ∧ t <+: v ∧ t ≠ v := by
  rcases List.prefix_or_prefix_of_prefix h (List.prefix_append u v) with hu | ⟨t, rfl⟩
  · by_cases heq : front = u
    · refine .inr ⟨[], by simp [heq], List.nil_prefix, ?_⟩
      rintro rfl
      simp [heq] at hne
    · exact .inl ⟨hu, heq⟩
  · exact .inr ⟨t, rfl, (List.prefix_append_right_inj u).1 h, fun ht => hne (by rw [ht])⟩

/-- Reading on behind what was taken, where the next step also has the data from its start. -/
theorem Takes.bind {k : Bytes → α × Bytes → Except Malformed (β × Bytes)} {used' : Bytes} {b : β}
    (h : Takes r used a) (hreads : ∀ rest, k (used ++ (used' ++ rest)) (a, used' ++ rest) = .ok (b, rest))
    (hcut : ∀ t, t <+: used' → t ≠ used' → k (used ++ t) (a, t) = .error .truncated) :
    Takes (fun bs => r bs >>= k bs) (used ++ used') b where
  reads rest := by rw [List.append_assoc, h.reads, ok_bind, hreads]
  cut front hfront hne := by
    rcases prefix_append_cases hfront hne with ⟨hpart, hpne⟩ | ⟨t, rfl, ht, htne⟩
    · rw [h.cut front hpart hpne, error_bind]
    · rw [h.reads, ok_bind, hcut t ht htne]

theorem Framed.done (a : α) : Framed fun bs => .ok (a, bs) := by
  intro bs b rest h
  obtain ⟨rfl, rfl⟩ := Prod.mk.inj (Except.ok.inj h)
  refine ⟨[], rfl, fun _ => rfl, fun front hfront hne => ?_⟩
  exact absurd (List.prefix_nil.1 hfront) hne

theorem Framed.fail (m : Malformed) : Framed fun _ => (.error m : Except Malformed (α × Bytes)) := by
  intro bs b rest h
  cases h

theorem Framed.ite {c : Prop} [Decidable c] {r s : Reader α} (hr : Framed r) (hs : Framed s) :
    Framed fun bs => if c then r bs else s bs := by
  by_cases hc : c
  · simpa only [if_pos hc] using hr
  · simpa only [if_neg hc] using hs

theorem Framed.bind {k : α × Bytes → Except Malformed (β × Bytes)} (hr : Framed r)
    (hk : ∀ a, Framed fun bs => k (a, bs)) : Framed fun bs => r bs >>= k := by
  intro bs b rest h
  obtain ⟨⟨a, mid⟩, hread, hnext⟩ := bind_eq_ok.1 h
  obtain ⟨used, rfl, htakes⟩ := hr _ _ _ hread
  obtain ⟨used', rfl, htakes'⟩ := hk a _ _ _ hnext
  exact ⟨used ++ used', by simp, htakes.bind htakes'.reads htakes'.cut⟩

theorem Framed.map (hr : Framed r) (f : α → β) : Framed fun bs => r bs >>= fun p => .ok (f p.1, p.2) :=
  hr.bind fun a => Framed.done (f a)

theorem Framed.length_le (hr : Framed r) {bs rest : Bytes} (h : r bs = .ok (a, rest)) : rest.length ≤ bs.length := by
  obtain ⟨used, rfl, -⟩ := hr _ _ _ h
  simp

theorem Framed.length_lt (hr : Framed r) (hnil : ∀ p, r [] ≠ .ok p) {bs rest : Bytes} (h : r bs = .ok (a, rest)) :
    rest.length < bs.length := by
  obtain ⟨used, rfl, htakes⟩ := hr _ _ _ h
  have hpos := List.length_pos_iff.2 (htakes.ne_nil hnil)
  rw [List.length_append]
  omega

/-- A reader that goes by the first byte and reads on behind it. -/
theorem Framed.byte {k : UInt8 → Reader α} (hnil : r [] = .error .truncated)
    (hcons : ∀ b bs, r (b :: bs) = k b bs) (hk : ∀ b, Framed (k b)) : Framed r := by
  intro bs a rest h
  cases bs with
  | nil => rw [hnil] at h; cases h
  | cons b bs =>
    rw [hcons] at h
    obtain ⟨used, rfl, htakes⟩ := hk b _ _ _ h
    refine ⟨b :: used, rfl, fun more => ?_, fun front hfront hne => ?_⟩
    · rw [List.cons_append, hcons, htakes.reads]
    · rcases List.prefix_cons_iff.1 hfront with rfl | ⟨t, rfl, ht⟩
      · exact hnil
      · rw [hcons]
        exact htakes.cut t ht fun heq => hne (by rw [heq])

/-- A reader that goes by the first byte and leaves it to be read again. -/
theorem Framed.first {k : UInt8 → Reader α} (hnil : r [] = .error .truncated)
    (hcons : ∀ b bs, r (b :: bs) = k b (b :: bs)) (hk : ∀ b, Framed (k b))
    (hnot : ∀ b p, k b [] ≠ .ok p) : Framed r := by
  intro bs a rest h
  cases bs with
  | nil => rw [hnil] at h; cases h
  | cons b bs =>
    rw [hcons] at h
    obtain ⟨used, hbs, htakes⟩ := hk b _ _ _ h
    cases used with
    | nil => exact absurd rfl (htakes.ne_nil (hnot b))
    | cons c used =>
      obtain ⟨rfl, rfl⟩ := List.cons.inj hbs
      refine ⟨b :: used, rfl, fun more => ?_, fun front hfront hne => ?_⟩
      · rw [List.cons_append, hcons, ← List.cons_append, htakes.reads]
      · rcases List.prefix_cons_iff.1 hfront with rfl | ⟨t, rfl, ht⟩
        · exact hnil
        · rw [hcons]
          exact htakes.cut _ hfront hne

/-- A reader that looks ahead and then, if what it sees is so, reads again from the same place. -/
theorem Framed.ahead {look : Reader α} {again : Reader β} {next : α → Reader β} {c : α → Prop} [DecidablePred c]
    (hlook : Framed look) (hagain : Framed again) (hnext : ∀ a, Framed (next a))
    (hshort : ∀ bs, look bs = .error .truncated → again bs = .error .truncated) :
    Framed fun bs => look bs >>= fun p => if c p.1 then again bs else next p.1 p.2 := by
  intro bs b rest h
  obtain ⟨⟨a, mid⟩, hread, hchoice⟩ := bind_eq_ok.1 h
  obtain ⟨seen, rfl, htakes⟩ := hlook _ _ _ hread
  dsimp only at hchoice
  split at hchoice
  next hc =>
    obtain ⟨used, hused, htakes'⟩ := hagain _ _ _ hchoice
    -- What is read again holds all that was seen: cut short of that it could not be read.
    have hpre : seen <+: used := by
      rcases List.prefix_or_prefix_of_prefix (List.prefix_append seen mid) ⟨rest, hused.symm⟩ with hle | hle
      · exact hle
      · by_contra hnot
        have hne : used ≠ seen := fun heq => hnot (heq ▸ List.prefix_rfl)
        have hcut := hshort used (htakes.cut used hle hne)
        have hall := htakes'.reads []
        rw [List.append_nil, hcut] at hall
        cases hall
    obtain ⟨tail, rfl⟩ := hpre
    refine ⟨seen ++ tail, hused, htakes.bind (fun more => ?_) (fun t ht hne => ?_)⟩
    · rw [if_pos hc, ← List.append_assoc, htakes'.reads]
    · rw [if_pos hc]
      exact htakes'.cut _ ((List.prefix_append_right_inj seen).2 ht) fun heq => hne (List.append_cancel_left heq)
  next hc =>
    obtain ⟨used, rfl, htakes'⟩ := hnext a _ _ _ hchoice
    refine ⟨seen ++ used, by simp, htakes.bind (fun more => ?_) (fun t ht hne => ?_)⟩
    · rw [if_neg hc, htakes'.reads]
    · rw [if_neg hc, htakes'.cut t ht hne]

end Readers

/-! ## Heads and strings -/

/-- The first `n` bytes. -/
def exactly (n : Nat) : Reader Bytes := fun bs =>
  match Head.takeExactly n bs with
  | some result => .ok result
  | none => .error .truncated

theorem framed_exactly (n : Nat) : Framed (exactly n) := by
  intro bs front rest h
  unfold exactly at h
  split at h
  next result htake =>
    obtain rfl := Except.ok.inj h
    obtain ⟨rfl, hlength⟩ := Head.takeExactly_eq_some htake
    refine ⟨front, rfl, fun more => ?_, fun part hpart hne => ?_⟩
    · rw [exactly, Head.takeExactly_append hlength]
    · have hshort : part.length < n := by
        have hle := hpart.length_le
        have hlt : part.length ≠ front.length := fun heq => hne (hpart.eq_of_length heq)
        omega
      rw [exactly, Head.takeExactly_of_short hshort]
  next => cases h

theorem framed_readString (length : Nat) : Framed (readString length) :=
  Framed.ite (Framed.fail _) (framed_exactly length)

theorem Framed.argument (n : Nat) {k : Bytes → Reader α} (hk : ∀ front, Framed (k front)) :
    Framed fun bs =>
      match Head.takeExactly n bs with
      | none => .error .truncated
      | some (front, rest) => k front rest := by
  convert (framed_exactly n).bind (k := fun p => k p.1 p.2) hk using 2 with bs
  unfold exactly
  cases Head.takeExactly n bs <;> rfl

theorem framed_readHead : Framed Head.read := by
  refine Framed.byte (k := fun b rest => Head.read (b :: rest)) rfl (fun _ _ => rfl) fun b => ?_
  refine Framed.ite (Framed.done _) (Framed.ite ?_ (Framed.ite (Framed.done _) (Framed.fail _)))
  exact Framed.argument _ fun front => Framed.ite (Framed.fail _) (Framed.done _)

/-! ## Up to the break -/

/-- The end of something, marked by one byte. -/
def past (a : α) : Reader α
  | [] => .error .truncated
  | _ :: bs => .ok (a, bs)

theorem framed_past (a : α) : Framed (past a) :=
  Framed.byte (k := fun _ bs => .ok (a, bs)) rfl (fun _ _ => rfl) fun _ => Framed.done a

/-- A reader that stops at the break and goes on with `r` otherwise. -/
theorem Framed.untilBreak {r s : Reader α} {a : α} (hnil : s [] = .error .truncated)
    (hcons : ∀ b bs, s (b :: bs) = if b = breakByte then .ok (a, bs) else r (b :: bs)) (hr : Framed r)
    (hempty : ∀ p, r [] ≠ .ok p) : Framed s := by
  refine Framed.first (k := fun b bs => if b = breakByte then past a bs else r bs) hnil hcons
    (fun b => Framed.ite (framed_past a) hr) fun b p => ?_
  split
  · exact fun h => nomatch h
  · exact hempty p

theorem framed_readChunks (major most : Nat) : Framed (readChunks major most) := by
  induction most with
  | zero => exact Framed.byte (k := fun _ _ => .error .truncated) rfl (fun _ _ => rfl) fun _ => Framed.fail _
  | succ most ih =>
    refine Framed.first (k := fun b bs => if b = breakByte then past [] bs
      else if b.toNat / 32 ≠ major ∨ b.toNat % 32 = 31 then .error .illFormed
      else Head.read bs >>= fun head => readString head.1.arg head.2 >>= fun chunk =>
        readChunks major most chunk.2 >>= fun chunks => .ok (chunk.1 :: chunks.1, chunks.2))
      rfl (fun b bs => rfl) (fun b => ?_) (fun b p => ?_)
    · refine Framed.ite (framed_past _) (Framed.ite (Framed.fail _) ?_)
      exact framed_readHead.bind fun head => (framed_readString head.arg).bind fun chunk =>
        ih.bind (k := fun chunks => .ok (chunk :: chunks.1, chunks.2)) fun chunks => Framed.done (chunk :: chunks)
    · split
      · exact fun h => nomatch h
      split
      · exact fun h => nomatch h
      · exact fun h => nomatch h

/-- There are no more chunks than bytes, so any bound from there on is as good. -/
theorem readChunks_eq {major : Nat} {most most' : Nat} {bs : Bytes} (h : bs.length ≤ most) (h' : bs.length ≤ most') :
    readChunks major most bs = readChunks major most' bs := by
  induction most generalizing most' bs with
  | zero =>
    obtain rfl := List.length_eq_zero_iff.1 (Nat.le_zero.1 h)
    cases most' <;> rfl
  | succ most ih =>
    cases bs with
    | nil => cases most' <;> rfl
    | cons b bs =>
      cases most' with
      | zero => simp at h'
      | succ most' =>
        simp only [readChunks]
        split
        · rfl
        split
        · rfl
        refine bind_congr_ok fun ⟨head, mid⟩ hhead => bind_congr_ok fun ⟨chunk, rest⟩ hchunk => ?_
        have hlt := framed_readHead.length_lt (fun _ => nofun) hhead
        have hle : rest.length ≤ mid.length := (framed_readString head.arg).length_le hchunk
        have hrest : readChunks major most rest = readChunks major most' rest := by
          rw [List.length_cons] at h h' hlt
          exact ih (by omega) (by omega)
        simp only [hrest]

theorem framed_readText (head : Head) : Framed (readText head) := by
  refine Framed.ite ?_ ((framed_readString head.arg).bind fun chunk => Framed.done _)
  intro bs chunks rest h
  -- One bound that is enough for the data and any other data stands in for the length of each.
  have hbound : ∀ most, bs.length ≤ most →
      ∃ used, bs = used ++ rest ∧ Takes (readChunks head.major most) used chunks := fun most hmost =>
    framed_readChunks head.major most _ _ _ ((readChunks_eq hmost Nat.le.refl).trans h)
  obtain ⟨used, rfl, htakes⟩ := hbound _ Nat.le.refl
  refine ⟨used, rfl, fun more => ?_, fun front hfront hne => ?_⟩
  · obtain ⟨used', hused, htakes'⟩ := hbound ((used ++ rest).length + more.length) (by omega)
    obtain rfl := List.append_cancel_right hused
    rw [readChunks_eq Nat.le.refl, htakes'.reads]
    simp only [List.length_append]
    omega
  · have hle := hfront.length_le
    rw [readChunks_eq Nat.le.refl, htakes.cut front hfront hne]
    simp only [List.length_append]
    omega

/-! ## Items in a row -/

section Rows

variable {item : Reader Item}

theorem framed_readMany (h : Framed item) (count : Nat) : Framed (readMany item count) := by
  induction count with
  | zero => exact Framed.done _
  | succ count ih => exact h.bind fun x => ih.bind fun xs => Framed.done _

theorem framed_readPairs (h : Framed item) (count : Nat) : Framed (readPairs item count) := by
  induction count with
  | zero => exact Framed.done _
  | succ count ih => exact h.bind fun key => h.bind fun value => ih.bind fun pairs => Framed.done _

theorem framed_readUntilBreak (h : Framed item) (hempty : item [] = .error .truncated) (left : Nat) :
    Framed (readUntilBreak item left) := by
  induction left with
  | zero =>
    refine Framed.untilBreak (by rw [readUntilBreak]) (fun b bs => by rw [readUntilBreak])
      (h.bind fun x => Framed.fail _) ?_
    simp [hempty]
  | succ left ih =>
    refine Framed.untilBreak (by rw [readUntilBreak]) (fun b bs => by rw [readUntilBreak]) (h.bind fun x => ?_) ?_
    · exact ih.bind fun xs => Framed.done _
    · simp [hempty]

theorem framed_readValue (h : Framed item) (hempty : item [] = .error .truncated) : Framed (readValue item) := by
  refine Framed.first (k := fun b bs => if b = breakByte then .error .illFormed else item bs) rfl
    (fun b bs => rfl) (fun b => Framed.ite (Framed.fail _) h) fun b p => ?_
  split
  · exact nofun
  · simp [hempty]

theorem framed_readPairsUntilBreak (h : Framed item) (hempty : item [] = .error .truncated) (left : Nat) :
    Framed (readPairsUntilBreak item left) := by
  induction left with
  | zero =>
    refine Framed.untilBreak (by rw [readPairsUntilBreak]) (fun b bs => by rw [readPairsUntilBreak])
      (h.bind fun key => (framed_readValue h hempty).bind fun value => Framed.fail _) ?_
    simp [hempty]
  | succ left ih =>
    refine Framed.untilBreak (by rw [readPairsUntilBreak]) (fun b bs => by rw [readPairsUntilBreak])
      (h.bind fun key => (framed_readValue h hempty).bind fun value => ?_) ?_
    · exact ih.bind fun pairs => Framed.done _
    · simp [hempty]

theorem framed_readElements (h : Framed item) (hempty : item [] = .error .truncated) (head : Head) :
    Framed (readElements item head) :=
  Framed.ite (framed_readUntilBreak h hempty _)
    (Framed.ite (Framed.fail _) (Framed.ite (Framed.fail _) (framed_readMany h _)))

theorem framed_readEntries (h : Framed item) (hempty : item [] = .error .truncated) (head : Head) :
    Framed (readEntries item head) :=
  Framed.ite (framed_readPairsUntilBreak h hempty _)
    (Framed.ite (Framed.fail _) (Framed.ite (Framed.fail _) (framed_readPairs h _)))

end Rows

/-! ## Items -/

theorem framed_readAfter {inner : Option (Reader Item)}
    (h : ∀ item, inner = some item → Framed item ∧ item [] = .error .truncated) (head : Head) :
    Framed (readAfter inner head) := by
  unfold readAfter
  split
  · exact Framed.done _
  · exact Framed.done _
  · exact (framed_readText head).bind fun chunks => Framed.done _
  · exact (framed_readText head).bind fun chunks => Framed.done _
  · cases inner with
    | none => exact Framed.fail _
    | some item =>
      obtain ⟨hitem, hempty⟩ := h item rfl
      exact (framed_readElements hitem hempty head).bind fun items => Framed.done _
  · cases inner with
    | none => exact Framed.fail _
    | some item =>
      obtain ⟨hitem, hempty⟩ := h item rfl
      exact (framed_readEntries hitem hempty head).bind fun pairs => Framed.done _
  · exact Framed.done _
  · exact Framed.fail _

/-- A reader of items begins with a head. -/
theorem read_of_error {levels : Nat} {bs : Bytes} {m : Malformed} (h : Head.read bs = .error m) :
    read levels bs = .error m := by
  simp [read_eq, readWith, h]

theorem framed_readWith {inner : Option (Reader Item)}
    (h : ∀ item, inner = some item → Framed item ∧ ∀ bs m, Head.read bs = .error m → item bs = .error m) :
    Framed (readWith inner) := by
  have hinner : ∀ item, inner = some item → Framed item ∧ item [] = .error .truncated := fun item hitem =>
    ⟨(h item hitem).1, (h item hitem).2 [] _ rfl⟩
  refine framed_readHead.bind fun head => Framed.ite ?_ (framed_readAfter hinner head)
  cases inner with
  | none =>
    dsimp only
    refine framed_readHead.bind fun next => ?_
    exact Framed.ite (c := next.major = 6) (Framed.fail _) ((framed_readAfter hinner next).map (tag head.arg))
  | some item =>
    obtain ⟨hitem, hstart⟩ := h item rfl
    refine Framed.ahead (c := fun next : Head => next.major = 6) framed_readHead (hitem.map (tag head.arg))
      (fun next => (framed_readAfter hinner next).map (tag head.arg)) fun bs hshort => ?_
    simp [hstart bs _ hshort]

theorem framed_read (levels : Nat) : Framed (read levels) := by
  induction levels with
  | zero => exact framed_readWith nofun
  | succ levels ih =>
    refine framed_readWith fun item hitem => ?_
    obtain rfl := Option.some.inj hitem
    exact ⟨ih, fun bs m hm => read_of_error hm⟩

/-! ## Data that is one item -/

theorem read_of_ofBytes {data : Bytes} {item : Item} (h : ofBytes data = .ok item) :
    read maxLevels data = .ok (item, []) := by
  unfold ofBytes at h
  split at h
  · cases h
  obtain ⟨⟨x, rest⟩, hread, hend⟩ := bind_eq_ok.1 h
  dsimp only at hend
  split at hend
  next hrest =>
    obtain rfl := Except.ok.inj hend
    rwa [List.isEmpty_iff.1 hrest] at hread
  next => cases hend

theorem takes_of_ofBytes {data : Bytes} {item : Item} (h : ofBytes data = .ok item) :
    Takes (read maxLevels) data item := by
  obtain ⟨used, hused, htakes⟩ := framed_read maxLevels _ _ _ (read_of_ofBytes h)
  rwa [hused, List.append_nil]

theorem ofBytes_cut {data front : Bytes} {item : Item} (h : ofBytes data = .ok item) (hfront : front <+: data)
    (hne : front ≠ data) (hsome : front ≠ []) : ofBytes front = .error .truncated :=
  ofBytes_of_error hsome ((takes_of_ofBytes h).cut front hfront hne)

theorem ofBytes_extended {data more : Bytes} {item : Item} (h : ofBytes data = .ok item) (hmore : more ≠ []) :
    ofBytes (data ++ more) = .error .extraneous := by
  simp [ofBytes, hmore, (takes_of_ofBytes h).reads more]

end Item

/-! ## What the decoders say of data that they cannot decode -/

/-- An envelope holds a value, at whatever storage, or does not for one of two reasons. -/
theorem Envelope.toValue_cases (e : Envelope) :
    (∃ v, ∀ fresh, e.toValue fresh = .ok (copy fresh v)) ∨
    ∃ err, (∀ fresh, e.toValue fresh = .error err) ∧
      ((∃ tag, err = .unknownKind tag) ∨ ∃ payload, err = .corrupt payload) := by
  cases hkind : Kind.ofTag? e.kind with
  | none => exact .inr ⟨.unknownKind e.kind, fun _ => by simp [toValue, hkind], .inl ⟨_, rfl⟩⟩
  | some k =>
    cases k with
    | nil => exact .inl ⟨.nil, fun _ => by simp [toValue, hkind, copy]⟩
    | bool =>
      by_cases hzero : e.int = 0
      · exact .inl ⟨.bool false, fun _ => by simp [toValue, hkind, hzero, copy]⟩
      by_cases hone : e.int = 1
      · exact .inl ⟨.bool true, fun _ => by simp [toValue, hkind, hone, copy]⟩
      · exact .inr ⟨.corrupt e.int, fun _ => by simp [toValue, hkind, hzero, hone], .inr ⟨_, rfl⟩⟩
    | fixnum => exact .inl ⟨.fixnum e.int, fun _ => by simp [toValue, hkind, copy]⟩
    | string => exact .inl ⟨.string 0 e.bytes, fun _ => by simp [toValue, hkind, copy]⟩

theorem Envelope.toValue_ne_undecodable (fresh : Nat) (e : Envelope) (cause : Undecodable) :
    e.toValue fresh ≠ .error (.undecodable cause) := by
  rcases e.toValue_cases with ⟨v, hv⟩ | ⟨err, herr, ⟨tag, rfl⟩ | ⟨payload, rfl⟩⟩
  · simp [hv]
  · simp [herr]
  · simp [herr]

theorem Envelope.toValues_ne_undecodableList (es : List Envelope) (fresh index : Nat) (cause : Undecodable) :
    toValues fresh index es ≠ .error (.undecodableList cause) := by
  induction es generalizing fresh index with
  | nil => simp [toValues]
  | cons e es ih =>
    unfold toValues
    split
    · simp
    next v fresh' _ =>
      have hrest := ih fresh' (index + 1)
      split
      next heq => rwa [heq] at hrest
      next => simp

section Decoders

variable {fresh : Nat} {data : Bytes} {cause : Undecodable} {m : Malformed}

theorem unmarshal_undecodable_iff :
    unmarshal fresh data = .error (.undecodable cause) ↔ decodeAs Envelope.ofItem data = .error cause := by
  unfold unmarshal
  cases decodeAs Envelope.ofItem data with
  | error cause' => simp [Except.mapError]
  | ok e => simp [Except.mapError, e.toValue_ne_undecodable fresh]

theorem unmarshalAll_undecodable_iff :
    unmarshalAll fresh data = .error (.undecodableList cause) ↔ decodeAs Envelope.listOfItem data = .error cause := by
  unfold unmarshalAll
  cases decodeAs Envelope.listOfItem data with
  | error cause' => simp [Except.mapError]
  | ok es => simp [Except.mapError, Envelope.toValues_ne_undecodableList es fresh]

theorem decodeAs_malformed_iff {α : Type} {make : Item → Except Mistyped α} :
    decodeAs make data = .error (.malformed m) ↔ Item.ofBytes data = .error m := by
  unfold decodeAs
  cases Item.ofBytes data with
  | error m' => simp
  | ok item => cases hmake : make item <;> simp [hmake, Except.mapError]

/-- Both decoders meet malformed data just as reading an item does. -/
theorem unmarshal_malformed_iff :
    unmarshal fresh data = .error (.undecodable (.malformed m)) ↔ Item.ofBytes data = .error m := by
  rw [unmarshal_undecodable_iff, decodeAs_malformed_iff]

theorem unmarshalAll_malformed_iff :
    unmarshalAll fresh data = .error (.undecodableList (.malformed m)) ↔ Item.ofBytes data = .error m := by
  rw [unmarshalAll_undecodable_iff, decodeAs_malformed_iff]

end Decoders

/-! ## Framing -/

/-- Both decoders refuse the data, for this reason, before they look at what is in it. -/
def Refused (data : Bytes) (m : Malformed) : Prop :=
  ∀ fresh, unmarshal fresh data = .error (.undecodable (.malformed m)) ∧
    unmarshalAll fresh data = .error (.undecodableList (.malformed m))

/-- Data that one of the decoders takes for an item, whatever it makes of the item. -/
def Itemised (data : Bytes) : Prop :=
  ∃ fresh, (∀ m, unmarshal fresh data ≠ .error (.undecodable (.malformed m))) ∨
    ∀ m, unmarshalAll fresh data ≠ .error (.undecodableList (.malformed m))

/-- Data whose end both decoders find: with less of it or with more they refuse it. -/
structure Delimited (data : Bytes) : Prop where
  nothing : Refused [] .empty
  cut : ∀ front, front <+: data → front ≠ [] → front ≠ data → Refused front .truncated
  extended : ∀ more, more ≠ [] → Refused (data ++ more) .extraneous

theorem refused_of_ofBytes {data : Bytes} {m : Malformed} (h : Item.ofBytes data = .error m) : Refused data m :=
  fun _ => ⟨unmarshal_malformed_iff.2 h, unmarshalAll_malformed_iff.2 h⟩

theorem delimited_of_ofBytes {data : Bytes} {item : Item} (h : Item.ofBytes data = .ok item) : Delimited data where
  nothing := refused_of_ofBytes rfl
  cut _ hfront hsome hne := refused_of_ofBytes (Item.ofBytes_cut h hfront hne hsome)
  extended _ hmore := refused_of_ofBytes (Item.ofBytes_extended h hmore)

theorem Itemised.item {data : Bytes} (h : Itemised data) : ∃ item, Item.ofBytes data = .ok item := by
  cases hdata : Item.ofBytes data with
  | ok item => exact ⟨item, rfl⟩
  | error m =>
    obtain ⟨fresh, h | h⟩ := h
    · exact absurd (unmarshal_malformed_iff.2 hdata) (h m)
    · exact absurd (unmarshalAll_malformed_iff.2 hdata) (h m)

theorem Itemised.delimited {data : Bytes} (h : Itemised data) : Delimited data :=
  let ⟨_, hitem⟩ := h.item
  delimited_of_ofBytes hitem

theorem itemised_marshal {v : Value} (hv : v.size < Item.lengthLimit) : Itemised (marshal v) := by
  refine ⟨0, .inl fun m => ?_⟩
  rw [unmarshal_marshal_eq 0 hv]
  exact nofun

theorem itemised_marshalAll {vs : List Value} (hv : ∀ v ∈ vs, v.size < Item.lengthLimit)
    (hcount : vs.length ≤ maxCount) : Itemised (marshalAll vs) := by
  obtain ⟨ws, fresh', hok, -⟩ := Envelope.toValues_ofValue vs 0 0
  refine ⟨0, .inr fun m => ?_⟩
  rw [unmarshalAll_marshalAll_eq 0 hv hcount, hok]
  exact nofun

/-- **Encodings are framed.** Take any data that one of the decoders accepts, or refuses only for what is in
it. Both decoders refuse nothing at all as empty, every other proper initial part of the data as truncated
and every continuation as extraneous; so none of these data is the start of another. The encodings of
values are such data, and so are those of lists of at most 131072 values. -/
theorem encodings_framed :
    (∀ data, Itemised data → Delimited data) ∧
    (∀ data data', Itemised data → Itemised data' → data <+: data' → data = data') ∧
    (∀ v : Value, v.size < 0x8000000000000000 → Delimited (marshal v)) ∧
    ∀ vs : List Value, (∀ v ∈ vs, v.size < 0x8000000000000000) → vs.length ≤ 131072 → Delimited (marshalAll vs) := by
  refine ⟨fun data h => h.delimited, fun data data' h h' hprefix => ?_, fun v hv => (itemised_marshal hv).delimited,
    fun vs hv hcount => (itemised_marshalAll hv hcount).delimited⟩
  obtain ⟨more, rfl⟩ := hprefix
  by_contra hne
  have hmore : more ≠ [] := by
    rintro rfl
    exact hne (List.append_nil data).symm
  obtain ⟨item, hitem⟩ := h'.item
  obtain ⟨hrefused, -⟩ := h.delimited.extended more hmore 0
  rw [unmarshal_malformed_iff, hitem] at hrefused
  cases hrefused

/-- An unknown kind is met only after the framing: the data is cut inside a head, and goes on. So are the
encodings of the least fixnum and of the longest list. -/
theorem encodings_framed_unknown_kind :
    unmarshal 0 [0xa1, 0x01, 0x18, 0x07] = .error (.unknownKind 7) ∧
    Refused [0xa1, 0x01, 0x18] .truncated ∧ ¬ Itemised [0xa1, 0x01, 0x18, 0x07, 0x00] ∧
    Refused ((marshal (.fixnum Int64.minValue)).take 5) .truncated ∧
    Refused (marshalAll (List.replicate 131072 .nil) ++ [0xf6]) .extraneous := by
  have hunknown : unmarshal 0 [0xa1, 0x01, 0x18, 0x07] = .error (.unknownKind 7) := rfl
  have hitemised : Itemised [0xa1, 0x01, 0x18, 0x07] := ⟨0, .inl fun m => by rw [hunknown]; exact nofun⟩
  have hnil : ∀ v ∈ List.replicate 131072 Value.nil, v.size < 0x8000000000000000 := by
    intro v hv
    rw [List.eq_of_mem_replicate hv]
    decide
  obtain ⟨hdelimited, hfree, hvalue, hlist⟩ := encodings_framed
  refine ⟨hunknown, ?_, fun h => ?_, ?_, ?_⟩
  · exact (hdelimited _ hitemised).cut _ (by decide) (by decide) (by decide)
  · exact absurd (hfree _ _ hitemised h (by decide)) (by decide)
  · exact (hvalue _ (by decide)).cut _ (List.take_prefix 5 _) (by decide) (by decide)
  · exact (hlist _ hnil (Nat.le_of_eq List.length_replicate)).extended _ (by decide)

end Dispatch.Wire
