/-
The levels that a reader of items is given bound how deeply an item may be nested, and nothing else: an
item of depth `d` is read, in the same way, with any number of levels from `d` on, and is not read with
fewer (`read_iff_depth_le`). So an item that may stand alone may stand inside another one if the depths
allow it.
-/
import Dispatch.Proofs.Framing

namespace Dispatch.Wire.Item

def isTag : Item → Bool
  | .tag _ _ => true
  | _ => false

/-! ## Depth -/

mutual

/-- The levels that an item takes: one for each array or map around another item, and one for each tag
after another tag. -/
def depth : Item → Nat
  | .array items => depthAll items + 1
  | .map pairs => depthPairs pairs + 1
  | .tag _ content => content.depth + if content.isTag then 1 else 0
  | _ => 0

def depthAll : List Item → Nat
  | [] => 0
  | x :: xs => max x.depth (depthAll xs)

def depthPairs : List (Item × Item) → Nat
  | [] => 0
  | (key, value) :: pairs => max (max key.depth value.depth) (depthPairs pairs)

end

/-- Two readers, of which the first reads items of depth at most `n`, and the second reads the same ones
up to depth `n'`. -/
def Nests (n n' : Nat) (r r' : Reader Item) : Prop :=
  ∀ bs x rest, r bs = .ok (x, rest) → x.depth ≤ n ∧ (x.depth ≤ n' → r' bs = .ok (x, rest))

/-! ## Items in a row -/

section Rows

variable {n n' : Nat} {r r' : Reader Item} {bs rest : Bytes} {xs : List Item} {pairs : List (Item × Item)}

theorem Nests.readMany (h : Nests n n' r r') {count : Nat} (hread : readMany r count bs = .ok (xs, rest)) :
    depthAll xs ≤ n ∧ (depthAll xs ≤ n' → Item.readMany r' count bs = .ok (xs, rest)) := by
  induction count generalizing bs xs with
  | zero =>
    obtain ⟨rfl, rfl⟩ := Prod.mk.inj (Except.ok.inj hread)
    exact ⟨Nat.zero_le _, fun _ => rfl⟩
  | succ count ih =>
    simp only [Item.readMany, bind_eq_ok, Prod.exists] at hread
    obtain ⟨x, mid, hx, ys, rest', hys, heq⟩ := hread
    obtain ⟨rfl, rfl⟩ := Prod.mk.inj (Except.ok.inj heq)
    obtain ⟨hdepth, hagain⟩ := h _ _ _ hx
    obtain ⟨hdepths, hagains⟩ := ih hys
    refine ⟨Nat.max_le.2 ⟨hdepth, hdepths⟩, fun hle => ?_⟩
    obtain ⟨hle, hles⟩ := Nat.max_le.1 hle
    simp [Item.readMany, hagain hle, hagains hles]

theorem Nests.readPairs (h : Nests n n' r r') {count : Nat} (hread : readPairs r count bs = .ok (pairs, rest)) :
    depthPairs pairs ≤ n ∧ (depthPairs pairs ≤ n' → Item.readPairs r' count bs = .ok (pairs, rest)) := by
  induction count generalizing bs pairs with
  | zero =>
    obtain ⟨rfl, rfl⟩ := Prod.mk.inj (Except.ok.inj hread)
    exact ⟨Nat.zero_le _, fun _ => rfl⟩
  | succ count ih =>
    simp only [Item.readPairs, bind_eq_ok, Prod.exists] at hread
    obtain ⟨key, bs', hkey, value, bs'', hvalue, others, rest', hothers, heq⟩ := hread
    obtain ⟨rfl, rfl⟩ := Prod.mk.inj (Except.ok.inj heq)
    obtain ⟨hdkey, hkey⟩ := h _ _ _ hkey
    obtain ⟨hdvalue, hvalue⟩ := h _ _ _ hvalue
    obtain ⟨hdothers, hothers⟩ := ih hothers
    refine ⟨Nat.max_le.2 ⟨Nat.max_le.2 ⟨hdkey, hdvalue⟩, hdothers⟩, fun hle => ?_⟩
    obtain ⟨hlepair, hleothers⟩ := Nat.max_le.1 hle
    obtain ⟨hlekey, hlevalue⟩ := Nat.max_le.1 hlepair
    simp [Item.readPairs, hkey hlekey, hvalue hlevalue, hothers hleothers]

/-- A row up to the break is either at its end or begins with an item that is not the break. -/
theorem readUntilBreak_eq_ok {left : Nat} :
    readUntilBreak r left bs = .ok (xs, rest) ↔
      xs = [] ∧ bs = breakByte :: rest ∨
      ∃ b tail x mid ys left', b ≠ breakByte ∧ bs = b :: tail ∧ xs = x :: ys ∧ left = left' + 1 ∧
        r (b :: tail) = .ok (x, mid) ∧ readUntilBreak r left' mid = .ok (ys, rest) := by
  cases bs with
  | nil => simp [readUntilBreak]
  | cons b bs =>
    by_cases hbreak : b = breakByte
    · subst hbreak
      simp [readUntilBreak, eq_comm]
    · cases left with
      | zero => simp [readUntilBreak, hbreak, bind_eq_ok]
      | succ left =>
        simp only [readUntilBreak, hbreak, if_false, bind_eq_ok, Prod.exists]
        constructor
        · rintro ⟨x, mid, hx, ys, rest', hys, heq⟩
          obtain ⟨rfl, rfl⟩ := Prod.mk.inj (Except.ok.inj heq)
          exact .inr ⟨b, bs, x, mid, ys, left, hbreak, rfl, rfl, rfl, hx, hys⟩
        · rintro (⟨-, heq⟩ | ⟨c, tail, x, mid, ys, left', hc, hbs, rfl, hleft, hx, hys⟩)
          · exact absurd (List.cons.inj heq).1 hbreak
          · obtain rfl : left = left' := Nat.succ.inj hleft
            exact ⟨x, mid, hbs ▸ hx, ys, rest, hys, rfl⟩

theorem Nests.readUntilBreak (h : Nests n n' r r') {left : Nat} (hread : readUntilBreak r left bs = .ok (xs, rest)) :
    depthAll xs ≤ n ∧ (depthAll xs ≤ n' → Item.readUntilBreak r' left bs = .ok (xs, rest)) := by
  -- On the items and not on `left`: a row that ends well ends at the break, wherever the bound is.
  induction xs generalizing left bs with
  | nil =>
    rcases readUntilBreak_eq_ok.1 hread with ⟨-, rfl⟩ | ⟨_, _, _, _, _, _, -, -, hnil, -⟩
    · exact ⟨Nat.zero_le _, fun _ => readUntilBreak_eq_ok.2 (.inl ⟨rfl, rfl⟩)⟩
    · cases hnil
  | cons x xs ih =>
    rcases readUntilBreak_eq_ok.1 hread with ⟨hnil, -⟩ | ⟨b, tail, y, mid, ys, left, hb, rfl, heq, rfl, hx, hxs⟩
    · cases hnil
    obtain ⟨rfl, rfl⟩ := List.cons.inj heq
    obtain ⟨hdepth, hagain⟩ := h _ _ _ hx
    obtain ⟨hdepths, hagains⟩ := ih hxs
    refine ⟨Nat.max_le.2 ⟨hdepth, hdepths⟩, fun hle => readUntilBreak_eq_ok.2 (.inr ?_)⟩
    obtain ⟨hle, hles⟩ := Nat.max_le.1 hle
    exact ⟨b, tail, x, mid, xs, left, hb, rfl, rfl, rfl, hagain hle, hagains hles⟩

/-- Pairs up to the break, likewise; the value is not the break either. -/
theorem readPairsUntilBreak_eq_ok {left : Nat} :
    readPairsUntilBreak r left bs = .ok (pairs, rest) ↔
      pairs = [] ∧ bs = breakByte :: rest ∨
      ∃ b tail key mid value mid' others left', b ≠ breakByte ∧ bs = b :: tail ∧ pairs = (key, value) :: others ∧
        left = left' + 1 ∧ r (b :: tail) = .ok (key, mid) ∧ readValue r mid = .ok (value, mid') ∧
        readPairsUntilBreak r left' mid' = .ok (others, rest) := by
  cases bs with
  | nil => simp [readPairsUntilBreak]
  | cons b bs =>
    by_cases hbreak : b = breakByte
    · subst hbreak
      simp [readPairsUntilBreak, eq_comm]
    · cases left with
      | zero => simp [readPairsUntilBreak, hbreak, bind_eq_ok]
      | succ left =>
        simp only [readPairsUntilBreak, hbreak, if_false, bind_eq_ok, Prod.exists]
        constructor
        · rintro ⟨key, mid, hkey, value, mid', hvalue, others, rest', hothers, heq⟩
          obtain ⟨rfl, rfl⟩ := Prod.mk.inj (Except.ok.inj heq)
          exact .inr ⟨b, bs, key, mid, value, mid', others, left, hbreak, rfl, rfl, rfl, hkey, hvalue, hothers⟩
        · rintro (⟨-, heq⟩ |
            ⟨c, tail, key, mid, value, mid', others, left', hc, hbs, rfl, hleft, hkey, hvalue, hothers⟩)
          · exact absurd (List.cons.inj heq).1 hbreak
          · obtain rfl : left = left' := Nat.succ.inj hleft
            exact ⟨key, mid, hbs ▸ hkey, value, mid', hvalue, others, rest, hothers, rfl⟩

theorem Nests.readValue (h : Nests n n' r r') : Nests n n' (readValue r) (readValue r') := by
  intro bs x rest hread
  cases bs with
  | nil => cases hread
  | cons b bs =>
    rw [Item.readValue] at hread ⊢
    split at hread
    next => cases hread
    next hb =>
      rw [if_neg hb]
      exact h _ _ _ hread

theorem Nests.readPairsUntilBreak (h : Nests n n' r r') {left : Nat}
    (hread : readPairsUntilBreak r left bs = .ok (pairs, rest)) :
    depthPairs pairs ≤ n ∧ (depthPairs pairs ≤ n' → Item.readPairsUntilBreak r' left bs = .ok (pairs, rest)) := by
  induction pairs generalizing left bs with
  | nil =>
    rcases readPairsUntilBreak_eq_ok.1 hread with ⟨-, rfl⟩ | ⟨_, _, _, _, _, _, _, _, -, -, hnil, -⟩
    · exact ⟨Nat.zero_le _, fun _ => readPairsUntilBreak_eq_ok.2 (.inl ⟨rfl, rfl⟩)⟩
    · cases hnil
  | cons pair pairs ih =>
    rcases readPairsUntilBreak_eq_ok.1 hread with
      ⟨hnil, -⟩ | ⟨b, tail, key, mid, value, mid', others, left, hb, rfl, heq, rfl, hkey, hvalue, hothers⟩
    · cases hnil
    obtain ⟨rfl, rfl⟩ := List.cons.inj heq
    obtain ⟨hdkey, hkey⟩ := h _ _ _ hkey
    obtain ⟨hdvalue, hvalue⟩ := h.readValue _ _ _ hvalue
    obtain ⟨hdothers, hothers⟩ := ih hothers
    refine ⟨Nat.max_le.2 ⟨Nat.max_le.2 ⟨hdkey, hdvalue⟩, hdothers⟩, fun hle => readPairsUntilBreak_eq_ok.2 (.inr ?_)⟩
    obtain ⟨hlepair, hleothers⟩ := Nat.max_le.1 hle
    obtain ⟨hlekey, hlevalue⟩ := Nat.max_le.1 hlepair
    exact ⟨b, tail, key, mid, value, mid', pairs, left, hb, rfl, rfl, rfl, hkey hlekey, hvalue hlevalue,
      hothers hleothers⟩

theorem Nests.readElements (h : Nests n n' r r') {head : Head} (hread : readElements r head bs = .ok (xs, rest)) :
    depthAll xs ≤ n ∧ (depthAll xs ≤ n' → Item.readElements r' head bs = .ok (xs, rest)) := by
  unfold Item.readElements at hread ⊢
  split at hread
  next hopen => simpa only [if_pos hopen] using h.readUntilBreak hread
  next hopen =>
    split at hread
    next => cases hread
    next hlong =>
      split at hread
      next => cases hread
      next hmany => simpa only [if_neg hopen, if_neg hlong, if_neg hmany] using h.readMany hread

theorem Nests.readEntries (h : Nests n n' r r') {head : Head} (hread : readEntries r head bs = .ok (pairs, rest)) :
    depthPairs pairs ≤ n ∧ (depthPairs pairs ≤ n' → Item.readEntries r' head bs = .ok (pairs, rest)) := by
  unfold Item.readEntries at hread ⊢
  split at hread
  next hopen => simpa only [if_pos hopen] using h.readPairsUntilBreak hread
  next hopen =>
    split at hread
    next => cases hread
    next hlong =>
      split at hread
      next => cases hread
      next hmany => simpa only [if_neg hopen, if_neg hlong, if_neg hmany] using h.readPairs hread

end Rows

/-! ## Items -/

section Items

variable {levels levels' : Nat} {head : Head} {bs rest : Bytes} {x : Item}

/-- What follows a head that is not a tag's: nothing that is nested, or an array or a map around items
that `inner` reads. -/
theorem readAfter_cases {inner : Option (Reader Item)} (h : readAfter inner head bs = .ok (x, rest)) :
    (x.isTag = false ∧ x.depth = 0 ∧ ∀ other, readAfter other head bs = .ok (x, rest)) ∨
    (∃ item items, inner = some item ∧ head.major = 4 ∧ x = .array items ∧
      readElements item head bs = .ok (items, rest)) ∨
    ∃ item pairs, inner = some item ∧ head.major = 5 ∧ x = .map pairs ∧
      readEntries item head bs = .ok (pairs, rest) := by
  unfold readAfter at h
  -- One case for each major type, in their order: numbers, strings, array and map, the simple ones.
  split at h
  next hmajor =>
    obtain ⟨rfl, rfl⟩ := Prod.mk.inj (Except.ok.inj h)
    exact .inl ⟨rfl, rfl, fun other => by simp [readAfter, hmajor]⟩
  next hmajor =>
    obtain ⟨rfl, rfl⟩ := Prod.mk.inj (Except.ok.inj h)
    exact .inl ⟨rfl, rfl, fun other => by simp [readAfter, hmajor]⟩
  next hmajor =>
    obtain ⟨⟨chunks, rest'⟩, htext, heq⟩ := bind_eq_ok.1 h
    obtain ⟨rfl, rfl⟩ := Prod.mk.inj (Except.ok.inj heq)
    exact .inl ⟨rfl, rfl, fun other => by simp [readAfter, hmajor, htext]⟩
  next hmajor =>
    obtain ⟨⟨chunks, rest'⟩, htext, heq⟩ := bind_eq_ok.1 h
    obtain ⟨rfl, rfl⟩ := Prod.mk.inj (Except.ok.inj heq)
    exact .inl ⟨rfl, rfl, fun other => by simp [readAfter, hmajor, htext]⟩
  next hmajor =>
    cases inner with
    | none => cases h
    | some item =>
      obtain ⟨⟨items, rest'⟩, hitems, heq⟩ := bind_eq_ok.1 h
      obtain ⟨rfl, rfl⟩ := Prod.mk.inj (Except.ok.inj heq)
      exact .inr (.inl ⟨item, items, rfl, hmajor, rfl, hitems⟩)
  next hmajor =>
    cases inner with
    | none => cases h
    | some item =>
      obtain ⟨⟨pairs, rest'⟩, hpairs, heq⟩ := bind_eq_ok.1 h
      obtain ⟨rfl, rfl⟩ := Prod.mk.inj (Except.ok.inj heq)
      exact .inr (.inr ⟨item, pairs, rfl, hmajor, rfl, hpairs⟩)
  next hmajor =>
    obtain ⟨rfl, rfl⟩ := Prod.mk.inj (Except.ok.inj h)
    refine .inl ⟨?_, ?_, fun other => by simp [readAfter, hmajor]⟩
    · split <;> rfl
    · split <;> rfl
  next => cases h

theorem isTag_readAfter {inner : Option (Reader Item)} (h : readAfter inner head bs = .ok (x, rest)) :
    x.isTag = false := by
  rcases readAfter_cases h with ⟨htag, -⟩ | ⟨_, _, -, -, rfl, -⟩ | ⟨_, _, -, -, rfl, -⟩
  · exact htag
  · rfl
  · rfl

theorem nests_readAfter (ih : ∀ l, levels = l + 1 → ∀ l', Nests l l' (read l) (read l')) :
    Nests levels levels' (readAfter (inside levels) head) (readAfter (inside levels') head) := by
  intro bs x rest h
  have hinside : ∀ item, inside levels = some item → ∃ l, levels = l + 1 ∧ item = read l := by
    intro item hitem
    cases levels with
    | zero => cases hitem
    | succ l => exact ⟨l, rfl, (Option.some.inj hitem).symm⟩
  rcases readAfter_cases h with ⟨-, hdepth, hany⟩ | ⟨item, items, hitem, hmajor, rfl, hitems⟩ |
    ⟨item, pairs, hitem, hmajor, rfl, hpairs⟩
  · exact ⟨by omega, fun _ => hany _⟩
  · obtain ⟨l, rfl, rfl⟩ := hinside item hitem
    refine ⟨Nat.succ_le_succ ((ih l rfl 0).readElements hitems).1, fun hle => ?_⟩
    cases levels' with
    | zero => cases hle
    | succ l' =>
      have hagain := ((ih l rfl l').readElements hitems).2 (Nat.le_of_succ_le_succ hle)
      simp [readAfter, hmajor, inside, hagain]
  · obtain ⟨l, rfl, rfl⟩ := hinside item hitem
    refine ⟨Nat.succ_le_succ ((ih l rfl 0).readEntries hpairs).1, fun hle => ?_⟩
    cases levels' with
    | zero => cases hle
    | succ l' =>
      have hagain := ((ih l rfl l').readEntries hpairs).2 (Nat.le_of_succ_le_succ hle)
      simp [readAfter, hmajor, inside, hagain]

theorem bind_tag_eq_ok {n : Nat} {content : Except Malformed (Item × Bytes)} :
    (content >>= fun p => .ok (tag n p.1, p.2)) = .ok (x, rest) ↔ ∃ y, x = tag n y ∧ content = .ok (y, rest) := by
  cases content with
  | error m => simp
  | ok p =>
    simp only [ok_bind, Except.ok.injEq, Prod.ext_iff]
    constructor
    · rintro ⟨rfl, rfl⟩
      exact ⟨p.1, rfl, rfl, rfl⟩
    · rintro ⟨y, rfl, rfl, rfl⟩
      exact ⟨rfl, rfl⟩

/-- An item is what follows its head; after the head of a tag it is one more item, for which a level is
gone if it is a tag itself. -/
theorem read_eq_ok :
    read levels bs = .ok (x, rest) ↔
      ∃ head mid, Head.read bs = .ok (head, mid) ∧
        (head.major ≠ 6 ∧ readAfter (inside levels) head mid = .ok (x, rest) ∨
        head.major = 6 ∧ ∃ next mid' content, Head.read mid = .ok (next, mid') ∧ x = .tag head.arg content ∧
          (next.major ≠ 6 ∧ readAfter (inside levels) next mid' = .ok (content, rest) ∨
          next.major = 6 ∧ ∃ l, levels = l + 1 ∧ read l mid = .ok (content, rest))) := by
  rw [read_eq]
  simp only [readWith, bind_eq_ok, Prod.exists]
  refine exists_congr fun head => exists_congr fun mid => and_congr_right fun _ => ?_
  by_cases htag : head.major = 6
  swap
  · simp [htag]
  simp only [htag, if_true, bind_eq_ok, Prod.exists, ne_eq, not_true_eq_false, false_and, false_or, true_and]
  -- The head behind a tag is looked at first; whether it is read again depends on what it is.
  refine exists_congr fun next => exists_congr fun mid' => ?_
  rw [exists_and_left]
  refine and_congr_right fun _ => ?_
  by_cases hnext : next.major = 6
  · cases levels with
    | zero => simp [hnext, inside]
    | succ l => simp [hnext, inside, bind_tag_eq_ok]
  · simp [hnext, bind_tag_eq_ok]

theorem isTag_of_read {mid : Bytes} (h : read levels bs = .ok (x, rest)) (hhead : Head.read bs = .ok (head, mid)) :
    x.isTag = true ↔ head.major = 6 := by
  obtain ⟨head', mid', hhead', hcases⟩ := read_eq_ok.1 h
  rw [hhead] at hhead'
  obtain ⟨rfl, rfl⟩ := Prod.mk.inj (Except.ok.inj hhead')
  rcases hcases with ⟨hmajor, hafter⟩ | ⟨hmajor, next, mid', content, -, rfl, -⟩
  · simp [isTag_readAfter hafter, hmajor]
  · simp [isTag, hmajor]

/-- One level: what holds of the items inside holds of the item. -/
theorem nests_read_of_inside (ih : ∀ l, levels = l + 1 → ∀ l', Nests l l' (read l) (read l')) :
    Nests levels levels' (read levels) (read levels') := by
  intro bs x rest h
  obtain ⟨head, mid, hhead, ⟨hmajor, hread⟩ | ⟨hmajor, next, mid', content, hnext, rfl, hcontent⟩⟩ := read_eq_ok.1 h
  · obtain ⟨hdepth, hagain⟩ := nests_readAfter ih _ _ _ hread
    exact ⟨hdepth, fun hle => read_eq_ok.2 ⟨head, mid, hhead, .inl ⟨hmajor, hagain hle⟩⟩⟩
  rcases hcontent with ⟨hplain, hread⟩ | ⟨htag, l, rfl, hread⟩
  · have hcount : (tag head.arg content).depth = content.depth := by
      simp [depth, isTag_readAfter hread]
    obtain ⟨hdepth, hagain⟩ := nests_readAfter ih _ _ _ hread
    rw [hcount]
    exact ⟨hdepth, fun hle => read_eq_ok.2
      ⟨head, mid, hhead, .inr ⟨hmajor, next, mid', content, hnext, rfl, .inl ⟨hplain, hagain hle⟩⟩⟩⟩
  · have hcount : (tag head.arg content).depth = content.depth + 1 := by
      simp [depth, (isTag_of_read hread hnext).2 htag]
    rw [hcount]
    refine ⟨Nat.succ_le_succ (ih l rfl 0 _ _ _ hread).1, fun hle => ?_⟩
    cases levels' with
    | zero => cases hle
    | succ l' =>
      have hagain := (ih l rfl l' _ _ _ hread).2 (Nat.le_of_succ_le_succ hle)
      exact read_eq_ok.2
        ⟨head, mid, hhead, .inr ⟨hmajor, next, mid', content, hnext, rfl, .inr ⟨htag, l', rfl, hagain⟩⟩⟩

theorem nests_read (levels levels' : Nat) : Nests levels levels' (read levels) (read levels') := by
  induction levels generalizing levels' with
  | zero => exact nests_read_of_inside nofun
  | succ levels ih =>
    refine nests_read_of_inside fun l hl l' => ?_
    obtain rfl := Nat.succ.inj hl
    exact ih l'

/-- **Levels bound the depth and nothing else.** An item that is read with some number of levels is read
with another just if its depth is at most that. -/
theorem read_iff_depth_le (h : read levels bs = .ok (x, rest)) :
    read levels' bs = .ok (x, rest) ↔ x.depth ≤ levels' :=
  ⟨fun h' => (nests_read levels' levels _ _ _ h').1, (nests_read levels levels' _ _ _ h).2⟩

/-- Data that is one item of a certain depth, wherever it stands. -/
theorem read_append_of_ofBytes {data : Bytes} (h : ofBytes data = .ok x) (hle : x.depth ≤ levels) (rest : Bytes) :
    read levels (data ++ rest) = .ok (x, rest) :=
  (read_iff_depth_le ((takes_of_ofBytes h).reads rest)).2 hle

end Items

end Dispatch.Wire.Item
