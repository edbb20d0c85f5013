/-
Decoding reads its data twice. The first pass makes sure that the data is one item (`Item.ofBytes`); the second goes
over the same bytes again, into a target, and checks nothing of this any more. It takes what stands at the front for a
head and believes the lengths in it; it skips what it does not want, and it goes on after something that does not fit.

Here is the second pass as it goes over bytes, and that it keeps in step with the first: wherever the first pass reads
an item, skipping takes just that item off the data (`skip_of_reads`), and so does joining the chunks of a string.
What the second pass makes of the items it wants is in the module after this one.
-/
import Dispatch.Proofs.Nesting

namespace Dispatch.Wire

/-! ## Reading without checks -/

namespace Head

/-- What stands at the front, taken for a head. -/
def take : Bytes → Option (Head × Bytes)
  | [] => none
  | b :: rest =>
    let major := b.toNat / 32
    let info := b.toNat % 32
    if 24 ≤ info ∧ info < 28 then
      (takeExactly (width info) rest).map fun p => (⟨major, info, number p.1⟩, p.2)
    else some (⟨major, info, info⟩, rest)

end Head

namespace SecondPass

/-- A step of the second pass. It has no result if it comes to the end of the data before its own. -/
abbrev Pass (α : Type) := Bytes → Option (α × Bytes)

section Loops

variable {σ : Type} (step : σ → Pass σ)

/-- Take a step so many times. -/
def times : (count : Nat) → σ → Pass σ
  | 0, s, bs => some (s, bs)
  | count + 1, s, bs => do
    let (s, bs) ← step s bs
    times count s bs

/-- Take a step again and again up to the break, `most` times at most. -/
def untilBreak : (most : Nat) → σ → Pass σ
  | _, _, [] => none
  | 0, s, b :: bs => if b = breakByte then some (s, bs) else none
  | most + 1, s, b :: bs =>
    if b = breakByte then some (s, bs)
    else do
      let (s, bs) ← step s (b :: bs)
      untilBreak most s bs

/-- Take a step as often as a head says: `count` times, or up to the break. Every step takes a byte. -/
def repeated (head : Head) (count : Nat) (s : σ) : Pass σ := fun bs =>
  if head.isIndefinite then untilBreak step bs.length s bs else times step count s bs

end Loops

/-- Pass over what follows a head; `inner` passes over an item inside. -/
def skipAfter (inner : Pass Unit) (head : Head) : Pass Unit := fun bs =>
  match head.major with
  | 2 | 3 =>
    if head.isIndefinite then untilBreak (fun _ => inner) bs.length () bs
    else (Head.takeExactly head.arg bs).map fun p => ((), p.2)
  | 4 => repeated (fun _ => inner) head head.arg () bs
  | 5 => repeated (fun _ => inner) head (2 * head.arg) () bs
  | 6 => inner bs
  | _ => some ((), bs)

/-- Pass over an item in which items lie at most `depth` deep. -/
def skipWithin : (depth : Nat) → Pass Unit
  | 0, _ => none
  | depth + 1, bs => do
    let (head, bs) ← Head.take bs
    skipAfter (skipWithin depth) head bs

/-- Pass over an item. Items lie no deeper than there are bytes. -/
def skip : Pass Unit := fun bs => skipWithin bs.length bs

/-- A string of known length, with its head. -/
def chunk : Pass Bytes := fun bs => do
  let (head, bs) ← Head.take bs
  Head.takeExactly head.arg bs

/-- The contents of a byte string after its head, the chunks joined. -/
def joined (head : Head) : Pass Bytes := fun bs =>
  if head.isIndefinite then
    untilBreak (fun front bs => (chunk bs).map fun p => (front ++ p.1, p.2)) bs.length [] bs
  else Head.takeExactly head.arg bs

/-- The bytes with one more chunk of a text, if it is one; after a chunk that is none, the others are skipped. -/
def joinText : Option Bytes → Pass (Option Bytes)
  | some front, bs =>
    (chunk bs).map fun p => (if Text.Utf8.isValid p.1 then some (front ++ p.1) else none, p.2)
  | none, bs => (skip bs).map fun p => (none, p.2)

/-- The contents of a text after its head, if it is one in all its chunks. -/
def text (head : Head) : Pass (Option Bytes) := fun bs =>
  if head.isIndefinite then untilBreak joinText bs.length (some []) bs
  else (Head.takeExactly head.arg bs).map fun p => (if Text.Utf8.isValid p.1 then some p.1 else none, p.2)

end SecondPass

/-! ## What the first pass leaves to be read -/

namespace Head

theorem take_of_read {bs rest : Bytes} {head : Head} (h : read bs = .ok (head, rest)) :
    take bs = some (head, rest) := by
  cases bs with
  | nil => cases h
  | cons b bs =>
    simp only [read] at h
    simp only [take]
    split at h
    next hsmall =>
      rw [if_neg (by omega)]
      obtain ⟨rfl, rfl⟩ := Prod.mk.inj (Except.ok.inj h)
      rfl
    next hlarge =>
      split at h
      next hwide =>
        rw [if_pos ⟨by omega, hwide⟩]
        split at h
        next => cases h
        next front tail htake =>
          split at h
          next => cases h
          next =>
            obtain ⟨rfl, rfl⟩ := Prod.mk.inj (Except.ok.inj h)
            rw [htake, Option.map_some]
      next hopen =>
        split at h
        next hinfo =>
          rw [if_neg (by omega)]
          obtain ⟨rfl, rfl⟩ := Prod.mk.inj (Except.ok.inj h)
          simp [hinfo.1]
        next => cases h

/-- The first byte of a head says its major type and its information. -/
theorem first_of_take {b : UInt8} {bs rest : Bytes} {head : Head} (h : take (b :: bs) = some (head, rest)) :
    head.major = b.toNat / 32 ∧ head.info = b.toNat % 32 := by
  simp only [take] at h
  split at h
  next =>
    obtain ⟨p, -, heq⟩ := Option.map_eq_some_iff.mp h
    obtain ⟨rfl, -⟩ := Prod.mk.inj heq
    exact ⟨rfl, rfl⟩
  next =>
    obtain ⟨rfl, -⟩ := Prod.mk.inj (Option.some.inj h)
    exact ⟨rfl, rfl⟩

theorem read_breakByte (bs : Bytes) : read (breakByte :: bs) = .error .illFormed := rfl

end Head

namespace Item

/-- The first pass, whatever levels it has left, reads `item` off the front of `bs` and leaves `rest`. -/
def Reads (bs : Bytes) (item : Item) (rest : Bytes) : Prop := ∃ levels, read levels bs = .ok (item, rest)

/-- A pair of items, one after the other. -/
def ReadsPair (bs : Bytes) (pair : Item × Item) (rest : Bytes) : Prop :=
  ∃ mid, Reads bs pair.1 mid ∧ Reads mid pair.2 rest

/-- A string of known length. -/
def ReadsChunk (major : Nat) (bs chunk rest : Bytes) : Prop :=
  ∃ head mid, Head.read bs = .ok (head, mid) ∧ head.major = major ∧ head.isIndefinite = false ∧
    Head.takeExactly head.arg mid = some (chunk, rest)

/-- Things in a row, each of which `one` reads off the front of what is left by those before it. -/
inductive Run {α : Type} (one : Bytes → α → Bytes → Prop) : Bytes → List α → Bytes → Prop
  | nil {bs : Bytes} : Run one bs [] bs
  | cons {bs mid rest : Bytes} {x : α} {xs : List α} : one bs x mid → Run one mid xs rest → Run one bs (x :: xs) rest

/-- Things in a row after a head: `count` of them, or as many as there are up to the break. -/
def Rows {α : Type} (one : Bytes → α → Bytes → Prop) (head : Head) (count : Nat) (bs : Bytes) (xs : List α)
    (rest : Bytes) : Prop :=
  if head.isIndefinite then Run one bs xs (breakByte :: rest) else Run one bs xs rest ∧ xs.length = count

/-- The chunks of a string after a head that gives the length, or leaves it open up to the break. -/
def Chunks (head : Head) (bs : Bytes) (chunks : List Bytes) (rest : Bytes) : Prop :=
  if head.isIndefinite then Run (ReadsChunk head.major) bs chunks (breakByte :: rest)
  else ∃ chunk, chunks = [chunk] ∧ Head.takeExactly head.arg bs = some (chunk, rest)

/-- The forms of an item after its head. -/
inductive Form (head : Head) (mid : Bytes) : Item → Bytes → Prop
  | unsigned : head.major = 0 → Form head mid (.unsigned head.arg) mid
  | negative : head.major = 1 → Form head mid (.negative head.arg) mid
  | bytes {chunks rest} : head.major = 2 → Chunks head mid chunks rest → Form head mid (.bytes chunks.flatten) rest
  | text {chunks rest} : head.major = 3 → Chunks head mid chunks rest → Form head mid (.text chunks) rest
  | array {items rest} : head.major = 4 → Rows Reads head head.arg mid items rest → Form head mid (.array items) rest
  | map {pairs rest} : head.major = 5 → Rows ReadsPair head head.arg mid pairs rest → Form head mid (.map pairs) rest
  | tag {content rest} : head.major = 6 → Reads mid content rest → Form head mid (.tag head.arg content) rest
  | simple : head.major = 7 → head.info < 25 → Form head mid (.simple head.arg) mid
  | float : head.major = 7 → 25 ≤ head.info → Form head mid .float mid

/-! ## Rows -/

section Rows

variable {bs rest : Bytes}

theorem run_of_readMany {levels count : Nat} {items : List Item}
    (h : readMany (read levels) count bs = .ok (items, rest)) : Run Reads bs items rest ∧ items.length = count := by
  induction count generalizing bs items with
  | zero =>
    obtain ⟨rfl, rfl⟩ := Prod.mk.inj (Except.ok.inj h)
    exact ⟨.nil, rfl⟩
  | succ count ih =>
    simp only [readMany, bind_eq_ok, Prod.exists] at h
    obtain ⟨x, mid, hx, xs, rest', hxs, heq⟩ := h
    obtain ⟨rfl, rfl⟩ := Prod.mk.inj (Except.ok.inj heq)
    obtain ⟨hrun, hlength⟩ := ih hxs
    exact ⟨.cons ⟨levels, hx⟩ hrun, by simp [hlength]⟩

theorem run_of_readPairs {levels count : Nat} {pairs : List (Item × Item)}
    (h : readPairs (read levels) count bs = .ok (pairs, rest)) :
    Run ReadsPair bs pairs rest ∧ pairs.length = count := by
  induction count generalizing bs pairs with
  | zero =>
    obtain ⟨rfl, rfl⟩ := Prod.mk.inj (Except.ok.inj h)
    exact ⟨.nil, rfl⟩
  | succ count ih =>
    simp only [readPairs, bind_eq_ok, Prod.exists] at h
    obtain ⟨key, mid, hkey, value, mid', hvalue, others, rest', hothers, heq⟩ := h
    obtain ⟨rfl, rfl⟩ := Prod.mk.inj (Except.ok.inj heq)
    obtain ⟨hrun, hlength⟩ := ih hothers
    exact ⟨.cons ⟨mid, ⟨levels, hkey⟩, levels, hvalue⟩ hrun, by simp [hlength]⟩

theorem run_of_readUntilBreak {levels left : Nat} {items : List Item}
    (h : readUntilBreak (read levels) left bs = .ok (items, rest)) : Run Reads bs items (breakByte :: rest) := by
  induction items generalizing left bs with
  | nil =>
    rcases readUntilBreak_eq_ok.1 h with ⟨-, rfl⟩ | ⟨_, _, _, _, _, _, -, -, hnil, -⟩
    · exact .nil
    · cases hnil
  | cons x xs ih =>
    rcases readUntilBreak_eq_ok.1 h with ⟨hnil, -⟩ | ⟨b, tail, y, mid, ys, left, -, rfl, heq, rfl, hx, hxs⟩
    · cases hnil
    obtain ⟨rfl, rfl⟩ := List.cons.inj heq
    exact .cons ⟨levels, hx⟩ (ih hxs)

theorem reads_of_readValue {levels : Nat} {item : Item} (h : readValue (read levels) bs = .ok (item, rest)) :
    Reads bs item rest := by
  cases bs with
  | nil => cases h
  | cons b bs =>
    rw [readValue] at h
    split at h
    next => cases h
    next => exact ⟨levels, h⟩

theorem run_of_readPairsUntilBreak {levels left : Nat} {pairs : List (Item × Item)}
    (h : readPairsUntilBreak (read levels) left bs = .ok (pairs, rest)) :
    Run ReadsPair bs pairs (breakByte :: rest) := by
  induction pairs generalizing left bs with
  | nil =>
    rcases readPairsUntilBreak_eq_ok.1 h with ⟨-, rfl⟩ | ⟨_, _, _, _, _, _, _, _, -, -, hnil, -⟩
    · exact .nil
    · cases hnil
  | cons pair pairs ih =>
    rcases readPairsUntilBreak_eq_ok.1 h with
      ⟨hnil, -⟩ | ⟨b, tail, key, mid, value, mid', others, left, -, rfl, heq, rfl, hkey, hvalue, hothers⟩
    · cases hnil
    obtain ⟨rfl, rfl⟩ := List.cons.inj heq
    exact .cons ⟨mid, ⟨levels, hkey⟩, reads_of_readValue hvalue⟩ (ih hothers)

theorem rows_of_readElements {levels : Nat} {head : Head} {items : List Item}
    (h : readElements (read levels) head bs = .ok (items, rest)) : Rows Reads head head.arg bs items rest := by
  unfold readElements at h
  unfold Rows
  split at h
  next hopen =>
    rw [if_pos hopen]
    exact run_of_readUntilBreak h
  next hopen =>
    rw [if_neg hopen]
    split at h
    next => cases h
    next =>
      split at h
      next => cases h
      next => exact run_of_readMany h

theorem rows_of_readEntries {levels : Nat} {head : Head} {pairs : List (Item × Item)}
    (h : readEntries (read levels) head bs = .ok (pairs, rest)) : Rows ReadsPair head head.arg bs pairs rest := by
  unfold readEntries at h
  unfold Rows
  split at h
  next hopen =>
    rw [if_pos hopen]
    exact run_of_readPairsUntilBreak h
  next hopen =>
    rw [if_neg hopen]
    split at h
    next => cases h
    next =>
      split at h
      next => cases h
      next => exact run_of_readPairs h

theorem takeExactly_of_readString {length : Nat} {contents : Bytes} (h : readString length bs = .ok (contents, rest)) :
    Head.takeExactly length bs = some (contents, rest) := by
  unfold readString at h
  split at h
  next => cases h
  next =>
    split at h
    next result htake =>
      obtain rfl := Except.ok.inj h
      exact htake
    next => cases h

theorem run_of_readChunks {major most : Nat} {chunks : List Bytes}
    (h : readChunks major most bs = .ok (chunks, rest)) : Run (ReadsChunk major) bs chunks (breakByte :: rest) := by
  induction most generalizing bs chunks with
  | zero => cases bs <;> cases h
  | succ most ih =>
    cases bs with
    | nil => cases h
    | cons b bs =>
      simp only [readChunks] at h
      split at h
      next hbreak =>
        obtain ⟨rfl, rfl⟩ := Prod.mk.inj (Except.ok.inj h)
        rw [hbreak]
        exact .nil
      next =>
        split at h
        next => cases h
        next hfirst =>
          simp only [bind_eq_ok, Prod.exists] at h
          obtain ⟨head, mid, hhead, chunk, mid', hchunk, others, rest', hothers, heq⟩ := h
          obtain ⟨rfl, rfl⟩ := Prod.mk.inj (Except.ok.inj heq)
          obtain ⟨hmajor, hinfo⟩ := Head.first_of_take (Head.take_of_read hhead)
          refine .cons ⟨head, mid, hhead, by omega, ?_, takeExactly_of_readString hchunk⟩ (ih hothers)
          simp only [Head.isIndefinite, beq_eq_false_iff_ne]
          omega

theorem chunks_of_readText {head : Head} {chunks : List Bytes} (h : readText head bs = .ok (chunks, rest)) :
    Chunks head bs chunks rest := by
  unfold readText at h
  unfold Chunks
  split at h
  next hopen =>
    rw [if_pos hopen]
    exact run_of_readChunks h
  next hopen =>
    rw [if_neg hopen]
    obtain ⟨⟨chunk, rest'⟩, hchunk, heq⟩ := bind_eq_ok.1 h
    obtain ⟨rfl, rfl⟩ := Prod.mk.inj (Except.ok.inj heq)
    exact ⟨chunk, rfl, takeExactly_of_readString hchunk⟩

end Rows

/-! ## Items -/

section Items

variable {bs mid rest : Bytes} {item : Item}

theorem form_of_readAfter {levels : Nat} {head : Head} (h : readAfter (inside levels) head mid = .ok (item, rest)) :
    Form head mid item rest := by
  unfold readAfter at h
  split at h
  next hmajor =>
    obtain ⟨rfl, rfl⟩ := Prod.mk.inj (Except.ok.inj h)
    exact .unsigned hmajor
  next hmajor =>
    obtain ⟨rfl, rfl⟩ := Prod.mk.inj (Except.ok.inj h)
    exact .negative hmajor
  next hmajor =>
    obtain ⟨⟨chunks, rest'⟩, hchunks, heq⟩ := bind_eq_ok.1 h
    obtain ⟨rfl, rfl⟩ := Prod.mk.inj (Except.ok.inj heq)
    exact .bytes hmajor (chunks_of_readText hchunks)
  next hmajor =>
    obtain ⟨⟨chunks, rest'⟩, hchunks, heq⟩ := bind_eq_ok.1 h
    obtain ⟨rfl, rfl⟩ := Prod.mk.inj (Except.ok.inj heq)
    exact .text hmajor (chunks_of_readText hchunks)
  next hmajor =>
    cases levels with
    | zero => cases h
    | succ levels =>
      obtain ⟨⟨items, rest'⟩, hitems, heq⟩ := bind_eq_ok.1 h
      obtain ⟨rfl, rfl⟩ := Prod.mk.inj (Except.ok.inj heq)
      exact .array hmajor (rows_of_readElements hitems)
  next hmajor =>
    cases levels with
    | zero => cases h
    | succ levels =>
      obtain ⟨⟨pairs, rest'⟩, hpairs, heq⟩ := bind_eq_ok.1 h
      obtain ⟨rfl, rfl⟩ := Prod.mk.inj (Except.ok.inj heq)
      exact .map hmajor (rows_of_readEntries hpairs)
  next hmajor =>
    obtain ⟨rfl, rfl⟩ := Prod.mk.inj (Except.ok.inj h)
    by_cases hinfo : 25 ≤ head.info
    · rw [if_pos hinfo]
      exact .float hmajor hinfo
    · rw [if_neg hinfo]
      exact .simple hmajor (by omega)
  next => cases h

/-- An item that the first pass reads is a head and one of the forms after it. The content of a tag is an item of its
own, whether it is read with a level less or looked into right away. -/
theorem Reads.form (h : Reads bs item rest) :
    ∃ head mid, Head.read bs = .ok (head, mid) ∧ Form head mid item rest := by
  obtain ⟨levels, h⟩ := h
  obtain ⟨head, mid, hhead, ⟨-, hafter⟩ | ⟨hmajor, next, mid', content, hnext, rfl, hcontent⟩⟩ := read_eq_ok.1 h
  · exact ⟨head, mid, hhead, form_of_readAfter hafter⟩
  · refine ⟨head, mid, hhead, .tag hmajor ?_⟩
    rcases hcontent with ⟨hne, hafter⟩ | ⟨-, l, -, hread⟩
    · exact ⟨levels, by rw [read_of_head levels hnext hne, hafter]⟩
    · exact ⟨l, hread⟩

/-- What is read takes at least one byte, and its first byte is not the break. -/
def Solid {α : Type} (one : Bytes → α → Bytes → Prop) : Prop :=
  ∀ bs x rest, one bs x rest → rest.length < bs.length ∧ ∃ b tail, bs = b :: tail ∧ b ≠ breakByte

theorem first_of_readHead {head : Head} (h : Head.read bs = .ok (head, mid)) :
    ∃ b tail, bs = b :: tail ∧ b ≠ breakByte := by
  cases bs with
  | nil => cases h
  | cons b tail =>
    refine ⟨b, tail, rfl, ?_⟩
    rintro rfl
    rw [Head.read_breakByte] at h
    cases h

theorem solid_reads : Solid Reads := by
  intro bs item rest h
  obtain ⟨head, mid, hhead, -⟩ := h.form
  obtain ⟨levels, h⟩ := h
  have hnil : ∀ p, read levels [] ≠ .ok p := by
    intro p
    rw [read_of_error rfl]
    exact nofun
  exact ⟨(framed_read levels).length_lt hnil h, first_of_readHead hhead⟩

theorem solid_readsPair : Solid ReadsPair := by
  rintro bs ⟨key, value⟩ rest ⟨mid, hkey, hvalue⟩
  obtain ⟨hlength, hfirst⟩ := solid_reads _ _ _ hkey
  obtain ⟨hlength', -⟩ := solid_reads _ _ _ hvalue
  exact ⟨by omega, hfirst⟩

theorem length_of_takeExactly {n : Nat} {front : Bytes} (h : Head.takeExactly n bs = some (front, rest)) :
    rest.length ≤ bs.length := by
  obtain ⟨rfl, -⟩ := Head.takeExactly_eq_some h
  simp

theorem length_of_readHead {head : Head} (h : Head.read bs = .ok (head, mid)) : mid.length < bs.length :=
  framed_readHead.length_lt (fun _ => nofun) h

theorem solid_readsChunk (major : Nat) : Solid (ReadsChunk major) := by
  rintro bs chunk rest ⟨head, mid, hhead, -, -, hchunk⟩
  have hmid := length_of_readHead hhead
  have hrest := length_of_takeExactly hchunk
  exact ⟨by omega, first_of_readHead hhead⟩

/-- The data of things in a row gets no longer on the way. -/
theorem Run.within {α : Type} {one : Bytes → α → Bytes → Prop} {xs : List α} {most : Nat} (hone : Solid one)
    (hrun : Run one bs xs rest) (hmost : bs.length ≤ most) :
    Run (fun bs x rest => one bs x rest ∧ bs.length ≤ most) bs xs rest := by
  induction hrun with
  | nil => exact .nil
  | cons hx _ ih =>
    obtain ⟨hlength, -⟩ := hone _ _ _ hx
    exact .cons ⟨hx, hmost⟩ (ih (by omega))

theorem Rows.within {α : Type} {one : Bytes → α → Bytes → Prop} {xs : List α} {head : Head} {count most : Nat}
    (hone : Solid one) (hrows : Rows one head count bs xs rest) (hmost : bs.length ≤ most) :
    Rows (fun bs x rest => one bs x rest ∧ bs.length ≤ most) head count bs xs rest := by
  unfold Rows at hrows ⊢
  split at hrows
  next hopen =>
    rw [if_pos hopen]
    exact hrows.within hone hmost
  next hopen =>
    rw [if_neg hopen]
    exact ⟨hrows.1.within hone hmost, hrows.2⟩

/-- Pairs in a row are items in a row. -/
theorem Run.flatten {pairs : List (Item × Item)} (h : Run ReadsPair bs pairs rest) :
    Run Reads bs (pairs.flatMap fun pair => [pair.1, pair.2]) rest := by
  induction h with
  | nil => exact .nil
  | cons hpair _ ih =>
    obtain ⟨mid, hkey, hvalue⟩ := hpair
    exact .cons hkey (.cons hvalue ih)

theorem Rows.flatten {pairs : List (Item × Item)} {head : Head} {count : Nat}
    (h : Rows ReadsPair head count bs pairs rest) :
    Rows Reads head (2 * count) bs (pairs.flatMap fun pair => [pair.1, pair.2]) rest := by
  unfold Rows at h ⊢
  split at h
  next hopen =>
    rw [if_pos hopen]
    exact h.flatten
  next hopen =>
    rw [if_neg hopen]
    refine ⟨h.1.flatten, ?_⟩
    simp [← h.2]
    omega

end Items

end Item

/-! ## The second pass keeps in step -/

namespace SecondPass

open Item

section Loops

variable {α σ τ : Type} {one : Bytes → α → Bytes → Prop} {step : σ → Pass σ} {stands : σ → τ → Prop} {next : τ → α → τ}
  {bs rest : Bytes} {xs : List α} {s : σ} {t : τ}

/-- A step of the second pass takes off what `one` reads. What it has come to stands for `t`, which goes on by `next`
with what is read. -/
def Follows (one : Bytes → α → Bytes → Prop) (step : σ → Pass σ) (stands : σ → τ → Prop) (next : τ → α → τ) : Prop :=
  ∀ bs x rest s t, one bs x rest → stands s t → ∃ s', step s bs = some (s', rest) ∧ stands s' (next t x)

theorem times_of_run (hstep : Follows one step stands next) (hrun : Run one bs xs rest) (hs : stands s t) :
    ∃ s', times step xs.length s bs = some (s', rest) ∧ stands s' (xs.foldl next t) := by
  induction hrun generalizing s t with
  | nil => exact ⟨s, rfl, hs⟩
  | cons hx _ ih =>
    obtain ⟨s₁, hfirst, hs₁⟩ := hstep _ _ _ _ _ hx hs
    obtain ⟨s₂, hrest, hs₂⟩ := ih hs₁
    exact ⟨s₂, by simp [times, hfirst, hrest], hs₂⟩

theorem untilBreak_of_run (hone : Solid one) (hstep : Follows one step stands next)
    (hrun : Run one bs xs (breakByte :: rest)) (hs : stands s t) {most : Nat} (hmost : bs.length ≤ most) :
    ∃ s', untilBreak step most s bs = some (s', rest) ∧ stands s' (xs.foldl next t) := by
  generalize hend : breakByte :: rest = tail at hrun
  induction hrun generalizing s t most with
  | nil =>
    subst hend
    exact ⟨s, by cases most <;> simp [untilBreak], hs⟩
  | @cons bs mid _ x xs hx _ ih =>
    obtain ⟨hlength, b, tail, rfl, hbreak⟩ := hone _ _ _ hx
    obtain ⟨s₁, hfirst, hs₁⟩ := hstep _ _ _ _ _ hx hs
    cases most with
    | zero => simp at hmost
    | succ most =>
      have hmid : mid.length ≤ most := by omega
      obtain ⟨s₂, hrest, hs₂⟩ := ih hs₁ hmid hend
      exact ⟨s₂, by simp [untilBreak, hbreak, hfirst, hrest], hs₂⟩

theorem repeated_of_rows {head : Head} {count : Nat} (hone : Solid one) (hstep : Follows one step stands next)
    (hrows : Rows one head count bs xs rest) (hs : stands s t) :
    ∃ s', repeated step head count s bs = some (s', rest) ∧ stands s' (xs.foldl next t) := by
  unfold Rows at hrows
  unfold repeated
  by_cases hopen : head.isIndefinite = true
  · rw [if_pos hopen] at hrows ⊢
    exact untilBreak_of_run hone hstep hrows hs Nat.le.refl
  · rw [if_neg hopen] at hrows ⊢
    rw [← hrows.2]
    exact times_of_run hstep hrows.1 hs

end Loops

section Skipping

variable {bs rest : Bytes} {depth : Nat}

/-- To pass over something is a step that has nothing to remember. -/
theorem follows_of_skips {α : Type} {one : Bytes → α → Bytes → Prop} {inner : Pass Unit}
    (h : ∀ bs x rest, one bs x rest → inner bs = some ((), rest)) :
    Follows one (fun _ => inner) (fun _ _ : Unit => True) fun t _ => t :=
  fun bs x rest _ _ hx _ => ⟨(), h bs x rest hx, trivial⟩

theorem solid_within {α : Type} {one : Bytes → α → Bytes → Prop} (hone : Solid one) (most : Nat) :
    Solid fun bs x rest => one bs x rest ∧ bs.length ≤ most :=
  fun bs x rest h => hone bs x rest h.1

theorem skip_rows {α : Type} {one : Bytes → α → Bytes → Prop} {inner : Pass Unit} {head : Head} {count : Nat}
    {xs : List α} (hone : Solid one)
    (hinner : ∀ bs x rest, one bs x rest → bs.length ≤ depth → inner bs = some ((), rest))
    (hrows : Rows one head count bs xs rest) (hdepth : bs.length ≤ depth) :
    repeated (fun _ => inner) head count () bs = some ((), rest) := by
  obtain ⟨_, hskip, -⟩ := repeated_of_rows (solid_within hone depth)
    (follows_of_skips fun bs x rest h => hinner bs x rest h.1 h.2) (hrows.within hone hdepth) (t := ()) trivial
  exact hskip

theorem skipWithin_chunk {major : Nat} {chunk : Bytes} (hmajor : major = 2 ∨ major = 3)
    (h : ReadsChunk major bs chunk rest) (hdepth : bs.length ≤ depth) : skipWithin depth bs = some ((), rest) := by
  obtain ⟨head, mid, hhead, heq, hclosed, hchunk⟩ := h
  have hmid := length_of_readHead hhead
  cases depth with
  | zero => omega
  | succ depth =>
    rw [← heq] at hmajor
    rcases hmajor with hmajor | hmajor
    · simp [skipWithin, Head.take_of_read hhead, skipAfter, hmajor, hclosed, hchunk]
    · simp [skipWithin, Head.take_of_read hhead, skipAfter, hmajor, hclosed, hchunk]

/-- Chunks are passed over like the items of an array. -/
theorem skipAfter_chunks {head : Head} {chunks : List Bytes} (hmajor : head.major = 2 ∨ head.major = 3)
    (h : Chunks head bs chunks rest) (hdepth : bs.length ≤ depth) :
    skipAfter (skipWithin depth) head bs = some ((), rest) := by
  have hskip : skipAfter (skipWithin depth) head bs =
      if head.isIndefinite then untilBreak (fun _ => skipWithin depth) bs.length () bs
      else (Head.takeExactly head.arg bs).map fun p => ((), p.2) := by
    rcases hmajor with hmajor | hmajor <;> simp only [skipAfter, hmajor]
  rw [hskip]
  unfold Chunks at h
  split at h
  next hopen =>
    have hrows : Rows (ReadsChunk head.major) head 0 bs chunks rest := by
      unfold Rows
      rwa [if_pos hopen]
    have hall := skip_rows (solid_readsChunk head.major)
      (fun bs chunk rest hchunk hle => skipWithin_chunk hmajor hchunk hle) hrows hdepth
    rw [repeated, if_pos hopen] at hall
    rw [if_pos hopen, hall]
  next hopen =>
    obtain ⟨chunk, -, hchunk⟩ := h
    rw [if_neg hopen, hchunk, Option.map_some]

theorem skipWithin_of_reads {item : Item} (h : Reads bs item rest) (hdepth : bs.length ≤ depth) :
    skipWithin depth bs = some ((), rest) := by
  induction depth generalizing bs item rest with
  | zero =>
    obtain ⟨hlength, -⟩ := solid_reads _ _ _ h
    omega
  | succ depth ih =>
    obtain ⟨head, mid, hhead, hform⟩ := h.form
    have hmid := length_of_readHead hhead
    have hle : mid.length ≤ depth := by omega
    have hinner : ∀ bs x rest, Reads bs x rest → bs.length ≤ depth → skipWithin depth bs = some ((), rest) :=
      fun bs x rest hx hle => ih hx hle
    simp only [skipWithin, Head.take_of_read hhead, Option.bind_eq_bind, Option.bind_some]
    cases hform with
    | unsigned hmajor | negative hmajor | simple hmajor | float hmajor => simp only [skipAfter, hmajor]
    | bytes hmajor hchunks => exact skipAfter_chunks (.inl hmajor) hchunks hle
    | text hmajor hchunks => exact skipAfter_chunks (.inr hmajor) hchunks hle
    | array hmajor hrows =>
      simp only [skipAfter, hmajor]
      exact skip_rows solid_reads hinner hrows hle
    | map hmajor hrows =>
      simp only [skipAfter, hmajor]
      exact skip_rows solid_reads hinner hrows.flatten hle
    | tag hmajor hcontent =>
      simp only [skipAfter, hmajor]
      exact ih hcontent hle

/-- Skipping takes just the item off the data that the first pass reads there. -/
theorem skip_of_reads {item : Item} (h : Reads bs item rest) : skip bs = some ((), rest) :=
  skipWithin_of_reads h Nat.le.refl

end Skipping

section Strings

variable {head : Head} {bs rest : Bytes} {chunks : List Bytes}

theorem chunk_of_reads {major : Nat} {contents : Bytes} (h : ReadsChunk major bs contents rest) :
    chunk bs = some (contents, rest) := by
  obtain ⟨head, mid, hhead, -, -, hchunk⟩ := h
  simp [chunk, Head.take_of_read hhead, hchunk]

theorem joined_of_chunks (h : Chunks head bs chunks rest) : joined head bs = some (chunks.flatten, rest) := by
  unfold Chunks at h
  unfold joined
  split at h
  next hopen =>
    have hstep : Follows (ReadsChunk head.major) (fun front bs => (chunk bs).map fun p => (front ++ p.1, p.2))
        (· = ·) (· ++ ·) := by
      rintro bs c rest front _ hc rfl
      exact ⟨front ++ c, by simp [chunk_of_reads hc], rfl⟩
    obtain ⟨s, hrun, rfl⟩ := untilBreak_of_run (solid_readsChunk head.major) hstep h (s := []) rfl Nat.le.refl
    have hjoin : chunks.foldl (· ++ ·) [] = [] ++ (chunks.map id).flatten := List.foldl_append_eq_append
    rw [if_pos hopen, hrun, hjoin, List.map_id, List.nil_append]
  next hopen =>
    obtain ⟨c, rfl, hc⟩ := h
    rw [if_neg hopen, hc]
    simp

/-- The text so far with one more chunk, if both are valid. -/
def extendText (front : Option Bytes) (chunk : Bytes) : Option Bytes :=
  front.bind fun front => if Text.Utf8.isValid chunk then some (front ++ chunk) else none

theorem foldl_extendText (chunks : List Bytes) (front : Option Bytes) :
    chunks.foldl extendText front =
      front.bind fun front => if chunks.all Text.Utf8.isValid then some (front ++ chunks.flatten) else none := by
  induction chunks generalizing front with
  | nil => cases front <;> simp
  | cons c chunks ih =>
    rw [List.foldl_cons, ih]
    cases front with
    | none => rfl
    | some front => by_cases hc : Text.Utf8.isValid c = true <;> simp [extendText, hc]

/-- A chunk that is read may be skipped as an item. -/
theorem skip_of_readsChunk {major : Nat} {contents : Bytes} (hmajor : major = 2 ∨ major = 3)
    (h : ReadsChunk major bs contents rest) : skip bs = some ((), rest) :=
  skipWithin_chunk hmajor h Nat.le.refl

theorem text_of_chunks (hmajor : head.major = 3) (h : Chunks head bs chunks rest) :
    text head bs = some (if chunks.all Text.Utf8.isValid then some chunks.flatten else none, rest) := by
  unfold Chunks at h
  unfold text
  split at h
  next hopen =>
    have hstep : Follows (ReadsChunk head.major) joinText (· = ·) extendText := by
      rintro bs c rest front _ hc rfl
      refine ⟨extendText front c, ?_, rfl⟩
      cases front with
      | none => simp [joinText, skip_of_readsChunk (.inr hmajor) hc, extendText]
      | some front => simp [joinText, chunk_of_reads hc, extendText]
    obtain ⟨s, hrun, rfl⟩ := untilBreak_of_run (solid_readsChunk head.major) hstep h (s := some []) rfl Nat.le.refl
    rw [if_pos hopen, hrun, foldl_extendText]
    simp
  next hopen =>
    obtain ⟨c, rfl, hc⟩ := h
    rw [if_neg hopen, hc]
    simp

end Strings

end SecondPass

end Dispatch.Wire
