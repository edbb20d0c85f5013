/-
What the second pass makes of an item. It decodes into a target, which may be half filled when something does not fit;
the first such thing is the answer, but the pass goes on to the end of the item all the same.

A target says which integers, byte strings, arrays and maps it takes; the rest is one function for all targets
(`Target.decode`): it looks through the tags, goes by the type of what it finds and skips what is not taken. For the five
targets there are, it leaves the data where the first pass left it, and answers what is made of the item as a whole
(`Target.Decodes`). So the two decoders, which differ in their targets only, cannot disagree about the form of the data.
-/
import Mathlib.Data.List.Induction
import Dispatch.Proofs.ListDecoding
import Dispatch.Proofs.SecondPass

namespace Dispatch.Wire

namespace SecondPass

/-! ## Targets -/

/-- What is in a target after decoding, and the first thing that did not fit. -/
structure Filled (α : Type) where
  value : α
  fault : Option Mistyped
  deriving DecidableEq, Repr

/-- What comes of it: nothing that is in the target counts after a fault. -/
def Filled.result {α : Type} (filled : Filled α) : Except Mistyped α :=
  match filled.fault with
  | none => .ok filled.value
  | some m => .error m

/-- One more element, with its fault if there was none before. -/
def Filled.push {α : Type} (filled : Filled (List α)) (x : Filled α) : Filled (List α) :=
  ⟨filled.value ++ [x.value], filled.fault <|> x.fault⟩

/-- What can be decoded into. -/
structure Target (α : Type) where
  /-- What is in it before, and after null. -/
  blank : α
  /-- The integers that it takes. -/
  integer : Int → Option α
  /-- The byte strings that it takes. -/
  bytes : Bytes → Option α
  /-- How it takes arrays, if it does. -/
  array : Option (Pass (Filled α))
  /-- How it takes maps, if it does. -/
  map : Option (Pass (Filled α))

/-- Whether an item may stand under a tag; its first byte decides. A date is a text, a time a number, and the bytes of
a large integer are a byte string. -/
def fits (tag : Nat) (first : UInt8) : Bool :=
  match tag with
  | 0 => first.toNat / 32 == 3
  | 1 => first.toNat / 32 ≤ 1 || (0xf9 ≤ first.toNat && first.toNat ≤ 0xfb)
  | 2 | 3 => first.toNat / 32 == 2
  | _ => true

/-- The large integer under tag 2, or the negative one under tag 3. -/
def bignum (tag : Nat) (bs : Bytes) : Int := if tag = 3 then -1 - (Head.number bs : Int) else Head.number bs

namespace Target

variable {α : Type} (t : Target α)

def refuse (m : Mistyped) : Filled α := ⟨t.blank, some m⟩

def put : Option α → Filled α
  | some a => ⟨a, none⟩
  | none => t.refuse .wrongType

/-- An array or a map, which is skipped if it is not taken. -/
def aggregate (taken : Option (Pass (Filled α))) : Pass (Filled α) := fun bs =>
  match taken with
  | some decode => decode bs
  | none => (skip bs).map fun p => (t.refuse .wrongType, p.2)

/-- An item that is not a tag, by its head; `mid` is what follows the head. -/
def plain (head : Head) (bs mid : Bytes) : Option (Filled α × Bytes) :=
  match head.major with
  | 0 => some (t.put (t.integer head.arg), mid)
  | 1 => some (t.put (t.integer (-1 - (head.arg : Int))), mid)
  | 2 => (joined head mid).map fun p => (t.put (t.bytes p.1), p.2)
  | 3 => (text head mid).map fun p => (t.refuse (if p.1.isSome then .wrongType else .badText), p.2)
  | 4 => t.aggregate t.array bs
  | 5 => t.aggregate t.map bs
  | _ =>
    if 25 ≤ head.info then some (t.refuse .wrongType, mid)
    else if isNull head.arg then some (⟨t.blank, none⟩, mid)
    else if isTruth head.arg then some (t.refuse .wrongType, mid)
    else some (t.put (t.integer head.arg), mid)

/-- A byte string under tag 2 or 3: for bytes what it is, and else an integer. -/
def large (tag : Nat) : Pass (Filled α) := fun bs => do
  let (head, bs) ← Head.take bs
  (joined head bs).map fun p => (t.put (t.bytes p.1 <|> t.integer (bignum tag p.1)), p.2)

/-- An item under at most `most` tags. -/
def decodeWithin : (most : Nat) → Pass (Filled α)
  | 0, _ => none
  | most + 1, bs => do
    let (head, mid) ← Head.take bs
    if head.major = 6 then
      let first ← mid.head?
      if fits head.arg first = false then (skip mid).map fun p => (t.refuse .badTag, p.2)
      else if head.arg = 2 ∨ head.arg = 3 then t.large head.arg mid
      else decodeWithin most mid
    else t.plain head bs mid

/-- An item. There are no more tags than bytes. -/
def decode : Pass (Filled α) := fun bs => t.decodeWithin bs.length bs

/-- The elements of an array, each into a target of its own. -/
def decodeAll : Pass (Filled (List α)) := fun bs => do
  let (head, bs) ← Head.take bs
  repeated (fun filled bs => (t.decode bs).map fun p => (filled.push p.1, p.2)) head head.arg ⟨[], none⟩ bs

end Target

/-- A number of eight bits. -/
def byte : Target UInt8 where
  blank := 0
  integer n := if 0 ≤ n ∧ n < 256 then some (UInt8.ofNat n.toNat) else none
  bytes _ := none
  array := none
  map := none

/-- A signed number of 64 bits. -/
def int64 : Target Int64 where
  blank := 0
  integer n := if Int64.minValue.toInt ≤ n ∧ n ≤ Int64.maxValue.toInt then some (Int64.ofInt n) else none
  bytes _ := none
  array := none
  map := none

/-- Bytes, from an array of numbers as well. -/
def bytes : Target Bytes where
  blank := []
  integer _ := none
  bytes := some
  array := some byte.decodeAll
  map := none

/-- An envelope in the making: the fields that have been met, fitting or not, and what they have come to. -/
structure Draft where
  found : List Envelope.Field
  envelope : Envelope
  fault : Option Mistyped

/-- The field with a number of 64 bits. -/
def fieldOf? (n : Int64) : Option Envelope.Field :=
  if n = 1 then some .kind else if n = 2 then some .int else if n = 3 then some .bytes else none

/-- The field that a key names. A key that is neither a number nor a text is skipped. -/
def key : Pass (Except Mistyped (Option Envelope.Field)) := fun bs => do
  let (head, mid) ← Head.take bs
  match head.major with
  | 0 => some (.ok (fieldOf? (Int64.ofNat head.arg)), mid)
  | 1 => some (if (head.arg : Int) ≤ Int64.maxValue.toInt then .ok none else .error .wrongType, mid)
  | 3 =>
    (text head mid).map fun p =>
      (match p.1 with
        | some contents => .ok (Envelope.Field.ofText? contents)
        | none => .error .badText, p.2)
  | _ => (skip bs).map fun p => (.error .wrongType, p.2)

namespace Draft

/-- Decode a value into a field. -/
def fill {α : Type} (d : Draft) (field : Envelope.Field) (t : Target α) (set : Envelope → α → Envelope) : Pass Draft :=
  fun bs => (t.decode bs).map fun p =>
    (⟨field :: d.found, set d.envelope p.1.value, d.fault <|> p.1.fault⟩, p.2)

def enterField (d : Draft) : Envelope.Field → Pass Draft
  | .kind => d.fill .kind byte fun e n => { e with kind := n }
  | .int => d.fill .int int64 fun e n => { e with int := n }
  | .bytes => d.fill .bytes SecondPass.bytes fun e bs => { e with bytes := bs }

/-- One entry of a map. Its value is skipped if the key is wrong or names no field, or a field that has been met. -/
def enter (d : Draft) : Pass Draft := fun bs => do
  let (named, bs) ← key bs
  match named with
  | .error m => (skip bs).map fun p => ({ d with fault := d.fault <|> some m }, p.2)
  | .ok none => (skip bs).map fun p => (d, p.2)
  | .ok (some field) =>
    if field ∈ d.found then (skip bs).map fun p => (d, p.2) else d.enterField field bs

/-- The entries of a map. -/
def decode : Pass (Filled Envelope) := fun bs => do
  let (head, bs) ← Head.take bs
  (repeated enter head head.arg ⟨[], .zero, none⟩ bs).map fun p => (⟨p.1.envelope, p.1.fault⟩, p.2)

end Draft

def envelope : Target Envelope where
  blank := .zero
  integer _ := none
  bytes _ := none
  array := none
  map := some Draft.decode

def envelopes : Target (List Envelope) where
  blank := []
  integer _ := none
  bytes _ := none
  array := some envelope.decodeAll
  map := none

end SecondPass

/-! ## Tags -/

namespace Item

/-- Whether an item may stand under a tag. -/
def suits : (tag : Nat) → Item → Bool
  | 0, .text _ => true
  | 0, _ => false
  | 1, .unsigned _ => true
  | 1, .negative _ => true
  | 1, .float => true
  | 1, _ => false
  | 2, .bytes _ => true
  | 2, _ => false
  | 3, .bytes _ => true
  | 3, _ => false
  | _, _ => true

theorem content_of_isTag {item : Item} (h : item.isTag = false) : item.content = .ok (.plain item) := by
  cases item with
  | tag => cases h
  | _ => simp [content]

theorem content_tag_of_not_suits {n : Nat} {item : Item} (h : item.suits n = false) :
    (tag n item).content = .error .badTag := by
  rcases n with _ | _ | _ | _ | n <;> cases item <;> simp_all [suits, content]

theorem content_tag_of_suits {n : Nat} {item : Item} (h : item.suits n = true) (htwo : n ≠ 2) (hthree : n ≠ 3) :
    (tag n item).content = item.content := by
  rcases n with _ | _ | _ | _ | n <;> cases item <;> simp_all [suits, content]

theorem bytes_of_suits {n : Nat} {item : Item} (h : item.suits n = true) (hn : n = 2 ∨ n = 3) :
    ∃ bs, item = .bytes bs ∧ (tag n item).content = .ok (.bignum (n == 3) bs) := by
  rcases hn with rfl | rfl <;> cases item <;> simp_all [suits, content]

/-- The head of a simple value or a float does not leave the length open. -/
theorem info_of_readHead {b : UInt8} {tail mid : Bytes} {head : Head} (h : Head.read (b :: tail) = .ok (head, mid))
    (hmajor : head.major = 7) : head.info < 28 := by
  obtain ⟨hfirst, hinfo⟩ := Head.first_of_take (Head.take_of_read h)
  rw [hfirst] at hmajor
  rw [hinfo]
  by_contra hopen
  have hnone : Head.mayBeIndefinite 7 = false := rfl
  simp only [Head.read, hmajor, hnone] at h
  rw [if_neg (by omega), if_neg (by omega), if_neg (by simp)] at h
  cases h

/-- The first byte of an item says what it is, as far as tags care. -/
theorem fits_first {b : UInt8} {tail rest : Bytes} {item : Item} (h : Reads (b :: tail) item rest) (n : Nat) :
    SecondPass.fits n b = item.suits n := by
  obtain ⟨head, mid, hhead, hform⟩ := h.form
  obtain ⟨hfirst, hinfo⟩ := Head.first_of_take (Head.take_of_read hhead)
  have hbyte := b.toNat_lt
  have hbound := info_of_readHead hhead
  rw [hfirst, hinfo] at hbound
  -- The tags with a rule of their own, and the others; only tag 1 looks further than the major type.
  cases hform with
  | unsigned hmajor | negative hmajor | bytes hmajor | text hmajor | array hmajor | map hmajor | tag hmajor =>
    rw [hfirst] at hmajor
    rcases n with _ | _ | _ | _ | n <;> simp [SecondPass.fits, suits, hmajor] <;> omega
  | simple hmajor hlow =>
    rw [hfirst] at hmajor
    rw [hinfo] at hlow
    rcases n with _ | _ | _ | _ | n <;> simp [SecondPass.fits, suits, hmajor]
    omega
  | float hmajor hhigh =>
    rw [hfirst] at hmajor
    rw [hinfo] at hhigh
    have hlow := hbound hmajor
    rcases n with _ | _ | _ | _ | n <;> simp [SecondPass.fits, suits, hmajor]
    omega

end Item

/-! ## Decoding keeps in step -/

namespace SecondPass

open Item

/-- What a target makes of something that it may not take. -/
def fit {α : Type} : Option α → Except Mistyped α
  | some a => .ok a
  | none => .error .wrongType

/-- To go on after a fault and keep the first one is to stop at it, as far as the result goes. -/
theorem foldl_bind {ε σ β : Type} (f : σ → β → Except ε σ) (xs : List β) (made : Except ε σ) :
    xs.foldl (fun made x => made >>= fun s => f s x) made = made >>= fun s => xs.foldlM f s := by
  induction xs generalizing made with
  | nil => cases made <;> rfl
  | cons x xs ih =>
    rw [List.foldl_cons, ih]
    cases made <;> rfl

namespace Target

variable {α : Type} {t : Target α}

/-- The target answers what `make` makes of an item, and takes just the item off the data. -/
def Decodes (t : Target α) (make : Item → Except Mistyped α) : Prop :=
  ∀ bs item rest, Reads bs item rest → ∃ filled, t.decode bs = some (filled, rest) ∧ filled.result = make item

/-- What the target does with arrays or with maps, as `taken` says, is to answer what `make` makes of their rows. -/
def Collects {β : Type} (t : Target α) (one : Bytes → β → Bytes → Prop) (form : List β → Item)
    (taken : Option (Pass (Filled α))) (make : List β → Except Mistyped α) : Prop :=
  ∀ head bs mid xs rest, Head.read bs = .ok (head, mid) → Rows one head head.arg mid xs rest → Reads bs (form xs) rest →
    ∃ filled, t.aggregate taken bs = some (filled, rest) ∧ filled.result = make xs

/-- The target treats what is found under the tags as `make` does: for what it takes, one rule for each type of item. -/
structure Fits (t : Target α) (make : Content → Except Mistyped α) : Prop where
  unsigned : ∀ n, make (.plain (.unsigned n)) = fit (t.integer n)
  negative : ∀ n : Nat, make (.plain (.negative n)) = fit (t.integer (-1 - (n : Int)))
  bytes : ∀ bs, make (.plain (.bytes bs)) = fit (t.bytes bs)
  text : ∀ chunks, make (.plain (.text chunks)) = .error (mismatch (.text chunks))
  simple : ∀ n, make (.plain (.simple n)) =
    if isNull n then .ok t.blank else if isTruth n then .error .wrongType else fit (t.integer n)
  float : make (.plain .float) = .error .wrongType
  bignum : ∀ n bs, n = 2 ∨ n = 3 → make (.bignum (n == 3) bs) = fit (t.bytes bs <|> t.integer (SecondPass.bignum n bs))
  array : t.Collects Reads .array t.array fun items => make (.plain (.array items))
  map : t.Collects ReadsPair .map t.map fun pairs => make (.plain (.map pairs))

theorem result_put (a : Option α) : (t.put a).result = fit a := by
  cases a <;> rfl

/-- What is not taken is skipped. -/
theorem collects_none {β : Type} {one : Bytes → β → Bytes → Prop} {form : List β → Item} :
    t.Collects one form none fun _ => .error .wrongType := by
  intro head bs mid xs rest _ _ h
  exact ⟨t.refuse .wrongType, by simp [aggregate, skip_of_reads h], rfl⟩

section

variable {make : Content → Except Mistyped α} (hfits : t.Fits make) {bs rest : Bytes}

include hfits

theorem plain_of_reads {item : Item} (h : Reads bs item rest) {head : Head} {mid : Bytes}
    (hhead : Head.read bs = .ok (head, mid)) (hform : Form head mid item rest) (htag : item.isTag = false) :
    ∃ filled, t.plain head bs mid = some (filled, rest) ∧ filled.result = make (.plain item) := by
  unfold plain
  cases hform with
  | unsigned hmajor =>
    rw [hmajor, hfits.unsigned]
    exact ⟨_, rfl, result_put _⟩
  | negative hmajor =>
    rw [hmajor, hfits.negative]
    exact ⟨_, rfl, result_put _⟩
  | bytes hmajor hchunks =>
    simp only [hmajor, joined_of_chunks hchunks, hfits.bytes]
    exact ⟨_, rfl, result_put _⟩
  | text hmajor hchunks =>
    simp only [hmajor, text_of_chunks hmajor hchunks, hfits.text, mismatch]
    refine ⟨_, rfl, ?_⟩
    split <;> rfl
  | array hmajor hrows =>
    rw [hmajor]
    exact hfits.array _ _ _ _ _ hhead hrows h
  | map hmajor hrows =>
    rw [hmajor]
    exact hfits.map _ _ _ _ _ hhead hrows h
  | tag => cases htag
  | simple hmajor hlow =>
    simp only [hmajor, Nat.not_le.mpr hlow, if_false, hfits.simple]
    by_cases hnull : isNull head.arg = true
    · simp only [hnull, if_true]
      exact ⟨_, rfl, rfl⟩
    by_cases htruth : isTruth head.arg = true
    · simp only [hnull, htruth, if_true]
      exact ⟨_, rfl, rfl⟩
    · simp only [hnull, htruth]
      exact ⟨_, rfl, result_put _⟩
  | float hmajor hhigh =>
    simp only [hmajor, hhigh, if_true, hfits.float]
    exact ⟨_, rfl, rfl⟩

theorem large_of_reads {tag : Nat} (htag : tag = 2 ∨ tag = 3) {contents : Bytes} (h : Reads bs (.bytes contents) rest) :
    ∃ filled, t.large tag bs = some (filled, rest) ∧ filled.result = make (.bignum (tag == 3) contents) := by
  obtain ⟨head, mid, hhead, hform⟩ := h.form
  cases hform with
  | bytes hmajor hchunks =>
    simp only [large, Head.take_of_read hhead, joined_of_chunks hchunks, hfits.bignum _ _ htag, Option.bind_eq_bind,
      Option.bind_some, Option.map_some]
    exact ⟨_, rfl, result_put _⟩

theorem decodeWithin_of_reads {most : Nat} {item : Item} (h : Reads bs item rest) (hmost : bs.length ≤ most) :
    ∃ filled, t.decodeWithin most bs = some (filled, rest) ∧ filled.result = item.content >>= make := by
  -- On the tags that may still come: the content of a tag is shorter by the tag's head.
  induction most generalizing bs item rest with
  | zero =>
    obtain ⟨hlength, -⟩ := solid_reads _ _ _ h
    omega
  | succ most ih =>
    obtain ⟨head, mid, hhead, hform⟩ := h.form
    have hmid := length_of_readHead hhead
    simp only [decodeWithin, Head.take_of_read hhead, Option.bind_eq_bind, Option.bind_some]
    by_cases htag : item.isTag = true
    · cases hform with
      | @tag content _ hmajor hcontent =>
        obtain ⟨-, b, tail, rfl, -⟩ := solid_reads _ _ _ hcontent
        simp only [hmajor, if_true, List.head?_cons, fits_first hcontent, Option.bind_some]
        by_cases hsuits : content.suits head.arg = true
        · simp only [hsuits, Bool.true_eq_false, if_false]
          by_cases hlarge : head.arg = 2 ∨ head.arg = 3
          · obtain ⟨contents, rfl, hcontents⟩ := bytes_of_suits hsuits hlarge
            rw [if_pos hlarge, hcontents]
            exact large_of_reads hfits hlarge hcontent
          · rw [if_neg hlarge, content_tag_of_suits hsuits (by omega) (by omega)]
            exact ih hcontent (by omega)
        · have hno : content.suits head.arg = false := by simpa using hsuits
          simp only [hno, if_true, skip_of_reads hcontent, content_tag_of_not_suits hno]
          exact ⟨_, rfl, rfl⟩
      | _ => cases htag
    · have hplain : item.isTag = false := by simpa using htag
      have hmajor : head.major ≠ 6 := by
        cases hform with
        | tag => cases hplain
        | _ => omega
      rw [if_neg hmajor, content_of_isTag hplain]
      exact plain_of_reads hfits h hhead hform hplain

/-- What holds of what is found under the tags holds of the item. -/
theorem Fits.decodes : t.Decodes fun item => item.content >>= make :=
  fun _ _ _ h => decodeWithin_of_reads hfits h Nat.le.refl

end

/-! ### Arrays -/

theorem result_push (filled : Filled (List α)) (x : Filled α) :
    (filled.push x).result = filled.result >>= fun xs => x.result >>= fun y => .ok (xs ++ [y]) := by
  obtain ⟨xs, _ | m⟩ := filled
  · obtain ⟨y, _ | m⟩ := x <;> rfl
  · rfl

theorem foldlM_eq_mapM {β : Type} (make : β → Except Mistyped α) (items : List β) (ys : List α) :
    items.foldlM (fun ys x => make x >>= fun y => .ok (ys ++ [y])) ys = items.mapM make >>= fun zs => .ok (ys ++ zs) := by
  induction items generalizing ys with
  | nil => simp [pure, Except.pure]
  | cons x items ih =>
    rw [List.foldlM_cons, List.mapM_cons]
    cases make x with
    | error m => rfl
    | ok y =>
      simp only [ok_bind, ih]
      cases items.mapM make <;> simp [pure, Except.pure]

/-- An array is decoded element by element; after a fault the others are gone through all the same. -/
theorem collects_decodeAll {make : Item → Except Mistyped α} (h : t.Decodes make) {list : Target (List α)} :
    list.Collects Reads .array (some t.decodeAll) fun items => items.mapM make := by
  intro head bs mid items rest hhead hrows _
  have hstep : Follows Reads (fun (filled : Filled (List α)) bs => (t.decode bs).map fun p => (filled.push p.1, p.2))
      (fun filled made => filled.result = made) (fun made x => made >>= fun ys => make x >>= fun y => .ok (ys ++ [y])) := by
    rintro bs x rest filled _ hx rfl
    obtain ⟨element, hdecode, hresult⟩ := h _ _ _ hx
    exact ⟨filled.push element, by simp [hdecode], by simp only [result_push, hresult]⟩
  obtain ⟨filled, hloop, hresult⟩ := repeated_of_rows solid_reads hstep hrows (s := ⟨[], none⟩) rfl
  refine ⟨filled, by simp [aggregate, decodeAll, Head.take_of_read hhead, hloop], ?_⟩
  show filled.result = items.mapM make
  rw [hresult, foldl_bind, Filled.result, ok_bind, foldlM_eq_mapM]
  cases items.mapM make <;> rfl

/-! ### Numbers and bytes -/

/-- A target for integers only. -/
theorem fits_number (hbytes : ∀ bs, t.bytes bs = none) (harray : t.array = none) (hmap : t.map = none)
    (hzero : t.integer 0 = some t.blank) : t.Fits fun c => c.integer >>= fun n => fit (t.integer n) where
  unsigned _ := rfl
  negative _ := rfl
  bytes bs := by rw [hbytes]; rfl
  text _ := rfl
  simple n := by
    simp only [Content.integer]
    by_cases hnull : isNull n = true
    · simp [hnull, hzero, fit]
    · by_cases htruth : isTruth n = true <;> simp [hnull, htruth]
  float := rfl
  bignum n bs hn := by
    rw [hbytes]
    rcases hn with rfl | rfl <;> rfl
  array := by
    rw [harray]
    exact collects_none
  map := by
    rw [hmap]
    exact collects_none

/-- What a target that takes no integers makes of what is found under the tags. -/
def contentAs (t : Target α) (array : List Item → Except Mistyped α) (map : List (Item × Item) → Except Mistyped α) :
    Content → Except Mistyped α
  | .plain (.bytes bs) => fit (t.bytes bs)
  | .plain (.array items) => array items
  | .plain (.map pairs) => map pairs
  | .plain (.simple n) => if isNull n then .ok t.blank else .error .wrongType
  | .plain item => .error (mismatch item)
  | .bignum _ bs => fit (t.bytes bs)

theorem fits_contentAs {array : List Item → Except Mistyped α} {map : List (Item × Item) → Except Mistyped α}
    (hinteger : ∀ n, t.integer n = none) (harray : t.Collects Reads .array t.array array)
    (hmap : t.Collects ReadsPair .map t.map map) : t.Fits (t.contentAs array map) where
  unsigned n := by rw [hinteger]; rfl
  negative n := by rw [hinteger]; rfl
  bytes _ := rfl
  text _ := rfl
  simple n := by
    rw [hinteger]
    by_cases hnull : isNull n = true
    · simp [contentAs, hnull]
    · by_cases htruth : isTruth n = true <;> simp [contentAs, hnull, htruth, fit]
  float := rfl
  bignum _ _ _ := by simp [contentAs, hinteger]
  array := harray
  map := hmap

end Target

theorem byte_decodes : byte.Decodes Item.asByte := by
  have hmake : Item.asByte = fun item => item.content >>= fun c => c.integer >>= fun n => fit (byte.integer n) := by
    funext item
    refine bind_congr_ok fun c _ => bind_congr_ok fun n _ => ?_
    simp only [byte]
    split <;> rfl
  rw [hmake]
  exact (Target.fits_number (fun _ => rfl) rfl rfl rfl).decodes

theorem int64_decodes : int64.Decodes Item.asInt64 := by
  have hmake : Item.asInt64 = fun item => item.content >>= fun c => c.integer >>= fun n => fit (int64.integer n) := by
    funext item
    refine bind_congr_ok fun c _ => bind_congr_ok fun n _ => ?_
    simp only [int64]
    split <;> rfl
  rw [hmake]
  exact (Target.fits_number (fun _ => rfl) rfl rfl (by decide)).decodes

theorem bytes_decodes : bytes.Decodes Item.asBytes := by
  have hmake : Item.asBytes = fun item =>
      item.content >>= bytes.contentAs (fun items => items.mapM Item.asByte) fun _ => .error .wrongType := by
    funext item
    refine bind_congr_ok fun c _ => ?_
    cases c with
    | plain item => cases item <;> rfl
    | bignum => rfl
  rw [hmake]
  exact (Target.fits_contentAs (fun _ => rfl) (Target.collects_decodeAll byte_decodes) Target.collects_none).decodes

end SecondPass

/-! ## Envelopes -/

namespace Head

theorem number_lt (bs : Bytes) : number bs < Nat.pow 256 bs.length := by
  induction bs using List.reverseRecOn with
  | nil => decide
  | append_singleton bs b ih =>
    have hb := b.toNat_lt
    have hpow : Nat.pow 256 (bs.length + 1) = Nat.pow 256 bs.length * 256 := rfl
    rw [number_concat, List.length_append, List.length_singleton, hpow]
    omega

/-- An argument takes eight bytes at most. -/
theorem arg_lt_of_read {bs rest : Bytes} {head : Head} (h : read bs = .ok (head, rest)) :
    head.arg < 0x10000000000000000 := by
  have hwidth : ∀ info, Nat.pow 256 (width info) ≤ 0x10000000000000000 := by
    intro info
    unfold width
    split <;> decide
  cases bs with
  | nil => cases h
  | cons b bs =>
    simp only [read] at h
    split at h
    next hsmall =>
      obtain ⟨rfl, -⟩ := Prod.mk.inj (Except.ok.inj h)
      dsimp only
      omega
    next =>
      split at h
      next =>
        split at h
        next => cases h
        next front tail htake =>
          split at h
          next => cases h
          next =>
            obtain ⟨rfl, -⟩ := Prod.mk.inj (Except.ok.inj h)
            obtain ⟨-, hlength⟩ := takeExactly_eq_some htake
            have hnumber := number_lt front
            rw [hlength] at hnumber
            exact Nat.lt_of_lt_of_le hnumber (hwidth _)
      next =>
        split at h
        next hopen =>
          obtain ⟨rfl, -⟩ := Prod.mk.inj (Except.ok.inj h)
          dsimp only
          omega
        next => cases h

end Head

namespace Envelope

/-- Whether a field has been met. -/
def Fields.has (fields : Fields) : Field → Bool
  | .kind => fields.kind.isSome
  | .int => fields.int.isSome
  | .bytes => fields.bytes.isSome

section

variable {fields : Fields} {key value : Item}

theorem enter_of_has {field : Field} (hkey : Field.ofKey key = .ok (some field)) (h : fields.has field = true) :
    fields.enter (key, value) = .ok fields := by
  cases field <;> simp_all [Fields.enter, Fields.has]

theorem enter_kind (hkey : Field.ofKey key = .ok (some .kind)) (h : fields.has .kind = false) :
    fields.enter (key, value) = value.asByte >>= fun n => .ok { fields with kind := some n } := by
  simp_all [Fields.enter, Fields.has]

theorem enter_int (hkey : Field.ofKey key = .ok (some .int)) (h : fields.has .int = false) :
    fields.enter (key, value) = value.asInt64 >>= fun n => .ok { fields with int := some n } := by
  simp_all [Fields.enter, Fields.has]

theorem enter_bytes (hkey : Field.ofKey key = .ok (some .bytes)) (h : fields.has .bytes = false) :
    fields.enter (key, value) = value.asBytes >>= fun bs => .ok { fields with bytes := some bs } := by
  simp_all [Fields.enter, Fields.has]

end

end Envelope

namespace SecondPass

open Item

/-- A number as a key is one of 64 bits, so no other key wraps around to a field. -/
theorem fieldOf?_ofNat {n : Nat} (h : n < 0x10000000000000000) :
    fieldOf? (Int64.ofNat n) = Envelope.Field.ofNumber? n := by
  have hiff : ∀ k : Nat, k < 0x10000000000000000 → (Int64.ofNat n = Int64.ofNat k ↔ n = k) := by
    intro k hk
    rw [← Int64.toBitVec_inj, Int64.toBitVec_ofNat', Int64.toBitVec_ofNat', ← BitVec.toNat_inj]
    simp
    omega
  have hone : Int64.ofNat n = 1 ↔ n = 1 := hiff 1 (by decide)
  have htwo : Int64.ofNat n = 2 ↔ n = 2 := hiff 2 (by decide)
  have hthree : Int64.ofNat n = 3 ↔ n = 3 := hiff 3 (by decide)
  simp only [fieldOf?, Envelope.Field.ofNumber?, hone, htwo, hthree]

/-- A key is read to its end, whatever it is. -/
theorem key_of_reads {bs rest : Bytes} {item : Item} (h : Reads bs item rest) :
    key bs = some (Envelope.Field.ofKey item, rest) := by
  obtain ⟨head, mid, hhead, hform⟩ := h.form
  simp only [key, Head.take_of_read hhead, Option.bind_eq_bind, Option.bind_some]
  cases hform with
  | unsigned hmajor => simp only [hmajor, fieldOf?_ofNat (Head.arg_lt_of_read hhead), Envelope.Field.ofKey]
  | negative hmajor => simp only [hmajor, Envelope.Field.ofKey]
  | @text chunks _ hmajor hchunks =>
    simp only [hmajor, text_of_chunks hmajor hchunks, Envelope.Field.ofKey, Option.map_some]
    by_cases hvalid : chunks.all Text.Utf8.isValid = true <;> simp [hvalid]
  | bytes hmajor | array hmajor | map hmajor | tag hmajor | simple hmajor | float hmajor =>
    simp only [hmajor, skip_of_reads h, Envelope.Field.ofKey, Option.map_some]

namespace Draft

/-- A draft stands for the fields that have been met, or for the first fault. What is in it after a fault does not
matter. -/
def Stands (d : Draft) : Except Mistyped Envelope.Fields → Prop
  | .ok fields =>
    d.fault = none ∧ d.envelope = Envelope.ofFields fields ∧ ∀ field, field ∈ d.found ↔ fields.has field = true
  | .error m => d.fault = some m

variable {d : Draft} {made : Except Mistyped Envelope.Fields} {bs rest : Bytes}

/-- A value in a field that has not been met. -/
theorem fill_of_reads {α : Type} {t : Target α} {make : Item → Except Mistyped α} (ht : t.Decodes make)
    {field : Envelope.Field} {set : Envelope → α → Envelope} {put : Envelope.Fields → α → Envelope.Fields}
    (hset : ∀ fields a, Envelope.ofFields (put fields a) = set (Envelope.ofFields fields) a)
    (hhas : ∀ fields a other, (put fields a).has other = true ↔ other = field ∨ fields.has other = true)
    {value : Item} (h : Reads bs value rest) (hd : d.Stands made) :
    ∃ d', d.fill field t set bs = some (d', rest) ∧
      d'.Stands (made >>= fun fields => make value >>= fun a => .ok (put fields a)) := by
  obtain ⟨filled, hdecode, hresult⟩ := ht _ _ _ h
  refine ⟨⟨field :: d.found, set d.envelope filled.value, d.fault <|> filled.fault⟩, by simp [fill, hdecode], ?_⟩
  rw [← hresult]
  cases made with
  | error m =>
    have hfault : d.fault = some m := hd
    simp [Stands, hfault]
  | ok fields =>
    obtain ⟨hfault, henvelope, hfound⟩ := hd
    obtain ⟨a, _ | m⟩ := filled
    · refine ⟨by simp [hfault], by rw [hset, henvelope], fun other => ?_⟩
      rw [hhas, List.mem_cons, hfound]
    · simp [Stands, Filled.result, hfault]

/-- An entry that changes no fields is passed over. -/
theorem stands_bind_of_unchanged {entry : Item × Item} (hd : d.Stands made)
    (h : ∀ fields, made = .ok fields → fields.enter entry = .ok fields) :
    d.Stands (made >>= fun fields => fields.enter entry) := by
  cases made with
  | error m => exact hd
  | ok fields => rwa [ok_bind, h fields rfl]

/-- An entry with a key that no field has is a fault, unless there was one before. -/
theorem stands_bind_of_error {entry : Item × Item} {m : Mistyped} (hd : d.Stands made)
    (hkey : Envelope.Field.ofKey entry.1 = .error m) :
    Stands { d with fault := d.fault <|> some m } (made >>= fun fields => fields.enter entry) := by
  cases made with
  | error m' =>
    have hfault : d.fault = some m' := hd
    simp [Stands, hfault]
  | ok fields => simp [Stands, Envelope.Fields.enter, hkey, hd.1]

theorem enterField_of_reads {field : Envelope.Field} {key value : Item}
    (hkey : Envelope.Field.ofKey key = .ok (some field)) (h : Reads bs value rest) (hd : d.Stands made)
    (hnew : field ∉ d.found) :
    ∃ d', d.enterField field bs = some (d', rest) ∧
      d'.Stands (made >>= fun fields => fields.enter (key, value)) := by
  have hhas : ∀ fields, made = .ok fields → fields.has field = false := by
    rintro fields rfl
    simpa [hd.2.2 field] using hnew
  cases field with
  | kind =>
    rw [enterField, bind_congr_ok fun fields hmade => Envelope.enter_kind hkey (hhas fields hmade)]
    refine fill_of_reads byte_decodes ?_ (fun fields n other => ?_) h hd
    · exact fun _ _ => rfl
    · cases other <;> simp [Envelope.Fields.has]
  | int =>
    rw [enterField, bind_congr_ok fun fields hmade => Envelope.enter_int hkey (hhas fields hmade)]
    refine fill_of_reads int64_decodes ?_ (fun fields n other => ?_) h hd
    · exact fun _ _ => rfl
    · cases other <;> simp [Envelope.Fields.has]
  | bytes =>
    rw [enterField, bind_congr_ok fun fields hmade => Envelope.enter_bytes hkey (hhas fields hmade)]
    refine fill_of_reads bytes_decodes ?_ (fun fields n other => ?_) h hd
    · exact fun _ _ => rfl
    · cases other <;> simp [Envelope.Fields.has]

/-- One entry of a map, whatever it is, is gone through to its end. -/
theorem enter_follows :
    Follows ReadsPair enter Stands (fun made pair => made >>= fun fields => fields.enter pair) := by
  rintro bs ⟨k, v⟩ rest d made ⟨mid, hkey, hvalue⟩ hd
  simp only [enter, key_of_reads hkey, skip_of_reads hvalue, Option.bind_eq_bind, Option.bind_some, Option.map_some]
  cases hnamed : Envelope.Field.ofKey k with
  | error m => exact ⟨_, rfl, stands_bind_of_error hd hnamed⟩
  | ok named =>
    cases named with
    | none =>
      refine ⟨d, rfl, stands_bind_of_unchanged hd fun fields _ => ?_⟩
      simp [Envelope.Fields.enter, hnamed]
    | some field =>
      by_cases hfound : field ∈ d.found
      · simp only [hfound, if_true]
        refine ⟨d, rfl, stands_bind_of_unchanged hd ?_⟩
        rintro fields rfl
        exact Envelope.enter_of_has hnamed ((hd.2.2 field).mp hfound)
      · simp only [hfound, if_false]
        exact enterField_of_reads hnamed hvalue hd hfound

/-- A map is decoded entry by entry, to its end. -/
theorem collects_decode : SecondPass.envelope.Collects ReadsPair .map (some decode) fun pairs =>
    pairs.foldlM Envelope.Fields.enter ⟨none, none, none⟩ >>= fun fields => .ok (Envelope.ofFields fields) := by
  intro head bs mid pairs rest hhead hrows _
  have hstart : Stands ⟨[], .zero, none⟩ (.ok ⟨none, none, none⟩) := by
    refine ⟨rfl, rfl, fun field => ?_⟩
    cases field <;> simp [Envelope.Fields.has]
  obtain ⟨d, hloop, hd⟩ := repeated_of_rows solid_readsPair enter_follows hrows hstart
  refine ⟨⟨d.envelope, d.fault⟩, by simp [Target.aggregate, decode, Head.take_of_read hhead, hloop], ?_⟩
  -- The draft has gone on after a fault; what it stands for is where the entries stop at it.
  rw [foldl_bind, ok_bind] at hd
  dsimp only
  cases hmade : pairs.foldlM Envelope.Fields.enter ⟨none, none, none⟩ with
  | error m =>
    rw [hmade] at hd
    have hfault : d.fault = some m := hd
    simp [Filled.result, hfault]
  | ok fields =>
    rw [hmade] at hd
    simp [Filled.result, hd.1, hd.2.1]

end Draft

theorem envelope_decodes : envelope.Decodes Envelope.ofItem := by
  have hmake : Envelope.ofItem = fun item => item.content >>= envelope.contentAs (fun _ => .error .wrongType) fun pairs =>
      pairs.foldlM Envelope.Fields.enter ⟨none, none, none⟩ >>= fun fields => .ok (Envelope.ofFields fields) := by
    funext item
    refine bind_congr_ok fun c _ => ?_
    cases c with
    | plain item => cases item <;> rfl
    | bignum => rfl
  rw [hmake]
  exact (Target.fits_contentAs (fun _ => rfl) Target.collects_none Draft.collects_decode).decodes

theorem envelopes_decodes : envelopes.Decodes Envelope.listOfItem := by
  have hmake : Envelope.listOfItem = fun item =>
      item.content >>= envelopes.contentAs (fun items => items.mapM Envelope.ofItem) fun _ => .error .wrongType := by
    funext item
    refine bind_congr_ok fun c _ => ?_
    cases c with
    | plain item => cases item <;> rfl
    | bignum => rfl
  rw [hmake]
  exact (Target.fits_contentAs (fun _ => rfl) (Target.collects_decodeAll envelope_decodes) Target.collects_none).decodes

end SecondPass

end Dispatch.Wire
