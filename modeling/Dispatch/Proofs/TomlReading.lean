/-
Reading TOML texts of a simple kind: headers of one bare key, and assignments of integers, truth values and
strings to bare keys, each on a line of its own, in any layout. `Written` says how a statement is spelled
and `Layout` how statements are laid out, with blanks, empty lines and comments wherever a text may have
them. A text that is laid out so is a text, and its statements are read off it (`statements_of_layout`).

A reader stops at what cannot go on with what it reads, so each fact about one is told for any text that
comes after, as long as that text starts with a blank, a line end or a comment, or is empty (`Ends`).
-/
import Mathlib.Data.List.Basic
import Mathlib.Data.List.TakeDrop
import Dispatch.Decimal
import Dispatch.Toml.Statement
import Dispatch.Proofs.Utf8Facts

namespace Dispatch.Toml

/-! ## Spelling and layout -/

/-- A character that stands for itself between double quotes. -/
def IsUnescaped (c : Char) : Prop :=
  c ≠ '\x22' ∧ c ≠ '\\' ∧ isNewline c = false ∧ isForbidden c = false

/-- The printable characters of ASCII are neither line ends nor forbidden. -/
theorem printable {c : Char} (hlow : 0x20 ≤ c.toNat) (hhigh : c.toNat < 0x7f) :
    isNewline c = false ∧ isForbidden c = false := by
  have hne : ∀ d : Char, d.toNat < 0x20 → c ≠ d := by
    intro d hd heq
    rw [heq] at hlow
    omega
  have hforbidden : ¬ c.toNat < 0x20 ∧ c.toNat ≠ 0x7f := by omega
  exact ⟨by simp [isNewline, hne '\n' (by decide), hne '\r' (by decide)], by simp [isForbidden, hforbidden]⟩

/-- Printable ASCII, but for the quote and the backslash. -/
def isQuotable (c : Char) : Bool := 0x20 ≤ c.toNat && c.toNat < 0x7f && c != '\x22' && c != '\\'

theorem isUnescaped_of_isQuotable {c : Char} (h : isQuotable c = true) : IsUnescaped c := by
  simp only [isQuotable, Bool.and_eq_true, decide_eq_true_eq, bne_iff_ne] at h
  exact ⟨h.1.2, h.2, printable h.1.1.1 h.1.1.2⟩

/-- A text that needs no escapes. -/
def PlainText := { s : List Char // ∀ c ∈ s, IsUnescaped c }

def PlainText.ofQuotable (s : List Char) (h : s.all isQuotable = true) : PlainText :=
  ⟨s, fun c hc => isUnescaped_of_isQuotable (List.all_eq_true.mp h c hc)⟩

/-- The decimal numeral of an integer. -/
def numeral (n : Int64) : List Char := (Decimal.ofInt n.toInt).map fun b => Char.ofNat b.toNat

/-- A text spells a value. -/
inductive Spells : Scalar → List Char → Prop
  | integer (n : Int64) : Spells (.integer n) (numeral n)
  | yes : Spells (.boolean true) ['t', 'r', 'u', 'e']
  | no : Spells (.boolean false) ['f', 'a', 'l', 's', 'e']
  | string (s : PlainText) : Spells (.string s.val) ('\x22' :: s.val ++ ['\x22'])

def IsBareKey (key : Key) : Prop := key ≠ [] ∧ ∀ c ∈ key, isKeyChar c = true

/-- A run of blanks. -/
def Blanks (b : List Char) : Prop := ∀ c ∈ b, isBlank c = true

/-- A text spells a statement. -/
inductive Written : Statement → List Char → Prop
  | table {key b b'} : IsBareKey key → Blanks b → Blanks b' →
      Written (.table [key]) ('[' :: (b ++ (key ++ (b' ++ [']']))))
  | assign {key b b' v text} : IsBareKey key → Blanks b → Blanks b' → Spells v text →
      Written (.assign [key] (.scalar v)) (key ++ (b ++ '=' :: (b' ++ text)))

/-- The two forms of a line end. -/
inductive LineBreak : List Char → Prop
  | feed : LineBreak ['\n']
  | returnFeed : LineBreak ['\r', '\n']

/-- What a comment may say. -/
def Remark (text : List Char) : Prop := ∀ c ∈ text, isNewline c = false ∧ isForbidden c = false

/-- The statements are laid out in a text; `fresh` says whether one may start where the text does. -/
inductive Layout : (fresh : Bool) → List Statement → List Char → Prop
  | done {fresh} : Layout fresh [] []
  | lastComment {fresh text} : Remark text → Layout fresh [] ('#' :: text)
  | comment {fresh text end' ss cs} : Remark text → LineBreak end' → Layout true ss cs →
      Layout fresh ss ('#' :: (text ++ (end' ++ cs)))
  | blank {fresh c ss cs} : isBlank c = true → Layout fresh ss cs → Layout fresh ss (c :: cs)
  | lineBreak {fresh end' ss cs} : LineBreak end' → Layout true ss cs → Layout fresh ss (end' ++ cs)
  | statement {s text ss cs} : Written s text → Layout false ss cs → Layout true (s :: ss) (text ++ cs)

/-! ## Where readers stop -/

section Stopping

variable {p : Char → Bool} {a rest : List Char}

/-- The text does not go on with a character of a class. -/
def Stops (p : Char → Bool) (cs : List Char) : Prop := ∀ c, cs.head? = some c → p c = false

theorem Stops.takeWhile (ha : ∀ c ∈ a, p c = true) (h : Stops p rest) : (a ++ rest).takeWhile p = a := by
  rw [List.takeWhile_append_of_pos ha]
  cases rest with
  | nil => simp
  | cons c rest => simp [h c rfl]

theorem Stops.dropWhile (ha : ∀ c ∈ a, p c = true) (h : Stops p rest) : (a ++ rest).dropWhile p = rest := by
  rw [List.dropWhile_append_of_pos ha]
  cases rest with
  | nil => simp
  | cons c rest => simp [h c rfl]

theorem Stops.any (h : Stops p rest) : rest.head?.any p = false := by
  cases rest with
  | nil => rfl
  | cons c rest => exact h c rfl

/-- The characters that may follow a statement. -/
def enders : List Char := [' ', '\t', '\n', '\r', '#']

/-- The text is over, or goes on with a blank, a line end or a comment. -/
def Ends (cs : List Char) : Prop := ∀ c, cs.head? = some c → c ∈ enders

theorem Ends.stops (h : Ends rest) (hp : enders.all (fun c => !p c) = true) : Stops p rest := by
  intro c hc
  have hall := List.all_eq_true.mp hp c (h c hc)
  simpa using hall

theorem Ends.head_ne (h : Ends rest) {c : Char} (hc : enders.contains c = false) : rest.head? ≠ some c := by
  intro hhead
  have hmem := h c hhead
  rw [← List.contains_iff_mem, hc] at hmem
  cases hmem

/-- Characters of a class differ from those outside. -/
theorem ne_of_class {c d : Char} (hc : p c = true) (hd : p d = false) : c ≠ d := by
  intro h
  rw [h, hd] at hc
  cases hc

end Stopping

theorem notMem_enders {p : Char → Bool} {c : Char} (hc : p c = true) (hp : enders.all (fun c => !p c) = true) :
    c ∉ enders := by
  intro hmem
  have hnot := List.all_eq_true.mp hp c hmem
  simp [hc] at hnot

/-- Blanks, line ends and comments start with the characters that may follow a statement. -/
theorem of_notMem_enders {c : Char} (h : c ∉ enders) : isBlank c = false ∧ isNewline c = false ∧ c ≠ '#' := by
  simp only [enders, List.mem_cons, List.not_mem_nil, or_false, not_or] at h
  simp [isBlank, isNewline, h]

theorem dropBlank_append {b : List Char} (hb : Blanks b) (cs : List Char) : dropBlank (b ++ cs) = dropBlank cs :=
  List.dropWhile_append_of_pos hb

theorem dropBlank_cons {c : Char} (h : isBlank c = false) (cs : List Char) : dropBlank (c :: cs) = c :: cs :=
  List.dropWhile_cons_of_neg (by simp [h])

/-! ## Numerals -/

/-- The character of a digit. -/
def digitChar (d : Nat) : Char := Char.ofNat (Decimal.digit d).toNat

theorem isDigit_digitChar : ∀ d < 10, isDigit (digitChar d) = true := by decide

theorem digit?_digitChar : ∀ d < 10, digit? 10 (digitChar d) = some d := by decide

theorem numberOf_concat (base : Nat) (ds : List Nat) (d : Nat) :
    numberOf base (ds ++ [d]) = numberOf base ds * base + d := by
  simp [numberOf]

/-- The digits of a number, without an idle zero in front. -/
structure DigitsOf (n : Nat) (ds : List Nat) : Prop where
  written : Decimal.ofNat n = ds.map Decimal.digit
  small : ∀ d ∈ ds, d < 10
  number : numberOf 10 ds = n
  nonempty : ds ≠ []
  unpadded : ds.head? = some 0 → ds.length = 1

theorem exists_digitsOf (n : Nat) : ∃ ds, DigitsOf n ds := by
  induction n using Nat.strongRecOn with
  | ind n ih =>
    by_cases hn : n < 10
    · refine ⟨[n], ?_, by simpa using hn, by simp [numberOf], by simp, by simp⟩
      rw [Decimal.ofNat, if_pos hn]
      rfl
    · obtain ⟨ds, h⟩ := ih (n / 10) (by omega)
      refine ⟨ds ++ [n % 10], ?_, ?_, ?_, by simp, fun hzero => ?_⟩
      · rw [Decimal.ofNat, if_neg hn, h.written]
        simp
      · simp only [List.forall_mem_append, List.forall_mem_singleton]
        exact ⟨h.small, Nat.mod_lt n (by decide)⟩
      · rw [numberOf_concat, h.number]
        omega
      · -- A zero in front would be the whole of what comes before the last digit, which is not zero.
        rw [List.head?_append_of_ne_nil ds h.nonempty] at hzero
        obtain ⟨d, rfl⟩ := List.length_eq_one_iff.mp (h.unpadded hzero)
        have hnumber := h.number
        simp only [List.head?_cons, Option.some.injEq] at hzero
        simp only [hzero, numberOf, List.foldl_cons, List.foldl_nil] at hnumber
        omega

theorem DigitsOf.isDigit {n : Nat} {ds : List Nat} (h : DigitsOf n ds) : ∀ c ∈ ds.map digitChar, isDigit c = true := by
  intro c hc
  obtain ⟨d, hd, rfl⟩ := List.mem_map.mp hc
  exact isDigit_digitChar d (h.small d hd)

/-- The numeral of an integer: its digits, after a minus sign when it is negative. -/
theorem numeral_cases (n : Int64) :
    (∃ ds, DigitsOf n.toInt.toNat ds ∧ 0 ≤ n.toInt ∧ numeral n = ds.map digitChar) ∨
      ∃ ds, DigitsOf (-n.toInt).toNat ds ∧ n.toInt < 0 ∧ numeral n = '-' :: ds.map digitChar := by
  unfold numeral
  cases hn : n.toInt with
  | ofNat m =>
    obtain ⟨ds, h⟩ := exists_digitsOf m
    exact .inl ⟨ds, h, by simp, by simp [Decimal.ofInt, h.written, digitChar]⟩
  | negSucc m =>
    obtain ⟨ds, h⟩ := exists_digitsOf (m + 1)
    exact .inr ⟨ds, h, by omega, by simp [Decimal.ofInt, h.written, digitChar]⟩

theorem numeral_ne_nil (n : Int64) : numeral n ≠ [] := by
  rcases numeral_cases n with ⟨ds, h, -, heq⟩ | ⟨ds, -, -, heq⟩
  · simpa [heq] using h.nonempty
  · simp [heq]

theorem grouped?_digits {ds : List Nat} (hne : ds ≠ []) (hsmall : ∀ d ∈ ds, d < 10) :
    grouped? 10 (ds.map digitChar) = some ds := by
  induction ds with
  | nil => exact absurd rfl hne
  | cons d ds ih =>
    have hd := digit?_digitChar d (hsmall d List.mem_cons_self)
    cases ds with
    | nil => simp [grouped?, hd]
    | cons e ds =>
      have hrest := ih (by simp) fun x hx => hsmall x (List.mem_cons_of_mem d hx)
      have he : digitChar e ≠ '_' :=
        ne_of_class (isDigit_digitChar e (hsmall e (by simp))) (by decide)
      simp only [List.map_cons] at hrest ⊢
      simp [grouped?, hd, he, hrest]

theorem decimal?_digits {n : Nat} {ds : List Nat} (h : DigitsOf n ds) : decimal? (ds.map digitChar) = some ds := by
  have hidle : ¬ (ds.head? = some 0 ∧ ds.length ≠ 1) := fun hzero => hzero.2 (h.unpadded hzero.1)
  simp only [decimal?, grouped?_digits h.nonempty h.small, Option.bind_eq_bind, Option.bind_some, if_neg hidle]

theorem decimalInteger?_numeral (n : Int64) : decimalInteger? (numeral n) = some n.toInt := by
  rcases numeral_cases n with ⟨ds, h, hn, heq⟩ | ⟨ds, h, hn, heq⟩
  · have hsigned : signed (ds.map digitChar) = (false, ds.map digitChar) := by
      obtain ⟨d, ds, rfl⟩ := List.exists_cons_of_ne_nil h.nonempty
      have hd := isDigit_digitChar d (h.small d List.mem_cons_self)
      have hminus : digitChar d ≠ '-' := ne_of_class hd (by decide)
      have hplus : digitChar d ≠ '+' := ne_of_class hd (by decide)
      simp [signed, hminus, hplus]
    have hnumber := h.number
    simp [decimalInteger?, heq, hsigned, decimal?_digits h]
    omega
  · have hsigned : signed ('-' :: ds.map digitChar) = (true, ds.map digitChar) := rfl
    have hnumber := h.number
    simp [decimalInteger?, heq, hsigned, decimal?_digits h]
    omega

/-- Behind its first character a numeral has digits only, so it announces no other base. -/
theorem unboundedInteger?_numeral (n : Int64) : unboundedInteger? (numeral n) = decimalInteger? (numeral n) := by
  have htail : ∀ c ∈ (numeral n).tail, isDigit c = true := by
    rcases numeral_cases n with ⟨ds, h, -, heq⟩ | ⟨ds, h, -, heq⟩
    · exact fun c hc => h.isDigit c (heq ▸ List.mem_of_mem_tail hc)
    · rw [heq]
      exact h.isDigit
  unfold unboundedInteger?
  split
  · next a b cs hcs =>
    have hb : isDigit b = true := htail b (by simp [hcs])
    have hx : b ≠ 'x' := ne_of_class hb (by decide)
    have ho : b ≠ 'o' := ne_of_class hb (by decide)
    have hb' : b ≠ 'b' := ne_of_class hb (by decide)
    simp [baseMark?, hx, ho, hb', hcs]
  · rfl

theorem integer?_numeral (n : Int64) : integer? (numeral n) = some n := by
  have hrange : Int64.minValue.toInt ≤ n.toInt ∧ n.toInt ≤ Int64.maxValue.toInt := by
    have hlow := n.le_toInt
    have hhigh := n.toInt_lt
    simp only [Int64.toInt_minValue, Int64.toInt_maxValue]
    omega
  simp only [integer?, unboundedInteger?_numeral, decimalInteger?_numeral, Option.bind_eq_bind, Option.bind_some,
    if_pos hrange, Int64.ofInt_toInt]

theorem token?_numeral (n : Int64) : token? (numeral n) = some (.integer n) := by
  have hword : ∀ word, integer? word = none → numeral n ≠ word := by
    intro word hnone heq
    have hread := integer?_numeral n
    rw [heq, hnone] at hread
    cases hread
  rw [token?, if_neg (hword _ (by decide)), if_neg (hword _ (by decide)), integer?_numeral]

theorem isTokenChar_digitChar : ∀ d < 10, isTokenChar (digitChar d) = true := by decide

theorem isTokenChar_numeral (n : Int64) : ∀ c ∈ numeral n, isTokenChar c = true := by
  have hdigits : ∀ {m ds}, DigitsOf m ds → ∀ c ∈ ds.map digitChar, isTokenChar c = true := by
    intro m ds h c hc
    obtain ⟨d, hd, rfl⟩ := List.mem_map.mp hc
    exact isTokenChar_digitChar d (h.small d hd)
  rcases numeral_cases n with ⟨ds, h, -, heq⟩ | ⟨ds, h, -, heq⟩
  · rw [heq]
    exact hdigits h
  · rw [heq, List.forall_mem_cons]
    exact ⟨by decide, hdigits h⟩

/-- A numeral is not the front of a date: behind its digits there is neither a hyphen nor a colon. -/
theorem startsMoment_numeral (n : Int64) {rest : List Char} (h : Ends rest) :
    startsMoment (numeral n ++ rest) = false := by
  rcases numeral_cases n with ⟨ds, hds, -, heq⟩ | ⟨ds, -, -, heq⟩
  · have hdrop : (numeral n ++ rest).dropWhile isDigit = rest := by
      rw [heq]
      exact (h.stops (by decide)).dropWhile hds.isDigit
    have hsign : (rest.head?.any fun c => c == '-' || c == ':') = false := (h.stops (by decide)).any
    simp only [startsMoment, hdrop, hsign, Bool.and_false]
  · rw [heq]
    rfl

/-! ## Values -/

/-- A word that is a value on its own, without quotes. -/
structure IsToken (v : Scalar) (token : List Char) : Prop where
  nonempty : token ≠ []
  chars : ∀ c ∈ token, isTokenChar c = true
  read : token? token = some v
  notMoment : ∀ {rest}, Ends rest → startsMoment (token ++ rest) = false

/-- What is not a word is in quotes. -/
theorem Spells.token_or_quoted {v : Scalar} {text : List Char} (hv : Spells v text) :
    IsToken v text ∨ ∃ s : PlainText, v = .string s.val ∧ text = '\x22' :: s.val ++ ['\x22'] := by
  cases hv with
  | integer n => exact .inl ⟨numeral_ne_nil n, isTokenChar_numeral n, token?_numeral n, startsMoment_numeral n⟩
  | yes | no => exact .inl ⟨by simp, List.all_eq_true.mp rfl, rfl, fun _ => rfl⟩
  | string s => exact .inr ⟨s, rfl, rfl⟩

theorem basicString_plain {s : List Char} (hs : ∀ c ∈ s, IsUnescaped c) (rest : List Char) :
    basicString 0 (s ++ '\x22' :: rest) = some (s, rest) := by
  induction s with
  | nil => rfl
  | cons c s ih =>
    obtain ⟨hquote, hslash, hline, -⟩ := hs c List.mem_cons_self
    have hrest := ih fun d hd => hs d (List.mem_cons_of_mem c hd)
    simp [basicString, hquote, hslash, hline, hrest, Read.cons]

theorem quoted?_of_unquoted {cs : List Char} (hdouble : cs.head? ≠ some '\x22') (hsingle : cs.head? ≠ some '\x27') :
    quoted? cs = none := by
  unfold quoted?
  split <;> simp_all

/-- One quote in front opens a string on one line, unless two more follow. -/
theorem quoted?_basic {cs : List Char} (h : ∀ rest, cs ≠ '\x22' :: '\x22' :: rest) :
    quoted? ('\x22' :: cs) = some (basicString 0 cs) := by
  unfold quoted?
  split
  · next heq => exact absurd (List.cons.inj heq).2 (h _)
  · next heq => rw [(List.cons.inj heq).2]
  · next heq => cases heq
  · next heq => cases heq
  · next hno _ _ => exact absurd rfl (hno cs)

theorem scalar_token {v : Scalar} {token rest : List Char} (hv : IsToken v token) (h : Ends rest) :
    scalar (token ++ rest) = some (v, rest) := by
  have hstops : Stops isTokenChar rest := h.stops (by decide)
  have hread : unquoted (token ++ rest) = some (v, rest) := by
    simp [unquoted, hv.notMoment h, hstops.takeWhile hv.chars, hstops.dropWhile hv.chars, hv.read]
  have hquote : ∀ q, isTokenChar q = false → (token ++ rest).head? ≠ some q := by
    intro q hq heq
    obtain ⟨c, token, rfl⟩ := List.exists_cons_of_ne_nil hv.nonempty
    exact ne_of_class (hv.chars c List.mem_cons_self) hq (Option.some.inj heq)
  rw [scalar, quoted?_of_unquoted (hquote _ (by decide)) (hquote _ (by decide)), hread]

theorem scalar_quoted (s : PlainText) {rest : List Char} (h : Ends rest) :
    scalar ('\x22' :: (s.val ++ '\x22' :: rest)) = some (.string s.val, rest) := by
  obtain ⟨s, hs⟩ := s
  have hone : ∀ r, s ++ '\x22' :: rest ≠ '\x22' :: '\x22' :: r := by
    intro r heq
    cases s with
    | nil =>
      refine h.head_ne (c := '\x22') (by decide) ?_
      rw [(List.cons.inj heq).2]
      rfl
    | cons c s => exact (hs c List.mem_cons_self).1 (List.cons.inj heq).1
  rw [scalar, quoted?_basic hone, basicString_plain hs]
  rfl

theorem scalar_spells {v : Scalar} {text rest : List Char} (hv : Spells v text) (h : Ends rest) :
    scalar (text ++ rest) = some (v, rest) := by
  rcases hv.token_or_quoted with hv | ⟨s, rfl, rfl⟩
  · exact scalar_token hv h
  · simpa using scalar_quoted s h

/-! ## Statements -/

section Statements

variable {key : Key} {b rest : List Char}

/-- A bare key is read up to the blanks, the bracket or the equals sign behind it. -/
theorem keyPart_bare (hkey : IsBareKey key) (h : Stops isKeyChar rest) : keyPart (key ++ rest) = some (key, rest) := by
  obtain ⟨hne, hchars⟩ := hkey
  obtain ⟨c, key, rfl⟩ := List.exists_cons_of_ne_nil hne
  have hc := hchars c List.mem_cons_self
  have hdouble : c ≠ '\x22' := ne_of_class hc (by decide)
  have hsingle : c ≠ '\x27' := ne_of_class hc (by decide)
  have hspan : (c :: key ++ rest).span isKeyChar = (c :: key, rest) := by
    rw [List.span_eq_takeWhile_dropWhile, h.takeWhile hchars, h.dropWhile hchars]
  simp only [List.cons_append] at hspan ⊢
  simp only [keyPart, hdouble, hsingle, hc, if_false, if_true, hspan]

theorem IsBareKey.notMem_enders (hkey : IsBareKey key) : ∀ c ∈ key, c ∉ enders :=
  fun c hc => Toml.notMem_enders (hkey.2 c hc) (by decide)

theorem dropBlank_bare (hkey : IsBareKey key) (cs : List Char) : dropBlank (key ++ cs) = key ++ cs := by
  obtain ⟨c, key, rfl⟩ := List.exists_cons_of_ne_nil hkey.1
  exact dropBlank_cons (of_notMem_enders (hkey.notMem_enders c List.mem_cons_self)).1 _

theorem stops_blanks {p : Char → Bool} {d : Char} (hb : Blanks b) (hp : (p ' ' || p '\t') = false) (hd : p d = false)
    (rest : List Char) : Stops p (b ++ d :: rest) := by
  intro c hc
  cases b with
  | nil => exact Option.some.inj hc ▸ hd
  | cons e b =>
    obtain rfl : e = c := Option.some.inj hc
    have he := hb e List.mem_cons_self
    simp only [isBlank, Bool.or_eq_true, beq_iff_eq] at he
    simp only [Bool.or_eq_false_iff] at hp
    rcases he with rfl | rfl
    · exact hp.1
    · exact hp.2

/-- A bare key between blanks, up to a character that ends it. -/
theorem keyPath_bare {b' : List Char} {d : Char} (hkey : IsBareKey key) (hb : Blanks b) (hb' : Blanks b')
    (hblank : isBlank d = false) (hd : isKeyChar d = false) (hdot : d ≠ '.') (rest : List Char) (most : Nat) :
    keyPath (most + 1) (b ++ (key ++ (b' ++ d :: rest))) = some ([key], d :: rest) := by
  have hpart := keyPart_bare hkey (stops_blanks hb' (by decide) hd rest)
  have hafter : dropBlank (b' ++ d :: rest) = d :: rest := by
    rw [dropBlank_append hb', dropBlank_cons hblank]
  simp only [keyPath, dropBlank_append hb, dropBlank_bare hkey, hpart, hafter]
  split
  · next heq => exact absurd (List.cons.inj heq).1 hdot
  · rfl

theorem statement_table {b' : List Char} (hkey : IsBareKey key) (hb : Blanks b) (hb' : Blanks b') (rest : List Char) :
    statement ('[' :: (b ++ (key ++ (b' ++ ']' :: rest)))) = some (.table [key], rest) := by
  -- What follows the bracket is a blank or a character of the key, and so no second bracket.
  have hone : ∀ cs, b ++ (key ++ (b' ++ ']' :: rest)) ≠ '[' :: cs := by
    intro cs heq
    have hhead : (b ++ (key ++ (b' ++ ']' :: rest))).head? = some '[' := by rw [heq]; rfl
    cases b with
    | nil =>
      obtain ⟨c, key, rfl⟩ := List.exists_cons_of_ne_nil hkey.1
      exact ne_of_class (hkey.2 c List.mem_cons_self) (by decide) (Option.some.inj hhead)
    | cons c b => exact ne_of_class (hb c List.mem_cons_self) (by decide) (Option.some.inj hhead)
  have hpath := keyPath_bare hkey hb hb' (d := ']') (by decide) (by decide) (by decide) rest
  unfold statement
  split
  · next heq => exact absurd (List.cons.inj heq).2 (hone _)
  · next heq =>
    rw [← (List.cons.inj heq).2, boundOf, hpath]
    rfl
  · next hno => exact absurd rfl (hno _)

theorem value_scalar {cs : List Char} (hbracket : cs.head? ≠ some '[') (hbrace : cs.head? ≠ some '\x7b') (bound : Nat) :
    value (bound + 1) cs = (scalar cs).map fun (v, cs) => (.scalar v, cs) := by
  unfold value
  split
  · next heq => exact absurd rfl hbracket
  · next heq => exact absurd rfl hbrace
  · rfl

/-- What a value is spelled with starts neither an array nor a table, and is no blank. -/
theorem Spells.head {v : Scalar} {text : List Char} (hv : Spells v text) :
    ∃ c cs, text = c :: cs ∧ c ≠ '[' ∧ c ≠ '\x7b' ∧ c ∉ enders := by
  rcases hv.token_or_quoted with hv | ⟨s, rfl, rfl⟩
  · obtain ⟨c, cs, rfl⟩ := List.exists_cons_of_ne_nil hv.nonempty
    have hc := hv.chars c List.mem_cons_self
    exact ⟨c, cs, rfl, ne_of_class hc (by decide), ne_of_class hc (by decide), notMem_enders hc (by decide)⟩
  · exact ⟨_, _, rfl, by decide, by decide, by decide⟩

theorem statement_assign {b' text : List Char} {v : Scalar} (hkey : IsBareKey key) (hb : Blanks b) (hb' : Blanks b')
    (hv : Spells v text) (h : Ends rest) :
    statement (key ++ (b ++ '=' :: (b' ++ (text ++ rest)))) = some (.assign [key] (.scalar v), rest) := by
  have hpath := keyPath_bare hkey (b := []) (fun _ h => absurd h List.not_mem_nil) hb (d := '=')
    (by decide) (by decide) (by decide) (b' ++ (text ++ rest))
  obtain ⟨c, cs, htext, hbracket, hbrace, hender⟩ := hv.head
  have hvalue : ∀ bound, value (bound + 1) (dropBlank (b' ++ (text ++ rest))) = some (.scalar v, rest) := by
    intro bound
    have hdrop : dropBlank (b' ++ (text ++ rest)) = text ++ rest := by
      rw [dropBlank_append hb', htext]
      exact dropBlank_cons (of_notMem_enders hender).1 _
    rw [hdrop, value_scalar (by simp [htext, hbracket]) (by simp [htext, hbrace]), scalar_spells hv h]
    rfl
  have hassign : ∀ bound, assignment (bound + 2) (key ++ (b ++ '=' :: (b' ++ (text ++ rest)))) =
      some (([key], .scalar v), rest) := by
    intro bound
    rw [List.nil_append] at hpath
    simp only [assignment, hpath, hvalue]
    rfl
  obtain ⟨d, ds, rfl⟩ := List.exists_cons_of_ne_nil hkey.1
  have hd : d ≠ '[' := ne_of_class (hkey.2 d List.mem_cons_self) (by decide)
  unfold statement
  split
  · next heq => exact absurd (List.cons.inj heq).1 hd
  · next heq => exact absurd (List.cons.inj heq).1 hd
  · rw [boundOf, hassign]
    rfl

theorem statement_written {s : Statement} {text : List Char} (hs : Written s text) (h : Ends rest) :
    statement (text ++ rest) = some (s, rest) := by
  cases hs with
  | table hkey hb hb' => simpa using statement_table hkey hb hb' rest
  | assign hkey hb hb' hv => simpa using statement_assign hkey hb hb' hv h

end Statements

/-! ## Layout -/

section Trivia

variable {c : Char} {text end' cs : List Char}

theorem skipTrivia_blank (h : isBlank c = true) (cs : List Char) :
    skipTrivia false (c :: cs) = skipTrivia false cs := by
  simp [skipTrivia, h]

theorem skipTrivia_lineBreak (h : LineBreak end') (inComment : Bool) (cs : List Char) :
    skipTrivia inComment (end' ++ cs) = skipTrivia false cs := by
  cases h <;> cases inComment <;> simp [skipTrivia, isNewline]

theorem skipTrivia_remark (h : Remark text) (cs : List Char) : skipTrivia true (text ++ cs) = skipTrivia true cs := by
  induction text with
  | nil => rfl
  | cons c text ih =>
    have hc : (c != '\n') = true := by
      have hline := (h c List.mem_cons_self).1
      simp only [isNewline, Bool.or_eq_false_iff] at hline
      simp [bne, hline.1]
    have hrest := ih fun d hd => h d (List.mem_cons_of_mem c hd)
    show skipTrivia (c != '\n') (text ++ cs) = skipTrivia true cs
    rw [hc, hrest]

theorem skipTrivia_comment (cs : List Char) : skipTrivia false ('#' :: cs) = skipTrivia true cs := by
  simp [skipTrivia, isBlank, isNewline]

theorem skipTrivia_of_notMem (h : c ∉ enders) (cs : List Char) : skipTrivia false (c :: cs) = c :: cs := by
  obtain ⟨hblank, hline, hcomment⟩ := of_notMem_enders h
  simp [skipTrivia, hblank, hline, hcomment]

theorem skipTrivia_dropBlank (cs : List Char) : skipTrivia false (dropBlank cs) = skipTrivia false cs := by
  induction cs with
  | nil => rfl
  | cons c cs ih =>
    cases hc : isBlank c with
    | true =>
      rw [skipTrivia_blank hc, ← ih]
      simp [dropBlank, hc]
    | false => rw [dropBlank_cons hc]

end Trivia

/-- Only what comes behind blanks, line ends and comments matters. -/
theorem statementsWithin_congr {cs cs' : List Char} (h : skipTrivia false cs = skipTrivia false cs') (most : Nat) :
    statementsWithin most cs = statementsWithin most cs' := by
  unfold statementsWithin
  rw [h]

theorem Written.head {s : Statement} {text : List Char} (h : Written s text) :
    ∃ c cs, text = c :: cs ∧ (c = '[' ∨ isKeyChar c = true) := by
  cases h with
  | table => exact ⟨_, _, rfl, .inl rfl⟩
  | assign hkey =>
    obtain ⟨c, key, rfl⟩ := List.exists_cons_of_ne_nil hkey.1
    exact ⟨c, _, rfl, .inr (hkey.2 c List.mem_cons_self)⟩

/-- One statement in front, with its line ended behind it. -/
theorem statementsWithin_cons {s : Statement} {text cs : List Char} (hs : Written s text) (hends : Ends cs)
    (hline : lineEnd? cs = some (dropBlank cs)) (most : Nat) :
    statementsWithin (most + 1) (text ++ cs) = (statementsWithin most cs).map (s :: ·) := by
  obtain ⟨c, text', htext, hc⟩ := hs.head
  have hskip : skipTrivia false (text ++ cs) = text ++ cs := by
    rw [htext]
    refine skipTrivia_of_notMem ?_ _
    rcases hc with rfl | hc
    · decide
    · exact notMem_enders hc (by decide)
  have hrest := statementsWithin_congr (skipTrivia_dropBlank cs) most
  have hread := statement_written hs hends
  rw [statementsWithin, hskip]
  split
  · next heq => simp [htext] at heq
  · simp only [hread, hline, hrest]

namespace Layout

variable {fresh : Bool} {ss : List Statement} {cs : List Char}

/-- A text that is laid out starts with what may follow a statement or, where one may start, with one. -/
theorem head (h : Layout fresh ss cs) {c : Char} (hc : cs.head? = some c) :
    c ∈ enders ∨ fresh = true ∧ (c = '[' ∨ isKeyChar c = true) := by
  cases h with
  | done => cases hc
  | lastComment | comment =>
    obtain rfl := Option.some.inj hc
    exact .inl (by decide)
  | blank hblank =>
    obtain rfl := Option.some.inj hc
    simp only [isBlank, Bool.or_eq_true, beq_iff_eq] at hblank
    rcases hblank with rfl | rfl <;> exact .inl (by decide)
  | lineBreak hend => cases hend <;> obtain rfl := Option.some.inj hc <;> exact .inl (by decide)
  | statement hs =>
    obtain ⟨d, text, rfl, hd⟩ := hs.head
    obtain rfl := Option.some.inj hc
    exact .inr ⟨rfl, hd⟩

theorem ends (h : Layout false ss cs) : Ends cs := fun _ hc => (h.head hc).resolve_right (by simp)

/-- The line of a statement is over where the next one may start. -/
theorem lineEnd (h : Layout false ss cs) : lineEnd? cs = some (dropBlank cs) := by
  generalize hfresh : false = fresh at h
  induction h with
  | done => rfl
  | lastComment | comment => rfl
  | blank hblank _ ih =>
    have hdrop := dropBlank_append (b := [_]) (by simpa [Blanks] using hblank)
    simp only [List.singleton_append] at hdrop
    rw [lineEnd?, hdrop]
    exact ih hfresh
  | lineBreak hend => cases hend <;> rfl
  | statement => cases hfresh

/-- **Reading a text that is laid out.** -/
theorem statementsWithin_eq (h : Layout fresh ss cs) :
    ∀ most, ss.length ≤ most → statementsWithin most cs = some ss := by
  have hnone : ∀ {cs}, skipTrivia false cs = [] → ∀ most, statementsWithin most cs = some [] := by
    intro cs hskip most
    rw [statementsWithin, hskip]
  induction h with
  | done => exact fun most _ => hnone rfl most
  | lastComment htext =>
    refine fun most _ => hnone ?_ most
    have hskip := skipTrivia_remark htext []
    rw [List.append_nil] at hskip
    rw [skipTrivia_comment, hskip]
    rfl
  | comment htext hend _ ih =>
    intro most hmost
    rw [← ih most hmost]
    refine statementsWithin_congr ?_ most
    rw [skipTrivia_comment, skipTrivia_remark htext, skipTrivia_lineBreak hend]
  | blank hblank _ ih =>
    intro most hmost
    rw [← ih most hmost]
    exact statementsWithin_congr (skipTrivia_blank hblank _) most
  | lineBreak hend _ ih =>
    intro most hmost
    rw [← ih most hmost]
    exact statementsWithin_congr (skipTrivia_lineBreak hend false _) most
  | statement hs hrest ih =>
    intro most hmost
    obtain ⟨most, rfl⟩ : ∃ k, most = k + 1 := ⟨most - 1, by simp only [List.length_cons] at hmost; omega⟩
    rw [statementsWithin_cons hs hrest.ends hrest.lineEnd, ih most (by simpa using hmost)]
    rfl

/-- Every statement takes a character at least. -/
theorem length_le (h : Layout fresh ss cs) : ss.length ≤ cs.length := by
  induction h with
  | done | lastComment => simp
  | comment _ _ _ ih | blank _ _ ih | lineBreak _ _ ih =>
    simp only [List.length_cons, List.length_append]
    omega
  | statement hs _ ih =>
    obtain ⟨c, text, rfl, -⟩ := hs.head
    simp only [List.length_cons, List.length_append]
    omega

end Layout

theorem statements_of_layout {ss : List Statement} {cs : List Char} (h : Layout true ss cs) : statements cs = some ss :=
  h.statementsWithin_eq _ h.length_le

/-! ## Source -/

/-- A character that may stand anywhere in a text. -/
def Free (c : Char) : Prop := isForbidden c = false ∧ c ≠ '\r'

theorem isPlain_append {a : List Char} (h : ∀ c ∈ a, Free c) (cs : List Char) : isPlain (a ++ cs) = isPlain cs := by
  induction a with
  | nil => rfl
  | cons c a ih =>
    obtain ⟨hforbidden, hreturn⟩ := h c List.mem_cons_self
    have hrest := ih fun d hd => h d (List.mem_cons_of_mem c hd)
    simp [isPlain, hforbidden, hreturn, hrest]

theorem isPlain_lineBreak {end' : List Char} (h : LineBreak end') (cs : List Char) :
    isPlain (end' ++ cs) = isPlain cs := by
  cases h <;> simp [isPlain, isForbidden, isBlank, isNewline]

theorem toNat_of_isTokenChar {c : Char} (h : isTokenChar c = true) : 0x20 ≤ c.toNat ∧ c.toNat < 0x7f := by
  simp only [isTokenChar, Bool.or_eq_true] at h
  rcases h with h | h
  · have hranges : (decide (65 ≤ c.val ∧ c.val ≤ 90) || decide (97 ≤ c.val) && decide (c.val ≤ 122) ||
        decide (48 ≤ c.val) && decide (c.val ≤ 57)) = true := h
    simp only [Bool.or_eq_true, Bool.and_eq_true, decide_eq_true_eq, UInt32.le_iff_toNat_le, UInt32.reduceToNat]
      at hranges
    show 0x20 ≤ c.val.toNat ∧ c.val.toNat < 0x7f
    omega
  · have hmem : c ∈ ['+', '-', '_', '.'] := List.contains_iff_mem.mp h
    simp only [List.mem_cons, List.not_mem_nil, or_false] at hmem
    rcases hmem with rfl | rfl | rfl | rfl <;> decide

theorem isTokenChar_of_isKeyChar {c : Char} (h : isKeyChar c = true) : isTokenChar c = true := by
  simp only [isKeyChar, Bool.or_eq_true, beq_iff_eq] at h
  rcases h with (h | rfl) | rfl
  · simp [isTokenChar, h]
  · rfl
  · rfl

theorem free_of_isBlank {c : Char} (h : isBlank c = true) : Free c := by
  simp only [isBlank, Bool.or_eq_true, beq_iff_eq] at h
  rcases h with rfl | rfl <;> exact ⟨by decide, by decide⟩

/-- What may be quoted and what a comment may say. -/
theorem free_of_isNewline {c : Char} (h : isNewline c = false ∧ isForbidden c = false) : Free c := by
  obtain ⟨hline, hforbidden⟩ := h
  refine ⟨hforbidden, ?_⟩
  intro hreturn
  rw [hreturn] at hline
  cases hline

theorem free_of_isTokenChar {c : Char} (h : isTokenChar c = true) : Free c := by
  obtain ⟨hlow, hhigh⟩ := toNat_of_isTokenChar h
  exact free_of_isNewline (printable hlow hhigh)

theorem Spells.free {v : Scalar} {text : List Char} (h : Spells v text) : ∀ c ∈ text, Free c := by
  rcases h.token_or_quoted with hv | ⟨s, rfl, rfl⟩
  · exact fun c hc => free_of_isTokenChar (hv.chars c hc)
  · have hquote : Free '\x22' := ⟨by decide, by decide⟩
    have hs : ∀ c ∈ s.val, Free c := fun c hc => free_of_isNewline (s.property c hc).2.2
    simp only [List.cons_append, List.forall_mem_cons, List.forall_mem_append]
    exact ⟨hquote, hs, hquote, by simp⟩

theorem Written.free {s : Statement} {text : List Char} (h : Written s text) : ∀ c ∈ text, Free c := by
  have hkey : ∀ {key}, IsBareKey key → ∀ c ∈ key, Free c := fun h c hc =>
    free_of_isTokenChar (isTokenChar_of_isKeyChar (h.2 c hc))
  have hblanks : ∀ {b}, Blanks b → ∀ c ∈ b, Free c := fun h c hc => free_of_isBlank (h c hc)
  have hopen : Free '[' := ⟨by decide, by decide⟩
  have hclose : Free ']' := ⟨by decide, by decide⟩
  have hequals : Free '=' := ⟨by decide, by decide⟩
  cases h with
  | table h hb hb' =>
    simp only [List.forall_mem_cons, List.forall_mem_append]
    exact ⟨hopen, hblanks hb, hkey h, hblanks hb', hclose, by simp⟩
  | assign h hb hb' hv =>
    simp only [List.forall_mem_cons, List.forall_mem_append]
    exact ⟨hkey h, hblanks hb, hequals, hblanks hb', hv.free⟩

namespace Layout

variable {fresh : Bool} {ss : List Statement} {cs : List Char}

theorem isPlain (h : Layout fresh ss cs) : isPlain cs = true := by
  have hremark : ∀ {text}, Remark text → ∀ c ∈ '#' :: text, Free c := by
    intro text h
    rw [List.forall_mem_cons]
    exact ⟨⟨by decide, by decide⟩, fun c hc => free_of_isNewline (h c hc)⟩
  induction h with
  | done => rfl
  | lastComment htext =>
    have hplain := isPlain_append (hremark htext) []
    rwa [List.append_nil] at hplain
  | comment htext hend _ ih =>
    rw [← List.cons_append, isPlain_append (hremark htext), isPlain_lineBreak hend, ih]
  | blank hblank _ ih =>
    rw [← ih]
    exact isPlain_append (a := [_]) (by simpa using free_of_isBlank hblank) _
  | lineBreak hend _ ih => rw [isPlain_lineBreak hend, ih]
  | statement hs _ ih => rw [isPlain_append hs.free, ih]

theorem head_lt (h : Layout fresh ss cs) {c : Char} (hc : cs.head? = some c) : c.toNat < 0x80 := by
  rcases h.head hc with hender | ⟨-, rfl | hkey⟩
  · have hall : enders.all (fun c => c.toNat < 0x80) = true := by decide
    simpa using List.all_eq_true.mp hall c hender
  · decide
  · have hbounds := toNat_of_isTokenChar (isTokenChar_of_isKeyChar hkey)
    omega

end Layout

/-- A byte order mark has no byte of the first characters. -/
theorem dropMark_cons {b : UInt8} (h : b.toNat < 0x80) (bs : Bytes) : dropMark (b :: bs) = b :: bs := by
  unfold dropMark
  split
  · next heq =>
    obtain ⟨rfl, -⟩ := List.cons.inj heq
    exact absurd h (by decide)
  · next heq =>
    obtain ⟨rfl, -⟩ := List.cons.inj heq
    exact absurd h (by decide)
  · next heq =>
    obtain ⟨rfl, -⟩ := List.cons.inj heq
    exact absurd h (by decide)
  · rfl

theorem source?_of_layout {ss : List Statement} {cs : List Char} (h : Layout true ss cs) :
    source? (Text.Utf8.encodeAll cs) = some cs := by
  have hmark : dropMark (Text.Utf8.encodeAll cs) = Text.Utf8.encodeAll cs := by
    cases cs with
    | nil => rfl
    | cons c cs =>
      have hc : c.toNat < 0x80 := h.head_lt rfl
      simp only [Text.Utf8.encodeAll, List.flatMap_cons, Text.Utf8.encode_of_lt hc, List.singleton_append]
      exact dropMark_cons (by rw [Text.Utf8.toNat_byteOfNat (by omega)]; exact hc) _
  simp only [source?, hmark, Text.Utf8.decodeAll?_encodeAll, Option.bind_eq_bind, Option.bind_some, h.isPlain, if_true]

end Dispatch.Toml
