/-
TOML values that are not made of others: strings, integers, floats, truth values, and dates and times.

A number is written in decimal, or as an integer in base 16, 8 or 2; an underscore may stand between
two digits. Integers have 64 bits. A float that is too large for 64 bits is refused. Days exist in
their month, and hours, minutes and seconds on a clock.
-/
import Dispatch.Toml.Quotation

namespace Dispatch.Toml

/-- A value that is not made of others. Floats and moments keep their text. -/
inductive Scalar where
  | string (s : List Char)
  | integer (n : Int64)
  | boolean (b : Bool)
  | float (text : List Char)
  /-- A date, a time, or both. -/
  | moment (text : List Char)
  deriving DecidableEq, Repr

def isDigit (c : Char) : Bool := '0' ≤ c && c ≤ '9'

/-! ## Numbers -/

/-- Digits of a base, with an underscore between two of them here and there. -/
def grouped? (base : Nat) : List Char → Option (List Nat)
  | [] => none
  | [c] => (digit? base c).map fun d => [d]
  | c :: c' :: cs => do
    let d ← digit? base c
    if c' = '_' then return d :: (← grouped? base cs) else return d :: (← grouped? base (c' :: cs))

/-- Decimal digits that do not start with an idle zero. -/
def decimal? (cs : List Char) : Option (List Nat) := do
  let digits ← grouped? 10 cs
  if digits.head? = some 0 ∧ digits.length ≠ 1 then none else some digits

/-- A sign in front, which may be missing: whether it is a minus, and what follows. -/
def signed : List Char → Bool × List Char
  | c :: cs => if c = '-' then (true, cs) else if c = '+' then (false, cs) else (false, c :: cs)
  | [] => (false, [])

/-- The base that two characters in front announce. -/
def baseMark? (a b : Char) : Option Nat :=
  if a ≠ '0' then none
  else if b = 'x' then some 16
  else if b = 'o' then some 8
  else if b = 'b' then some 2
  else none

/-- The integer in decimal, with a sign or not. -/
def decimalInteger? (cs : List Char) : Option Int := do
  let (minus, cs) := signed cs
  let n := numberOf 10 (← decimal? cs)
  return if minus then -(n : Int) else n

/-- The integer that a text spells, of any size. -/
def unboundedInteger? : List Char → Option Int
  | a :: b :: cs =>
    match baseMark? a b with
    | some base => (grouped? base cs).map fun digits => (numberOf base digits : Int)
    | none => decimalInteger? (a :: b :: cs)
  | cs => decimalInteger? cs

/-- The integer of 64 bits that a text spells. -/
def integer? (cs : List Char) : Option Int64 := do
  let n ← unboundedInteger? cs
  if Int64.minValue.toInt ≤ n ∧ n ≤ Int64.maxValue.toInt then some (Int64.ofInt n) else none

/-- The number `m * 10 ^ e` has 64 bits as a float, rounded to the nearest. The least number that does
not lies half a step above the greatest float. -/
def fitsFloat (m : Nat) (e : Int) : Bool :=
  let bound := (Nat.pow 2 54 - 1) * Nat.pow 2 970
  if e < 0 then m < bound * Nat.pow 10 e.natAbs else m * Nat.pow 10 e.toNat < bound

/-- An exponent, of which only the first five digits from the first that is not zero count. -/
def exponentOf (digits : List Nat) : Nat := digits.foldl (fun n d => if n < 10000 then n * 10 + d else n) 0

/-- The characters in front that are digits or underscores, and the rest. -/
def spanDigits (cs : List Char) : List Char × List Char := cs.span fun c => isDigit c || c == '_'

/-- The digits after the point, if there is one, and the rest. -/
def fraction? : List Char → Option (Option (List Nat) × List Char)
  | '.' :: cs => do
    let (front, rest) := spanDigits cs
    return (some (← grouped? 10 front), rest)
  | cs => some (none, cs)

/-- The exponent, if there is one; nothing follows it. -/
def exponent? : List Char → Option (Option Int)
  | [] => some none
  | c :: cs => do
    if c ≠ 'e' ∧ c ≠ 'E' then none
    else
      let (minus, cs) := signed cs
      let e := exponentOf (← grouped? 10 cs)
      return some (if minus then -(e : Int) else e)

/-- Whether a text spells a float: a sign or not, digits, and a fraction or an exponent or both. -/
def isFinite (cs : List Char) : Bool :=
  let (_, cs) := signed cs
  let (front, rest) := spanDigits cs
  match decimal? front, fraction? rest with
  | some whole, some (fraction, rest) =>
    match exponent? rest with
    | some exponent =>
      (fraction.isSome || exponent.isSome) &&
        fitsFloat (numberOf 10 (whole ++ fraction.getD []))
          (exponent.getD 0 - ((fraction.getD []).length : Int))
    | none => false
  | _, _ => false

/-- Whether a text spells a float, an infinity or no number. -/
def isFloat (cs : List Char) : Bool :=
  let (_, body) := signed cs
  body = ['i', 'n', 'f'] || body = ['n', 'a', 'n'] || isFinite cs

/-! ## Dates and times -/

/-- A number of a fixed count of digits. -/
def fixedNumber? (count : Nat) (cs : List Char) : Option (Nat × List Char) := do
  let front := cs.take count
  if front.length = count then return (numberOf 10 (← front.mapM (digit? 10)), cs.drop count) else none

/-- A given character in front. -/
def expect? (c : Char) : List Char → Option (List Char)
  | c' :: cs => if c' = c then some cs else none
  | [] => none

def isLeapYear (year : Nat) : Bool := year % 4 == 0 && (year % 100 != 0 || year % 400 == 0)

/-- The number of days of a month. -/
def daysIn (year month : Nat) : Nat :=
  if month = 2 then (if isLeapYear year then 29 else 28)
  else if month = 4 ∨ month = 6 ∨ month = 9 ∨ month = 11 then 30
  else 31

/-- What follows a date that exists. -/
def afterDate? (cs : List Char) : Option (List Char) := do
  let (year, cs) ← fixedNumber? 4 cs
  let (month, cs) ← fixedNumber? 2 (← expect? '-' cs)
  let (day, cs) ← fixedNumber? 2 (← expect? '-' cs)
  if 1 ≤ month ∧ month ≤ 12 ∧ 1 ≤ day ∧ day ≤ daysIn year month then some cs else none

/-- What follows the digits behind the point of a second. -/
def afterFraction? : List Char → Option (List Char)
  | '.' :: c :: cs => if isDigit c then some (cs.dropWhile isDigit) else none
  | '.' :: [] => none
  | cs => some cs

/-- What follows the seconds, which may be missing. -/
def afterSeconds? : List Char → Option (List Char)
  | ':' :: cs => do
    let (second, cs) ← fixedNumber? 2 cs
    if second < 60 then afterFraction? cs else none
  | cs => some cs

/-- What follows a time of the clock. -/
def afterTime? (cs : List Char) : Option (List Char) := do
  let (hour, cs) ← fixedNumber? 2 cs
  let (minute, cs) ← fixedNumber? 2 (← expect? ':' cs)
  if hour < 24 ∧ minute < 60 then afterSeconds? cs else none

/-- Whether a text is an offset from universal time, or nothing. -/
def isOffset : List Char → Bool
  | [] => true
  | c :: cs =>
    if c = 'Z' ∨ c = 'z' then cs.isEmpty
    else if c = '+' ∨ c = '-' then
      match fixedNumber? 2 cs with
      | none => false
      | some (hours, cs) =>
        match (expect? ':' cs).bind (fixedNumber? 2) with
        | none => false
        | some (minutes, cs) => hours ≤ 24 && minutes ≤ 60 && cs.isEmpty
    else false

/-- Whether a text is what follows a date: nothing, or a time with or without an offset. -/
def isDayTime : List Char → Bool
  | [] => true
  | c :: cs =>
    (c == 'T' || c == 't' || c == ' ') &&
      match afterTime? cs with
      | none => false
      | some rest => isOffset rest

/-- Whether a text is a date, a time, or a date with a time. -/
def isMoment (cs : List Char) : Bool :=
  match afterDate? cs with
  | some rest => isDayTime rest
  | none =>
    match afterTime? cs with
    | some rest => rest.isEmpty
    | none => false

/-! ## One token -/

/-- The characters of dates and times; a blank may stand between the two. -/
def isMomentChar (c : Char) : Bool := isDigit c || "-:Tt .Zz+".toList.contains c

/-- The characters of numbers and truth values. -/
def isTokenChar (c : Char) : Bool := c.isAlphanum || "+-_.".toList.contains c

/-- Whether a text goes on as dates and times do: digits, then a hyphen or a colon. -/
def startsMoment (cs : List Char) : Bool :=
  let rest := cs.dropWhile isDigit
  cs.head?.any isDigit && rest.head?.any fun c => c == '-' || c == ':'

/-- The text without blanks at its end. -/
def trimEnd (cs : List Char) : List Char := (cs.reverse.dropWhile isBlank).reverse

/-- The value that one token spells. -/
def token? (cs : List Char) : Option Scalar :=
  if cs = ['t', 'r', 'u', 'e'] then some (.boolean true)
  else if cs = ['f', 'a', 'l', 's', 'e'] then some (.boolean false)
  else
    match integer? cs with
    | some n => some (.integer n)
    | none => if isFloat cs then some (.float cs) else none

/-- A number, a truth value, a date or a time in front. -/
def unquoted (cs : List Char) : Read Scalar :=
  if startsMoment cs then
    let text := trimEnd (cs.takeWhile isMomentChar)
    if isMoment text then some (.moment text, cs.dropWhile isMomentChar) else none
  else (token? (cs.takeWhile isTokenChar)).map fun v => (v, cs.dropWhile isTokenChar)

end Dispatch.Toml
