/-
The four kinds of TOML strings: in double quotes with escapes or in single quotes without, on one line
or on several. Each reader starts after the opening quotes and gives the string and the text after the
closing quotes.

On several lines, up to two quotes may stand right before the three that close the string. A backslash
at the end of a line takes the line end and all blanks and line ends after it away.
-/
import Dispatch.Toml.Source

namespace Dispatch.Toml

/-- What a reader gives: something and the text after it. -/
abbrev Read (α : Type) := Option (α × List Char)

/-- A character in front of the string that is read. -/
def Read.cons (c : Char) (r : Read (List Char)) : Read (List Char) := r.map fun (s, rest) => (c :: s, rest)

/-- The value of a digit, of which there are 36. -/
def digitValue (c : Char) : Nat :=
  if '0' ≤ c ∧ c ≤ '9' then c.toNat - 48
  else if 'a' ≤ c ∧ c ≤ 'z' then c.toNat - 87
  else if 'A' ≤ c ∧ c ≤ 'Z' then c.toNat - 55
  else 36

/-- The value of a digit of a base. -/
def digit? (base : Nat) (c : Char) : Option Nat := if digitValue c < base then some (digitValue c) else none

/-- The number of a list of digits. -/
def numberOf (base : Nat) (digits : List Nat) : Nat := digits.foldl (fun n d => n * base + d) 0

/-- The character whose code point is given in hexadecimal digits. -/
def codePoint? (digits : List Char) : Option Char := do
  let n := numberOf 16 (← digits.mapM (digit? 16))
  if n.isValidChar then some (Char.ofNat n) else none

/-- The character of an escape of one letter. -/
def letterEscape? (c : Char) : Option Char :=
  if c = 'b' then some '\x08'
  else if c = 't' then some '\t'
  else if c = 'n' then some '\n'
  else if c = 'f' then some '\x0c'
  else if c = 'r' then some '\r'
  else if c = 'e' then some '\x1b'
  else if c = '\x22' then some '\x22'
  else if c = '\\' then some '\\'
  else none

/-- The number of hexadecimal digits after the letter of a numbered escape. -/
def escapeWidth (c : Char) : Nat := if c = 'x' then 2 else if c = 'u' then 4 else if c = 'U' then 8 else 0

/-- The character of the escape after a backslash, and the number of characters that spell it. -/
def escape? : List Char → Option (Char × Nat)
  | [] => none
  | c :: cs =>
    match escapeWidth c with
    | 0 => (letterEscape? c).map (·, 1)
    | width =>
      let digits := cs.take width
      if digits.length = width then (codePoint? digits).map (·, width + 1) else none

/-- A string in double quotes on one line. Of an escape that is being read, `pending` characters are
still to be passed over. -/
def basicString (pending : Nat) : List Char → Read (List Char)
  | [] => none
  | c :: cs =>
    match pending with
    | pending + 1 => basicString pending cs
    | 0 =>
      if c = '\x22' then some ([], cs)
      else if c = '\\' then
        match escape? cs with
        | none => none
        | some (e, width) => (basicString width cs).cons e
      else if isNewline c then none
      else (basicString 0 cs).cons c

/-- A string in single quotes on one line. -/
def literalString : List Char → Read (List Char)
  | [] => none
  | c :: cs =>
    if c = '\x27' then some ([], cs)
    else if isNewline c then none
    else (literalString cs).cons c

/-- The number of quotes in front. -/
def quoteRun (quote : Char) (cs : List Char) : Nat := (cs.takeWhile (· == quote)).length

/-- The end of a string on several lines at a run of at least three quotes: the quotes before the last
three belong to the string, and there are at most `spare` of them. -/
def closing? (quote : Char) (spare : Nat) (cs : List Char) : Read (List Char) :=
  let run := quoteRun quote cs
  if run ≤ 3 + spare then some (List.replicate (run - 3) quote, cs.drop run) else none

/-- A string in single quotes on several lines. -/
def literalLines : List Char → Read (List Char)
  | [] => none
  | c :: cs =>
    if c = '\x27' ∧ 2 ≤ quoteRun '\x27' cs then closing? '\x27' 2 (c :: cs)
    else (literalLines cs).cons c

/-- Where the reader of a string on several lines stands. -/
inductive Place where
  | text
  /-- Right after an escaped backslash, where a third quote may stand before the last three. -/
  | afterBackslash
  /-- In the gap after a backslash at a line's end, with or without the line end passed. -/
  | gap (passedNewline : Bool)
  deriving DecidableEq, Repr

/-- Whether a character belongs to a gap. -/
def Place.passesOver (place : Place) (c : Char) : Bool :=
  match place with
  | .gap _ => isBlank c || isNewline c
  | _ => false

/-- A string in double quotes on several lines. Of an escape that is being read, `pending` characters
are still to be passed over. -/
def basicLines (place : Place) (pending : Nat) : List Char → Read (List Char)
  | [] => none
  | c :: cs =>
    match pending with
    | pending + 1 => basicLines place pending cs
    | 0 =>
      if place.passesOver c then basicLines (.gap (place == .gap true || c == '\n')) 0 cs
      else if place = .gap false then none
      else if c = '\x22' ∧ 2 ≤ quoteRun '\x22' cs then
        closing? '\x22' (if place = .afterBackslash then 3 else 2) (c :: cs)
      else if c = '\\' then
        if cs.head?.any fun d => isBlank d || isNewline d then basicLines (.gap false) 0 cs
        else
          match escape? cs with
          | none => none
          | some (e, width) =>
            (basicLines (if cs.head? = some '\\' then .afterBackslash else .text) width cs).cons e
      else (basicLines .text 0 cs).cons c

/-- The text of a string on several lines starts after a line end right behind the opening quotes. -/
def dropNewline : List Char → List Char
  | '\n' :: cs => cs
  | '\r' :: '\n' :: cs => cs
  | cs => cs

end Dispatch.Toml
