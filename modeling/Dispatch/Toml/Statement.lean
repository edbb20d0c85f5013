/-
What a TOML text says, statement by statement: headers of tables, headers of tables in arrays, and
assignments of values to dotted keys. What the statements make together is the business of
`Dispatch.Toml.Document`.

Readers of nested values take a bound on their nesting, which the length of the text gives.
-/
import Dispatch.Toml.Scalar

namespace Dispatch.Toml

/-- One part of a dotted key. -/
abbrev Key := List Char

/-- A dotted key, or the way to a table. -/
abbrev KeyPath := List Key

/-- A value as it is written. -/
inductive Expr where
  | scalar (v : Scalar)
  | array (elements : List Expr)
  /-- A table in braces, with dotted keys of its own. -/
  | inline (entries : List (KeyPath × Expr))

/-- A line of a text, or several for a value that goes on. -/
inductive Statement where
  | table (path : KeyPath)
  /-- One more table in an array of tables. -/
  | element (path : KeyPath)
  | assign (path : KeyPath) (value : Expr)

/-! ## Keys -/

/-- The characters of keys without quotes. -/
def isKeyChar (c : Char) : Bool := c.isAlphanum || c == '_' || c == '-'

/-- One part of a dotted key. -/
def keyPart (cs : List Char) : Read Key :=
  match cs with
  | [] => none
  | c :: rest =>
    if c = '\x22' then basicString 0 rest
    else if c = '\x27' then literalString rest
    else if isKeyChar c then some (cs.span isKeyChar)
    else none

/-- A dotted key of at most `most` parts, and the text after it and the blanks behind it. -/
def keyPath : (most : Nat) → List Char → Read KeyPath
  | 0, _ => none
  | most + 1, cs =>
    match keyPart (dropBlank cs) with
    | none => none
    | some (part, cs) =>
      match dropBlank cs with
      | '.' :: cs => (keyPath most cs).map fun (path, cs) => (part :: path, cs)
      | cs => some ([part], cs)

/-! ## Values -/

/-- A string in front, in any of the four kinds of quotes. -/
def quoted? (cs : List Char) : Option (Read (List Char)) :=
  match cs with
  | '\x22' :: '\x22' :: '\x22' :: cs => some (basicLines .text 0 (dropNewline cs))
  | '\x22' :: cs => some (basicString 0 cs)
  | '\x27' :: '\x27' :: '\x27' :: cs => some (literalLines (dropNewline cs))
  | '\x27' :: cs => some (literalString cs)
  | _ => none

/-- A value that is not made of others. -/
def scalar (cs : List Char) : Read Scalar :=
  match quoted? cs with
  | some result => result.map fun (s, cs) => (.string s, cs)
  | none => unquoted cs

mutual

/-- A value in front. -/
def value : (bound : Nat) → List Char → Read Expr
  | 0, _ => none
  | bound + 1, cs =>
    match cs with
    | '[' :: cs => (elements bound cs).map fun (xs, cs) => (.array xs, cs)
    | '\x7b' :: cs => (entries bound cs).map fun (es, cs) => (.inline es, cs)
    | cs => (scalar cs).map fun (v, cs) => (.scalar v, cs)

/-- The elements of an array up to its end. -/
def elements : (bound : Nat) → List Char → Read (List Expr)
  | 0, _ => none
  | bound + 1, cs =>
    match skipTrivia false cs with
    | ']' :: cs => some ([], cs)
    | cs =>
      match value bound cs with
      | none => none
      | some (x, cs) =>
        match skipTrivia false cs with
        | ',' :: cs => (elements bound cs).map fun (xs, cs) => (x :: xs, cs)
        | ']' :: cs => some ([x], cs)
        | _ => none

/-- The entries of a table in braces up to its end. -/
def entries : (bound : Nat) → List Char → Read (List (KeyPath × Expr))
  | 0, _ => none
  | bound + 1, cs =>
    match skipTrivia false cs with
    | '\x7d' :: cs => some ([], cs)
    | cs =>
      match assignment bound cs with
      | none => none
      | some (entry, cs) =>
        match skipTrivia false cs with
        | ',' :: cs => (entries bound cs).map fun (es, cs) => (entry :: es, cs)
        | '\x7d' :: cs => some ([entry], cs)
        | _ => none

/-- A dotted key, an equals sign and a value on its line. -/
def assignment : (bound : Nat) → List Char → Read (KeyPath × Expr)
  | 0, _ => none
  | bound + 1, cs =>
    match keyPath bound cs with
    | some (path, '=' :: cs) => (value bound (dropBlank cs)).map fun (v, cs) => ((path, v), cs)
    | _ => none

end

/-! ## Statements -/

/-- A bound on the nesting of what a text holds. -/
def boundOf (cs : List Char) : Nat := 3 * cs.length + 3

/-- A statement in front. -/
def statement (cs : List Char) : Read Statement :=
  match cs with
  | '[' :: '[' :: cs =>
    match keyPath (boundOf cs) cs with
    | some (path, ']' :: ']' :: cs) => some (.element path, cs)
    | _ => none
  | '[' :: cs =>
    match keyPath (boundOf cs) cs with
    | some (path, ']' :: cs) => some (.table path, cs)
    | _ => none
  | cs => (assignment (boundOf cs) cs).map fun ((path, v), cs) => (.assign path v, cs)

/-- At most `most` statements, each on lines of its own, up to the end of the text. -/
def statementsWithin : (most : Nat) → List Char → Option (List Statement)
  | most, cs =>
    match skipTrivia false cs with
    | [] => some []
    | cs =>
      match most with
      | 0 => none
      | most + 1 =>
        match statement cs with
        | none => none
        | some (s, cs) =>
          match lineEnd? cs with
          | none => none
          | some cs => (statementsWithin most cs).map (s :: ·)

/-- The statements of a text. -/
def statements (cs : List Char) : Option (List Statement) := statementsWithin cs.length cs

end Dispatch.Toml
