/-
The characters of a TOML text. A byte order mark in front is no part of it. The text has to be UTF-8
throughout, comments included, without controls other than the tab and line ends; a carriage return
only stands before a line feed.
-/
import Dispatch.Text.Utf8

namespace Dispatch.Toml

/-- The bytes after a byte order mark. -/
def dropMark : Bytes → Bytes
  | 0xef :: 0xbb :: 0xbf :: rest => rest
  | 0xff :: 0xfe :: rest => rest
  | 0xfe :: 0xff :: rest => rest
  | bs => bs

def isBlank (c : Char) : Bool := c == ' ' || c == '\t'

/-- The characters of line ends. -/
def isNewline (c : Char) : Bool := c == '\n' || c == '\r'

/-- Controls that no text may hold. -/
def isForbidden (c : Char) : Bool := (c.toNat < 0x20 && !isBlank c && !isNewline c) || c.toNat == 0x7f

/-- Whether no control is forbidden and every carriage return stands before a line feed. -/
def isPlain : List Char → Bool
  | [] => true
  | c :: cs => !isForbidden c && (c != '\r' || cs.head? == some '\n') && isPlain cs

/-- The characters of a text. -/
def source? (data : Bytes) : Option (List Char) := do
  let cs ← Text.Utf8.decodeAll? (dropMark data)
  if isPlain cs then some cs else none

/-- The text from the first character that is not blank. -/
def dropBlank (cs : List Char) : List Char := cs.dropWhile isBlank

/-- The text after blanks, line ends and comments; `inComment` says whether it starts inside one. -/
def skipTrivia (inComment : Bool) : List Char → List Char
  | [] => []
  | c :: cs =>
    if inComment then skipTrivia (c != '\n') cs
    else if isBlank c || isNewline c then skipTrivia false cs
    else if c = '#' then skipTrivia true cs
    else c :: cs

/-- The text after a statement: nothing, a line end or a comment. -/
def lineEnd? (cs : List Char) : Option (List Char) :=
  match dropBlank cs with
  | [] => some []
  | c :: cs => if isNewline c || c == '#' then some (c :: cs) else none

end Dispatch.Toml
