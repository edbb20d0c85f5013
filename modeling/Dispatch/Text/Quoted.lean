/-
Byte strings in double quotes, for logs and people. Printable characters stand for themselves; a
quote and a backslash have a backslash before them; seven controls have a letter; every other
character and every stray byte is written by its number. So a quoted string is valid UTF-8 on one
line, and nothing in it is invisible.
-/
import Dispatch.Text.Printable
import Dispatch.Text.Utf8

namespace Dispatch.Text.Quoted

open Utf8 (Piece)

/-- A backslash, a letter and the number in hexadecimal digits. -/
def numbered (letter : Char) (width n : Nat) : Bytes :=
  0x5c :: letter.toNat.toUInt8 :: Bytes.hex width n

/-- The letter that stands for a control after a backslash. -/
def letter? (c : Char) : Option Char :=
  match c.toNat with
  | 0x07 => some 'a'
  | 0x08 => some 'b'
  | 0x09 => some 't'
  | 0x0a => some 'n'
  | 0x0b => some 'v'
  | 0x0c => some 'f'
  | 0x0d => some 'r'
  | _ => none

/-- A character inside the quotes. -/
def char (c : Char) : Bytes :=
  if c = '\x22' ∨ c = '\\' then [0x5c, c.toNat.toUInt8]
  else if isPrintable c then Utf8.encode c
  else
    match letter? c with
    | some l => [0x5c, l.toNat.toUInt8]
    | none =>
      if c.toNat < 0x80 then numbered 'x' 2 c.toNat
      else if c.toNat < 0x10000 then numbered 'u' 4 c.toNat
      else numbered 'U' 8 c.toNat

/-- A piece inside the quotes. -/
def piece : Piece → Bytes
  | .char c => char c
  | .stray b => numbered 'x' 2 b.toNat

/-- What stands between the quotes. -/
def body (bs : Bytes) : Bytes := (Utf8.pieces bs).flatMap piece

end Quoted

/-- The byte string in double quotes. -/
def quote (bs : Bytes) : Bytes := 0x22 :: Quoted.body bs ++ [0x22]

end Dispatch.Text
