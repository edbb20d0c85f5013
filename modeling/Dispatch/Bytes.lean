/-
Byte strings. Names, messages, string values, file contents and encoded data are all `Bytes`: any
bytes at all, valid text or not. Here are the spelling of literals, the hexadecimal digits and the
bytewise order.
-/
namespace Dispatch

/-- A finite sequence of bytes. -/
abbrev Bytes := List UInt8

/-- The name of a message or a method: any bytes, the empty string included. -/
abbrev Name := Bytes

namespace Bytes

/-- The bytes of a text literal. -/
def ofString (s : String) : Bytes := s.toUTF8.data.toList

/-- The lower-case hexadecimal digit of a number below sixteen. -/
def hexDigit (n : Nat) : UInt8 := if n < 10 then (48 + n).toUInt8 else (87 + n).toUInt8

/-- The lowest `width` hexadecimal digits of `n`, most significant first. -/
def hex : (width : Nat) → (n : Nat) → Bytes
  | 0, _ => []
  | width + 1, n => hex width (n / 16) ++ [hexDigit (n % 16)]

/-- Unsigned bytes from the front, a proper initial part first. -/
def lex (a b : Bytes) : Ordering := List.compareLex compare a b

/-- The pieces between occurrences of `sep`: one more piece than there are occurrences. -/
def splitOn (sep : UInt8) : Bytes → List Bytes
  | [] => [[]]
  | b :: bs =>
    match splitOn sep bs with
    | [] => [[b]]
    | piece :: pieces => if b = sep then [] :: piece :: pieces else (b :: piece) :: pieces

theorem splitOn_ne_nil (sep : UInt8) (bs : Bytes) : splitOn sep bs ≠ [] := by
  cases bs with
  | nil => simp [splitOn]
  | cons b bs =>
    simp only [splitOn]
    repeat' split
    all_goals simp

theorem splitOn_sep (sep : UInt8) (bs : Bytes) : splitOn sep (sep :: bs) = [] :: splitOn sep bs := by
  simp only [splitOn]
  split
  · next h => exact absurd h (splitOn_ne_nil sep bs)
  · next h => simp [h]

/-- A byte that does not separate joins the first piece. -/
theorem splitOn_other {sep b : UInt8} (h : b ≠ sep) (bs : Bytes) :
    ∃ piece pieces, splitOn sep bs = piece :: pieces ∧ splitOn sep (b :: bs) = (b :: piece) :: pieces := by
  simp only [splitOn]
  split
  · next hbs => exact absurd hbs (splitOn_ne_nil sep bs)
  · next piece pieces hbs => exact ⟨piece, pieces, hbs, by simp [h]⟩

theorem splitOn_append (sep : UInt8) (a b : Bytes) :
    splitOn sep (a ++ sep :: b) = splitOn sep a ++ splitOn sep b := by
  induction a with
  | nil => exact splitOn_sep sep b
  | cons c a ih =>
    by_cases hc : c = sep
    · rw [hc, List.cons_append, splitOn_sep, splitOn_sep, ih]
      rfl
    · obtain ⟨piece, pieces, ha, hca⟩ := splitOn_other hc a
      obtain ⟨piece', pieces', hab, hcab⟩ := splitOn_other hc (a ++ sep :: b)
      rw [ih, ha, List.cons_append] at hab
      obtain ⟨rfl, rfl⟩ := List.cons.inj hab
      rw [List.cons_append, hcab, hca, List.cons_append]

/-- The pieces with `sep` between neighbours. -/
def joinWith (sep : Bytes) : List Bytes → Bytes
  | [] => []
  | [piece] => piece
  | piece :: pieces => piece ++ sep ++ joinWith sep pieces

end Bytes

end Dispatch
