/-
Decimal numerals. `Decimal.ofInt` writes the one numeral without padding: no leading zero, no plus
sign, a minus sign before a negative number and never before zero. `Decimal.toInt?` reads a numeral
back.
-/
import Dispatch.Bytes

namespace Dispatch.Decimal

/-- The digit of a number below ten. -/
def digit (n : Nat) : UInt8 := (48 + n).toUInt8

/-- The numeral of a natural number. -/
def ofNat (n : Nat) : Bytes :=
  if n < 10 then [digit n] else ofNat (n / 10) ++ [digit (n % 10)]
termination_by n

/-- The numeral of an integer. -/
def ofInt : Int → Bytes
  | .ofNat n => ofNat n
  | .negSucc n => 45 :: ofNat (n + 1)

/-- The number a byte stands for, when it is a digit. -/
def digit? (b : UInt8) : Option Nat :=
  if 48 ≤ b ∧ b ≤ 57 then some (b.toNat - 48) else none

/-- The number that more digits spell after digits of value `acc`. -/
def digitsFrom? (acc : Nat) : Bytes → Option Nat
  | [] => some acc
  | b :: bs => do digitsFrom? (acc * 10 + (← digit? b)) bs

/-- The number of a run of at least one digit. -/
def toNat? : Bytes → Option Nat
  | [] => none
  | b :: bs => digitsFrom? 0 (b :: bs)

/-- The number of a run of digits after at most one minus sign. -/
def toInt? : Bytes → Option Int
  | [] => none
  | b :: bs =>
    if b = 45 then (toNat? bs).map fun n => -(n : Int)
    else (toNat? (b :: bs)).map fun n => (n : Int)

end Dispatch.Decimal
