/-
The four kinds of values. A kind decides which methods a value answers; on the wire and in tables it
is a tag, and tags above the last kind name none.
-/
import Dispatch.Bytes

namespace Dispatch

/-- The kind of a value, in ascending order of tags. -/
inductive Kind where
  | nil
  | bool
  | fixnum
  | string
  deriving DecidableEq, Repr

namespace Kind

/-- The number of a kind. -/
def tag : Kind → UInt8
  | .nil => 0
  | .bool => 1
  | .fixnum => 2
  | .string => 3

/-- The kind with a number. -/
def ofTag? (tag : UInt8) : Option Kind :=
  if tag = 0 then some .nil
  else if tag = 1 then some .bool
  else if tag = 2 then some .fixnum
  else if tag = 3 then some .string
  else none

/-- The name of a kind in messages. -/
def name : Kind → Name
  | .nil => Bytes.ofString "nil"
  | .bool => Bytes.ofString "bool"
  | .fixnum => Bytes.ofString "fixnum"
  | .string => Bytes.ofString "string"

/-- The name of what a tag stands for; a tag without a kind is invalid. -/
def nameOf : Option Kind → Name
  | some k => k.name
  | none => Bytes.ofString "invalid"

@[simp] theorem ofTag?_tag (k : Kind) : ofTag? k.tag = some k := by cases k <;> rfl

end Kind

end Dispatch
