/-
The methods of one kind of receiver. A table has a slot for each symbol, up to the greatest one that was
defined; slots between definitions are empty. The methods are counted as they come, so that no slot has
to be looked at for their number. A definition replaces the earlier method of its symbol. A sealed table
takes no definitions any more.
-/
import Dispatch.Method

namespace Dispatch

/-- Which method answers which symbol. -/
structure MethodTable where
  /-- The kind the table was made for; `none` for a tag without a kind. -/
  kind : Option Kind
  /-- The slots in the order of their symbols. -/
  slots : List (Option Method)
  /-- The number of slots with a method. -/
  count : Nat
  isSealed : Bool

namespace MethodTable

/-- A table without methods. -/
def empty (kind : Option Kind) : MethodTable := ⟨kind, [], 0, false⟩

/-- What the slot of a symbol holds; beyond the last slot there is nothing. -/
def slotAt (slots : List (Option Method)) (s : Symbol) : Option Method := (slots[s.toNat]?).join

/-- The method of a symbol. -/
def find? (t : MethodTable) (s : Symbol) : Option Method := slotAt t.slots s

/-- The number of symbols with a method. -/
def size (t : MethodTable) : Nat := t.count

/-- The symbols with a method, in ascending order. -/
def symbols (t : MethodTable) : List Symbol :=
  t.slots.zipIdx.filterMap fun slot => slot.1.map fun _ => slot.2.toUInt32

/-- The slots with empty ones added until the symbol has one. -/
def grown (slots : List (Option Method)) (s : Symbol) : List (Option Method) :=
  slots ++ List.replicate (s.toNat + 1 - slots.length) none

/-- The table with `m` at `s`. A sealed table crashes instead. -/
def define (t : MethodTable) (s : Symbol) (m : Method) : Except Crash MethodTable :=
  if t.isSealed then .error (.sealedTable t.kind)
  else
    let slots := grown t.slots s
    let count := if (slotAt slots s).isNone then t.count + 1 else t.count
    .ok { t with slots := slots.set s.toNat (some m), count }

/-- The table closed to definitions. -/
def close (t : MethodTable) : MethodTable := { t with isSealed := true }

end MethodTable

end Dispatch
