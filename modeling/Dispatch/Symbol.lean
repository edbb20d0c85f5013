/-
Interned names. A symbol table keeps a map from names to symbols, and beside it the list of the names in
the order in which they first came. The symbol of a name is the number of names that were there before
it, so it is also the place of the name in the list. Names are only ever added, so a symbol keeps its
meaning.

Symbols have 32 bits. The number is cut to that width, which is faithful as long as a table holds at
most 2^32 names.
-/
import Dispatch.Failure

namespace Dispatch

/-- The number of an interned name. -/
abbrev Symbol := UInt32

/-- The interned names. -/
structure SymbolTable where
  /-- The symbols of the names, the latest name first. -/
  byName : List (Name × Symbol)
  /-- The names, first come first. -/
  names : List Name
  deriving DecidableEq, Repr

namespace SymbolTable

def empty : SymbolTable := ⟨[], []⟩

/-- The most names that room can be asked for: with 16 bytes for each they fill 2^48 bytes. -/
def maxCapacity : Int := 0x100000000000

/-- An empty table with room for so many names; a negative number counts as zero. Names may come beyond
the room, so no answer of the table depends on it. Room for too many cannot be made. -/
def withCapacity (capacity : Int) : Except Crash SymbolTable :=
  let room := if capacity < 0 then 0 else capacity
  if maxCapacity < room then .error .capacityOutOfRange else .ok empty

/-- The number of names. -/
def size (t : SymbolTable) : Nat := t.names.length

/-- The symbol of a name that is in the table. -/
def find? (t : SymbolTable) (name : Name) : Option Symbol := t.byName.lookup name

/-- The symbol of a name, which joins the table if it is new. -/
def intern (t : SymbolTable) (name : Name) : Symbol × SymbolTable :=
  match t.find? name with
  | some s => (s, t)
  | none =>
    let s := t.size.toUInt32
    (s, ⟨(name, s) :: t.byName, t.names ++ [name]⟩)

/-- The name of a symbol; a symbol that the table never gave out has the empty name. -/
def name (t : SymbolTable) (s : Symbol) : Name := t.names.getD s.toNat []

end SymbolTable

end Dispatch
