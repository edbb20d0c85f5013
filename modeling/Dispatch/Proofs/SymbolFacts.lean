/-
Facts about symbol tables. The map and the list of a table are kept in step (`InStep`): the list has no
name twice, and the map has every name at its place in the list, cut to 32 bits. A new table is in step,
and interning keeps it so.

In a table that is in step everything is told by places (`List.idxOf`, which is the length of the list for
a name that is not in it): interning a name never moves another one, and two names whose places have not
been cut share a symbol only if they are the same name.
-/
import Mathlib.Data.List.Nodup
import Dispatch.Symbol

namespace Dispatch.SymbolTable

variable {t : SymbolTable} {name other : Name} {s : Symbol}

/-- The number of symbols, 2^32. -/
def symbolCount : Nat := 0x100000000

/-- A name with a symbol of its own, or one that gets such a symbol when it is interned: its place,
which is the next one for a new name, is below the number of symbols. -/
def Owns (t : SymbolTable) (name : Name) : Prop := t.names.idxOf name < symbolCount

/-- A name owns its symbol when it is one of the first 2^32 names, or there is room for one more. -/
theorem owns_iff : t.Owns name ↔ name ∈ t.names.take symbolCount ∨ t.size < symbolCount := by
  by_cases hmem : name ∈ t.names
  · rw [List.mem_take_iff_idxOf_lt hmem, Owns]
    have hlt := List.idxOf_lt_length_of_mem hmem
    simp only [size]
    omega
  · have hnot : name ∉ t.names.take symbolCount := fun h => hmem (List.mem_of_mem_take h)
    simp [Owns, size, List.idxOf_eq_length hmem, hnot]

/-- Room can be made for any number of names but one that is too great. -/
theorem withCapacity_eq (capacity : Int) :
    withCapacity capacity = if maxCapacity < capacity then .error .capacityOutOfRange else .ok empty := by
  simp only [withCapacity]
  by_cases h : capacity < 0
  · have hsmall : ¬ maxCapacity < capacity := by
      simp only [maxCapacity]
      omega
    rw [if_pos h, if_neg hsmall]
    rfl
  · rw [if_neg h]

theorem eq_empty_of_withCapacity {capacity : Int} (h : withCapacity capacity = .ok t) : t = empty := by
  rw [withCapacity_eq] at h
  split at h
  · cases h
  · cases h
    rfl

/-! ## The map and the list in step -/

/-- The map of a table and its list say the same. -/
structure InStep (t : SymbolTable) : Prop where
  nodup : t.names.Nodup
  find?_eq : ∀ name, t.find? name = if name ∈ t.names then some (t.names.idxOf name).toUInt32 else none

theorem empty_inStep : empty.InStep := ⟨List.nodup_nil, fun _ => rfl⟩

namespace InStep

theorem find?_of_mem (ht : t.InStep) (h : name ∈ t.names) : t.find? name = some (t.names.idxOf name).toUInt32 := by
  rw [ht.find?_eq, if_pos h]

theorem find?_eq_none (ht : t.InStep) : t.find? name = none ↔ name ∉ t.names := by simp [ht.find?_eq]

theorem mem_of_find? (ht : t.InStep) (h : t.find? name = some s) : name ∈ t.names := by
  by_contra hn
  rw [ht.find?_eq_none.mpr hn] at h
  cases h

/-- The symbol that interning answers is the place of the name, whether it is new or not. -/
theorem intern_fst (ht : t.InStep) : (t.intern name).1 = (t.names.idxOf name).toUInt32 := by
  by_cases h : name ∈ t.names
  · simp [SymbolTable.intern, ht.find?_of_mem h]
  · simp [SymbolTable.intern, ht.find?_eq_none.mpr h, size, List.idxOf_eq_length h]

theorem intern_snd_of_mem (ht : t.InStep) (h : name ∈ t.names) : (t.intern name).2 = t := by
  simp [SymbolTable.intern, ht.find?_of_mem h]

theorem intern_snd_of_notMem (ht : t.InStep) (h : name ∉ t.names) :
    (t.intern name).2 = ⟨(name, t.size.toUInt32) :: t.byName, t.names ++ [name]⟩ := by
  simp [SymbolTable.intern, ht.find?_eq_none.mpr h]

theorem names_intern (ht : t.InStep) :
    (t.intern name).2.names = if name ∈ t.names then t.names else t.names ++ [name] := by
  by_cases h : name ∈ t.names
  · rw [ht.intern_snd_of_mem h, if_pos h]
  · rw [ht.intern_snd_of_notMem h, if_neg h]

/-- Interning keeps the map and the list in step. -/
theorem intern (ht : t.InStep) (name : Name) : (t.intern name).2.InStep := by
  by_cases hn : name ∈ t.names
  · rwa [ht.intern_snd_of_mem hn]
  · rw [ht.intern_snd_of_notMem hn]
    refine ⟨List.nodup_append_comm.mp (by simpa using ⟨hn, ht.nodup⟩), fun other => ?_⟩
    show List.lookup other ((name, t.size.toUInt32) :: t.byName) = _
    by_cases heq : other = name
    · -- The new name stands first in the map and last in the list.
      subst heq
      simp [List.idxOf_append, hn, size]
    · have hold : List.lookup other t.byName = _ := ht.find?_eq other
      have hkey : (other == name) = false := by simpa using heq
      rw [List.lookup_cons, hkey, hold]
      by_cases hmem : other ∈ t.names
      · simp [List.idxOf_append, hmem]
      · simp [hmem, heq]

/-! ## What interning keeps -/

theorem mem_intern (ht : t.InStep) : name ∈ (t.intern name).2.names := by
  rw [ht.names_intern]
  split
  · assumption
  · simp

end InStep

theorem prefix_intern : t.names <+: (t.intern name).2.names := by
  simp only [intern]
  split
  · exact List.prefix_rfl
  · exact List.prefix_append _ _

theorem size_intern_le : (t.intern name).2.size ≤ t.size + 1 := by
  simp only [intern]
  split
  · exact Nat.le_succ _
  · simp [size]

/-- A name that is in a table keeps its place when another one is interned. -/
theorem idxOf_intern (h : other ∈ t.names) :
    (t.intern name).2.names.idxOf other = t.names.idxOf other :=
  (prefix_intern.idxOf_eq_of_mem h).symm

namespace InStep

theorem find?_intern_of_mem (ht : t.InStep) (h : other ∈ t.names) :
    (t.intern name).2.find? other = t.find? other := by
  rw [ht.find?_of_mem h, (ht.intern name).find?_of_mem (prefix_intern.subset h), idxOf_intern h]

theorem idxOf_intern_self (ht : t.InStep) : (t.intern name).2.names.idxOf name = t.names.idxOf name := by
  by_cases h : name ∈ t.names
  · exact idxOf_intern h
  · rw [ht.intern_snd_of_notMem h]
    simp [List.idxOf_append, h]

theorem find?_intern_self (ht : t.InStep) : (t.intern name).2.find? name = some (t.intern name).1 := by
  rw [(ht.intern name).find?_of_mem ht.mem_intern, ht.idxOf_intern_self, ht.intern_fst]

end InStep

/-! ## Names that own their symbols -/

theorem toNat_toUInt32_of_lt {n : Nat} (h : n < symbolCount) : n.toUInt32.toNat = n := by
  simp only [symbolCount] at h
  simp
  omega

theorem name_eq_getElem (h : s.toNat < t.names.length) : t.name s = t.names[s.toNat] := by
  rw [SymbolTable.name, List.getD_eq_getElem?_getD, List.getElem?_eq_getElem h, Option.getD_some]

/-- A symbol that was never given out has the empty name. -/
theorem name_of_le (h : t.names.length ≤ s.toNat) : t.name s = [] := by
  rw [SymbolTable.name, List.getD_eq_getElem?_getD, List.getElem?_eq_none h, Option.getD_none]

/-- A symbol that was given out keeps its name. -/
theorem name_intern_of_lt (h : s.toNat < t.names.length) : (t.intern name).2.name s = t.name s := by
  have hkept : t.names <+: (t.intern name).2.names := prefix_intern
  rw [name_eq_getElem h, hkept.getElem h, name_eq_getElem]

theorem Owns.intern_of_mem (h : t.Owns other) (hm : other ∈ t.names) : (t.intern name).2.Owns other := by
  rwa [Owns, idxOf_intern hm]

namespace InStep

theorem owns_intern (ht : t.InStep) (h : t.Owns name) : (t.intern name).2.Owns name := by
  rwa [Owns, ht.idxOf_intern_self]

/-- A name that owns its symbol is the name of that symbol. -/
theorem name_of_find? (ht : t.InStep) (h : t.find? name = some s) (ho : t.Owns name) : t.name s = name := by
  have hmem := ht.mem_of_find? h
  rw [ht.find?_of_mem hmem, Option.some.injEq] at h
  subst h
  simp only [SymbolTable.name, toNat_toUInt32_of_lt ho]
  rw [List.getD_eq_getElem?_getD, List.getElem?_idxOf hmem, Option.getD_some]

/-- The other way round, every symbol that was given out is found by its name. -/
theorem find?_name (ht : t.InStep) (h : s.toNat < t.names.length) : t.find? (t.name s) = some s := by
  rw [name_eq_getElem h, ht.find?_of_mem (List.getElem_mem _), ht.nodup.idxOf_getElem]
  simp

/-- Interning a name and asking for the name of the symbol gives the name back. -/
theorem name_intern (ht : t.InStep) (h : t.Owns name) : (t.intern name).2.name (t.intern name).1 = name :=
  (ht.intern name).name_of_find? ht.find?_intern_self (ht.owns_intern h)

end InStep

/-! ## Many names -/

/-- So many different names: those of fewer than `n` zeros. -/
def crowd (n : Nat) : List Name := (List.range n).map fun k => List.replicate k 0

theorem mem_crowd {n : Nat} : name ∈ crowd n ↔ ∃ k < n, List.replicate k 0 = name := by
  simp [crowd]

theorem nodup_crowd (n : Nat) : (crowd n).Nodup := by
  refine List.nodup_range.map fun k l heq => ?_
  simpa using congrArg List.length heq

end Dispatch.SymbolTable
