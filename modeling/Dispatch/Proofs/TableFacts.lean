/-
Facts about method tables. A definition changes what one symbol finds and nothing else
(`find?_define`): the slots that are added for it are empty, and the count goes up just when its slot was
empty before. So the count is always the number of occupied slots, and there are never more slots than
symbols (`Tallied`). A sealed table stays as it is.
-/
import Dispatch.MethodTable

namespace Dispatch.MethodTable

variable {t t' : MethodTable} {s s' : Symbol} {m : Method} {slots : List (Option Method)}

/-! ## Looking a symbol up -/

theorem lt_length_grown : s.toNat < (grown slots s).length := by
  simp only [grown, List.length_append, List.length_replicate]
  omega

/-- Slots that are added are empty. -/
theorem slotAt_grown : slotAt (grown slots s) s' = slotAt slots s' := by
  simp only [slotAt, grown]
  by_cases h : s'.toNat < slots.length
  · rw [List.getElem?_append_left h]
  · have hge : slots.length ≤ s'.toNat := Nat.le_of_not_lt h
    rw [List.getElem?_append_right hge, List.getElem?_eq_none hge, List.getElem?_replicate]
    split <;> rfl

theorem slotAt_set (h : s.toNat < slots.length) :
    slotAt (slots.set s.toNat (some m)) s' = if s' = s then some m else slotAt slots s' := by
  simp only [slotAt]
  by_cases hs : s' = s
  · subst hs
    simp [h]
  · have hplace : s.toNat ≠ s'.toNat := fun heq => hs (UInt32.toNat_inj.mp heq.symm)
    rw [List.getElem?_set_ne hplace, if_neg hs]

/-- What a definition makes of a table that takes it. -/
theorem eq_of_define (h : t.define s m = .ok t') :
    t' = { t with
      slots := (grown t.slots s).set s.toNat (some m)
      count := if (t.find? s).isNone then t.count + 1 else t.count } := by
  simp only [define] at h
  split at h
  · cases h
  · cases h
    rw [slotAt_grown]
    rfl

/-- A definition binds its symbol, and no other symbol notices. -/
theorem find?_define (h : t.define s m = .ok t') :
    t'.find? s' = if s' = s then some m else t.find? s' := by
  rw [eq_of_define h]
  show slotAt ((grown t.slots s).set s.toNat (some m)) s' = _
  rw [slotAt_set lt_length_grown, slotAt_grown]
  rfl

theorem define_of_open (h : t.isSealed = false) (s : Symbol) (m : Method) :
    ∃ t', t.define s m = .ok t' ∧ t'.isSealed = false := by
  simp [define, h]

@[simp] theorem define_of_sealed (h : t.isSealed = true) (s : Symbol) (m : Method) :
    t.define s m = .error (.sealedTable t.kind) := by
  simp [define, h]

theorem close_of_sealed (h : t.isSealed = true) : t.close = t := by
  rw [close, ← h]

/-! ## Counting the methods -/

/-- The count is right, and every slot has a symbol. -/
structure Tallied (t : MethodTable) : Prop where
  count : t.count = t.slots.countP Option.isSome
  inRange : t.slots.length ≤ UInt32.size

theorem empty_tallied (kind : Option Kind) : (empty kind).Tallied := ⟨rfl, Nat.zero_le _⟩

theorem countP_grown : (grown slots s).countP Option.isSome = slots.countP Option.isSome := by
  simp [grown, List.countP_append, List.countP_replicate]

/-- A method that comes into an empty slot is one more. -/
theorem countP_set_some {i : Nat} (h : i < slots.length) :
    (slots.set i (some m)).countP Option.isSome =
      slots.countP Option.isSome + if (slots[i]?).join.isNone then 1 else 0 := by
  induction slots generalizing i with
  | nil => simp at h
  | cons slot rest ih =>
    cases i with
    | zero => cases slot <;> simp
    | succ i =>
      have hi : i < rest.length := by simpa using h
      simp only [List.set_cons_succ, List.countP_cons, List.getElem?_cons_succ, ih hi]
      omega

theorem Tallied.define (ht : t.Tallied) (h : t.define s m = .ok t') : t'.Tallied := by
  have hs : s.toNat < UInt32.size := s.toNat_lt
  have hempty : (((grown t.slots s)[s.toNat]?).join) = t.find? s := slotAt_grown
  rw [eq_of_define h]
  constructor
  · show (if (t.find? s).isNone then t.count + 1 else t.count) =
      ((grown t.slots s).set s.toNat (some m)).countP Option.isSome
    rw [countP_set_some lt_length_grown, countP_grown, hempty, ← ht.count]
    split <;> rfl
  · show ((grown t.slots s).set s.toNat (some m)).length ≤ UInt32.size
    have hlength := ht.inRange
    simp only [List.length_set, grown, List.length_append, List.length_replicate]
    omega

theorem Tallied.close (ht : t.Tallied) : t.close.Tallied := ⟨ht.count, ht.inRange⟩

/-! ## Listing the symbols -/

/-- The place of a slot is below the number of symbols, so it is not cut. -/
theorem Tallied.toNat_place (ht : t.Tallied) {slot : Option Method × Nat} (h : slot ∈ t.slots.zipIdx) :
    slot.2.toUInt32.toNat = slot.2 := by
  have hlt := List.snd_lt_of_mem_zipIdx h
  have hrange := ht.inRange
  simp only [UInt32.size] at hrange
  simp
  omega

/-- A table lists the symbols that find a method. -/
theorem Tallied.mem_symbols (ht : t.Tallied) : s ∈ t.symbols ↔ ∃ m, t.find? s = some m := by
  simp only [symbols, List.mem_filterMap, Option.map_eq_some_iff]
  constructor
  · rintro ⟨slot, hslot, m, hm, rfl⟩
    have hplace : t.slots[slot.2]? = some slot.1 := List.mem_zipIdx_iff_getElem?.mp hslot
    refine ⟨m, ?_⟩
    rw [find?, slotAt, ht.toNat_place hslot, hplace, hm]
    rfl
  · rintro ⟨m, hm⟩
    have hplace : t.slots[s.toNat]? = some (some m) := Option.join_eq_some_iff.mp hm
    exact ⟨(some m, s.toNat), List.mem_zipIdx_iff_getElem?.mpr hplace, m, rfl, by simp⟩

/-- The symbols are listed in ascending order, -/
theorem Tallied.symbols_pairwise (ht : t.Tallied) : t.symbols.Pairwise (· < ·) := by
  have hplaces : t.slots.zipIdx.Pairwise fun a b => a.2 < b.2 := by
    refine List.pairwise_map.mp ?_
    rw [List.zipIdx_map_snd]
    exact List.pairwise_lt_range'
  refine List.pairwise_filterMap.mpr (hplaces.imp_of_mem fun {a b} ha hb hlt => ?_)
  intro s hs s' hs'
  obtain ⟨-, -, rfl⟩ := Option.map_eq_some_iff.mp hs
  obtain ⟨-, -, rfl⟩ := Option.map_eq_some_iff.mp hs'
  rwa [UInt32.lt_iff_toNat_lt, ht.toNat_place ha, ht.toNat_place hb]

/-- so each once. -/
theorem Tallied.nodup_symbols (ht : t.Tallied) : t.symbols.Nodup := ht.symbols_pairwise.imp UInt32.ne_of_lt

theorem length_symbols : t.symbols.length = t.slots.countP Option.isSome := by
  have hslots : t.slots.zipIdx.countP (fun slot => slot.1.isSome) = t.slots.countP Option.isSome := by
    have hmap := List.countP_map (f := Prod.fst) (p := Option.isSome) (l := t.slots.zipIdx)
    rw [List.zipIdx_map_fst] at hmap
    exact hmap.symm
  simp only [symbols, List.length_filterMap_eq_countP, Option.isSome_map, hslots]

theorem Tallied.size_eq (ht : t.Tallied) : t.size = t.symbols.length := by
  rw [length_symbols, ← ht.count]
  rfl

end Dispatch.MethodTable
