/-
What a machine's two structures have to do with each other: the symbol table, which grows with every
name that is interned, and the method tables, which are filled once and know symbols only.

`Machine.Serves` ties them: the table of a kind has, at the symbol of a name, the built-in of that kind
and that name, and has nothing else. Adding a built-in extends the tie and interning any name keeps
it, since a name never moves; so it holds of a new machine and ever after. The one thing to watch is
that the names of the built-ins own their symbols, so that a later name can only run into one of them
when 2^32 names are interned already.
-/
import Dispatch.Machine
import Dispatch.Proofs.SymbolFacts
import Dispatch.Proofs.TableFacts

namespace Dispatch

/-! ## The dictionary of built-ins -/

namespace Builtin

theorem mem_all (b : Builtin) : b ∈ all := by cases b <;> decide

/-- No two built-ins have the same kind and the same name. -/
theorem eq_of_key : ∀ {a b : Builtin}, a.kind = b.kind → a.name = b.name → a = b := by
  have h : ∀ a ∈ all, ∀ b ∈ all, a.kind = b.kind → a.name = b.name → a = b := by decide
  exact fun {a b} => h a (mem_all a) b (mem_all b)

theorem eq_of_method {a b : Builtin} (hk : a.kind = b.kind) (hm : a.method = b.method) : a = b :=
  eq_of_key hk (congrArg Method.name hm)

theorem name_ne_nil (b : Builtin) : b.name ≠ [] := by cases b <;> decide

theorem find?_eq_some {k : Kind} {n : Name} {b : Builtin} : find? k n = some b ↔ b.kind = k ∧ b.name = n := by
  constructor
  · intro h
    simpa using List.find?_some h
  · rintro ⟨rfl, rfl⟩
    cases hf : find? b.kind b.name with
    | none =>
      have hnone := List.find?_eq_none.mp hf b (mem_all b)
      simp at hnone
    | some a =>
      have ha : a.kind = b.kind ∧ a.name = b.name := by simpa using List.find?_some hf
      rw [eq_of_key ha.1 ha.2]

end Builtin

namespace Machine

/-- The machine after a name is interned. -/
def intern (mc : Machine) (name : Name) : Machine := { mc with symbols := (mc.symbols.intern name).2 }

/-- The built-ins `bs` are what the tables of a machine hold. -/
structure Serves (mc : Machine) (bs : List Builtin) : Prop where
  inStep : mc.symbols.InStep
  interned : ∀ b ∈ bs, b.name ∈ mc.symbols.names
  owned : ∀ b ∈ bs, mc.symbols.Owns b.name
  tallied : ∀ k, (mc.table k).Tallied
  entry : ∀ k s m, (mc.table k).find? s = some m ↔
    ∃ b ∈ bs, b.kind = k ∧ mc.symbols.find? b.name = some s ∧ b.method = m

theorem Serves.intern {mc : Machine} {bs} (h : mc.Serves bs) (name : Name) : (mc.intern name).Serves bs where
  inStep := h.inStep.intern name
  interned b hb := SymbolTable.prefix_intern.subset (h.interned b hb)
  owned b hb := (h.owned b hb).intern_of_mem (h.interned b hb)
  tallied := h.tallied
  entry k s m := by
    have hfind : ∀ b ∈ bs, (mc.intern name).symbols.find? b.name = mc.symbols.find? b.name :=
      fun b hb => h.inStep.find?_intern_of_mem (h.interned b hb)
    refine (h.entry k s m).trans ⟨?_, ?_⟩
    · rintro ⟨b, hb, hk, hs, hm⟩
      exact ⟨b, hb, hk, (hfind b hb).trans hs, hm⟩
    · rintro ⟨b, hb, hk, hs, hm⟩
      exact ⟨b, hb, hk, (hfind b hb).symm.trans hs, hm⟩

/-! ## Adding the built-ins -/

theorem addBuiltin_eq {mc : Machine} {b : Builtin} {t : MethodTable}
    (h : (mc.table b.kind).define (mc.symbols.intern b.name).1 b.method = .ok t) :
    mc.addBuiltin b = (mc.intern b.name).setTable b.kind t := by
  simp only [addBuiltin, h]
  rfl

/-- Of all places in the tables, a built-in takes that of its name in the table of its kind. -/
theorem find?_addBuiltin {mc : Machine} {b : Builtin} {t}
    (ht : (mc.table b.kind).define (mc.symbols.intern b.name).1 b.method = .ok t) (k : Kind) (s : Symbol) :
    ((mc.addBuiltin b).table k).find? s =
      if k = b.kind ∧ s = (mc.symbols.intern b.name).1 then some b.method else (mc.table k).find? s := by
  rw [addBuiltin_eq ht]
  by_cases hk : k = b.kind
  · subst hk
    simp [setTable, MethodTable.find?_define ht]
  · simp [setTable, hk, Machine.intern]

/-- A built-in joins those that are served, when its key is new and its name gets a symbol of its own. -/
theorem Serves.add {mc : Machine} {bs} {b : Builtin} {t} (h : mc.Serves bs) (howns : mc.symbols.Owns b.name)
    (hnew : b ∉ bs) (ht : (mc.table b.kind).define (mc.symbols.intern b.name).1 b.method = .ok t) :
    (mc.addBuiltin b).Serves (bs ++ [b]) := by
  rw [addBuiltin_eq ht]
  have hi := h.intern b.name
  have howned : ∀ b' ∈ bs ++ [b], (mc.intern b.name).symbols.Owns b'.name := by
    simp only [List.forall_mem_append, List.forall_mem_singleton]
    exact ⟨hi.owned, h.inStep.owns_intern howns⟩
  refine ⟨hi.inStep, ?_, howned, ?_, ?_⟩
  · simp only [List.forall_mem_append, List.forall_mem_singleton]
    exact ⟨hi.interned, h.inStep.mem_intern⟩
  · intro k
    simp only [setTable]
    split
    · exact (h.tallied b.kind).define ht
    · exact h.tallied k
  · intro k s m
    have hself : (mc.intern b.name).symbols.find? b.name = some (mc.symbols.intern b.name).1 :=
      h.inStep.find?_intern_self
    -- The old entries are those of `bs`; the new one stands at the symbol of `b` in the table of its kind.
    have hfind := find?_addBuiltin ht k s
    have hold := hi.entry k s m
    rw [addBuiltin_eq ht] at hfind
    rw [hfind]
    constructor
    · split
      · next hnew =>
        obtain ⟨rfl, rfl⟩ := hnew
        intro hm
        exact ⟨b, by simp, rfl, hself, by simpa using hm⟩
      · intro hm
        obtain ⟨b', hb', hkey⟩ := hold.mp hm
        exact ⟨b', List.mem_append_left _ hb', hkey⟩
    · rintro ⟨b', hb', hk, hs, hm⟩
      rcases List.mem_append.mp hb' with hmem | hmem
      · -- A served built-in is not hidden by the new one: they would have the same key.
        have hother : ¬ (k = b.kind ∧ s = (mc.symbols.intern b.name).1) := by
          rintro ⟨hkb, rfl⟩
          have hname : b'.name = b.name :=
            (hi.inStep.name_of_find? hs (howned b' hb')).symm.trans
              (hi.inStep.name_of_find? hself (h.inStep.owns_intern howns))
          exact hnew (Builtin.eq_of_key (hk.trans hkb) hname ▸ hmem)
        rw [if_neg hother]
        exact hold.mpr ⟨b', hmem, hk, hs, hm⟩
      · obtain rfl := List.mem_singleton.mp hmem
        have hsym : s = (mc.symbols.intern b'.name).1 := Option.some.inj (hs.symm.trans hself)
        rw [if_pos ⟨hk.symm, hsym⟩, hm]

/-- A machine whose tables all take definitions, with at most `n` names. -/
structure Open (mc : Machine) (n : Nat) : Prop where
  tables : ∀ k, (mc.table k).isSealed = false
  size : mc.symbols.size ≤ n

theorem Open.add {mc : Machine} {n} (h : mc.Open n) (b : Builtin) :
    (mc.addBuiltin b).Open (n + 1) ∧
      ∃ t, (mc.table b.kind).define (mc.symbols.intern b.name).1 b.method = .ok t := by
  obtain ⟨t, ht, hopen⟩ := MethodTable.define_of_open (h.tables b.kind) (mc.symbols.intern b.name).1 b.method
  refine ⟨?_, t, ht⟩
  rw [addBuiltin_eq ht]
  constructor
  · intro k
    simp only [setTable]
    split
    · exact hopen
    · exact h.tables k
  · exact Nat.le_trans SymbolTable.size_intern_le (Nat.succ_le_succ h.size)

/-- Adding built-ins in turn serves them all. -/
theorem Serves.addAll : ∀ {rest bs : List Builtin} {mc : Machine} {n}, mc.Serves bs → mc.Open n →
    n + rest.length < SymbolTable.symbolCount → (bs ++ rest).Nodup →
    (rest.foldl addBuiltin mc).Serves (bs ++ rest)
  | [], bs, mc, _, h, _, _, _ => by simpa using h
  | b :: rest, bs, mc, n, h, ho, hn, hd => by
    simp only [List.length_cons] at hn
    have howns : mc.symbols.Owns b.name := by
      refine SymbolTable.owns_iff.mpr (.inr ?_)
      have := ho.size
      omega
    have hnew : b ∉ bs := fun hb =>
      (List.nodup_append.mp hd).2.2 b hb b List.mem_cons_self rfl
    obtain ⟨ho', t, ht⟩ := ho.add b
    rw [List.append_cons] at hd ⊢
    exact Serves.addAll (h.add howns hnew ht) ho' (by omega) hd

theorem bare_serves (trace : Bool) : (bare .empty trace).Serves [] :=
  ⟨SymbolTable.empty_inStep, by simp, by simp, fun k => MethodTable.empty_tallied (some k),
    by simp [bare, MethodTable.empty, MethodTable.find?, MethodTable.slotAt]⟩

theorem bare_open (trace : Bool) : (bare .empty trace).Open 0 := ⟨fun _ => rfl, Nat.le_refl 0⟩

/-! ## Machines after boot -/

/-- A machine with the built-ins in sealed tables. -/
structure Booted (mc : Machine) : Prop extends mc.Serves Builtin.all where
  closed : ∀ k, (mc.table k).isSealed = true

theorem boot_booted (trace : Bool) : (boot .empty trace).Booted := by
  have hd : ([] ++ Builtin.all).Nodup := by decide
  have h := Serves.addAll (bare_serves trace) (bare_open trace) (by decide) hd
  rw [List.nil_append] at h
  unfold boot
  generalize Builtin.all.foldl addBuiltin (bare .empty trace) = mc at h
  exact ⟨⟨h.inStep, h.interned, h.owned, fun k => (h.tallied k).close, h.entry⟩, fun _ => rfl⟩

theorem Booted.intern {mc : Machine} (h : mc.Booted) (name : Name) : (mc.intern name).Booted :=
  ⟨h.toServes.intern name, h.closed⟩

/-- **Symbols stand for names.** What the table of a kind has at a symbol, given out or not, is what the
dictionary has under the kind and the symbol's name. -/
theorem Booted.find?_eq {mc : Machine} (h : mc.Booted) (k : Kind) (s : Symbol) :
    (mc.table k).find? s = (Builtin.find? k (mc.symbols.name s)).map Builtin.method := by
  have hnamed : ∀ b : Builtin, mc.symbols.find? b.name = some s ↔ b.name = mc.symbols.name s := by
    intro b
    constructor
    · intro hs
      exact (h.inStep.name_of_find? hs (h.owned b b.mem_all)).symm
    · intro hn
      -- A symbol that was never given out has the empty name, and no built-in has.
      have hissued : s.toNat < mc.symbols.names.length := by
        by_contra hge
        exact b.name_ne_nil (hn.trans (SymbolTable.name_of_le (Nat.not_lt.mp hge)))
      rw [hn, h.inStep.find?_name hissued]
  refine Option.ext fun m => (h.entry k s m).trans ?_
  simp only [Option.map_eq_some_iff, Builtin.find?_eq_some, hnamed]
  constructor
  · rintro ⟨b, -, hk, hn, hm⟩
    exact ⟨b, ⟨hk, hn⟩, hm⟩
  · rintro ⟨b, ⟨hk, hn⟩, hm⟩
    exact ⟨b, b.mem_all, hk, hn, hm⟩

/-- What a table has at a symbol is a built-in of its kind, called by the symbol's name. -/
theorem Booted.builtin_of_find? {mc : Machine} (h : mc.Booted) {k s m} (hf : (mc.table k).find? s = some m) :
    ∃ b : Builtin, b.method = m ∧ b.kind = k ∧ b.name = mc.symbols.name s := by
  rw [h.find?_eq, Option.map_eq_some_iff] at hf
  obtain ⟨b, hb, hm⟩ := hf
  exact ⟨b, hm, Builtin.find?_eq_some.mp hb⟩

/-! ## New machines -/

/-- Of its options, a new machine keeps the flag only; but there has to be room for its names. -/
theorem new_eq (o : Options) : new o =
    if o.symbolCapacity ≤ SymbolTable.maxCapacity then .ok (boot .empty o.trace) else .error .capacityOutOfRange := by
  simp only [new, SymbolTable.withCapacity_eq]
  by_cases h : o.symbolCapacity ≤ SymbolTable.maxCapacity
  · rw [if_neg (Int.not_lt.mpr h), if_pos h]
  · rw [if_pos (Int.not_le.mp h), if_neg h]

/-- Machines can be made together when each of them can be made. -/
theorem newAll_eq (options : List Options) : newAll options =
    if ∀ o ∈ options, o.symbolCapacity ≤ SymbolTable.maxCapacity then .ok (options.map fun o => boot .empty o.trace)
    else .error .capacityOutOfRange := by
  induction options with
  | nil => rfl
  | cons o os ih =>
    simp only [newAll, new_eq, ih, List.forall_mem_cons]
    by_cases ho : o.symbolCapacity ≤ SymbolTable.maxCapacity
    · by_cases hos : ∀ o ∈ os, o.symbolCapacity ≤ SymbolTable.maxCapacity
      · rw [if_pos ho, if_pos hos, if_pos ⟨ho, hos⟩]
        rfl
      · rw [if_pos ho, if_neg hos, if_neg fun h => hos h.2]
    · have hsome : ¬ (o.symbolCapacity ≤ SymbolTable.maxCapacity ∧
          ∀ o ∈ os, o.symbolCapacity ≤ SymbolTable.maxCapacity) := fun h => ho h.1
      rw [if_neg ho, if_neg hsome]

end Machine

end Dispatch
