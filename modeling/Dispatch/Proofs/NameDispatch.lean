/-
Dispatch by symbols is dispatch by names. A machine finds methods by symbols, in tables that were filled
when it was made; names keep coming in, with every message that is sent by name, answered or not. For
all that, sending a name is looking the receiver's kind and the name up in one fixed dictionary
(`Builtin.find?`) and running what is found there (`Context.dispatchByName`).

This is so for every name that owns its symbol. A name that comes when 2^32 others are there shares the
symbol of one of them, and is answered as that one, although it is interned (`sendName_not_as_invoked`).
-/
import Dispatch.Proofs.SendOutcomes

namespace Dispatch

namespace SymbolTable

variable {t : SymbolTable} {name : Name}

/-- The name that a name is taken for: the name of its symbol. -/
def reading (t : SymbolTable) (name : Name) : Name := (t.intern name).2.name (t.intern name).1

/-- A name without a symbol of its own is taken for another, one of the first 2^32. -/
theorem InStep.reading_of_not_owns (ht : t.InStep) (h : ¬ t.Owns name) :
    t.reading name ≠ name ∧ t.reading name ∈ t.names.take symbolCount := by
  have hplace : symbolCount ≤ t.names.idxOf name := Nat.not_lt.mp h
  have hle : t.names.idxOf name ≤ t.names.length := List.idxOf_le_length
  -- The place is cut to a smaller one, where another name has been all along.
  have hcut : (t.intern name).1.toNat < symbolCount := by
    rw [ht.intern_fst, symbolCount]
    exact UInt32.toNat_lt _
  have hlt : (t.intern name).1.toNat < t.names.length := by omega
  have hread : t.reading name = t.names[(t.intern name).1.toNat] := by
    rw [reading, name_intern_of_lt hlt, name_eq_getElem hlt]
  rw [hread]
  constructor
  · have hearlier : (t.intern name).1.toNat < t.names.findIdx (· == name) := Nat.lt_of_lt_of_le hcut hplace
    simpa using List.not_of_lt_findIdx hearlier
  · exact List.mem_take_iff_getElem.mpr ⟨_, by omega, rfl⟩

end SymbolTable

namespace Machine

variable {mc : Machine} {k : Kind}

/-- A symbol is answered just when the dictionary has its name. -/
theorem Booted.respondsTo_eq (h : mc.Booted) (k : Kind) (s : Symbol) :
    mc.respondsTo k s = (Builtin.find? k (mc.symbols.name s)).isSome := by
  rw [respondsTo, h.find?_eq, Option.isSome_map]

theorem Booted.find?_name (h : mc.Booted) {s : Symbol} (hs : s ∈ (mc.table k).symbols) :
    mc.symbols.find? (mc.symbols.name s) = some s := by
  obtain ⟨m, hm⟩ := (h.tallied k).mem_symbols.mp hs
  obtain ⟨b, -, -, hfound, -⟩ := (h.entry k s m).mp hm
  rwa [h.inStep.name_of_find? hfound (h.owned b b.mem_all)]

/-- The selectors of a kind are the names that the dictionary has for it, -/
theorem Booted.mem_selectors (h : mc.Booted) {n : Name} :
    n ∈ mc.selectors k ↔ (Builtin.find? k n).isSome = true := by
  simp only [selectors, List.mem_map, (h.tallied k).mem_symbols, h.find?_eq]
  constructor
  · rintro ⟨s, ⟨m, hm⟩, rfl⟩
    obtain ⟨b, hb, -⟩ := Option.map_eq_some_iff.mp hm
    rw [hb, Option.isSome_some]
  · intro hsome
    obtain ⟨b, hb⟩ := Option.isSome_iff_exists.mp hsome
    obtain ⟨-, rfl⟩ := Builtin.find?_eq_some.mp hb
    have hs := h.inStep.find?_of_mem (h.interned b b.mem_all)
    have hname := h.inStep.name_of_find? hs (h.owned b b.mem_all)
    exact ⟨_, ⟨b.method, by rw [hname, hb, Option.map_some]⟩, hname⟩

/-- and each is listed once. -/
theorem Booted.nodup_selectors (h : mc.Booted) : (mc.selectors k).Nodup := by
  refine (h.tallied k).nodup_symbols.map_on fun s hs s' hs' heq => ?_
  have hfound := h.find?_name hs
  rw [heq, h.find?_name hs'] at hfound
  exact (Option.some.inj hfound).symm

end Machine

/-! ## A crowded machine -/

/-- Interning names one after the other brings a session's machine to have them. -/
theorem Session.run_interns (names : List Name) : ∀ {s : Session} {mc : Machine}, s.machines = [mc] →
    (s.run (names.map fun n => ⟨0, .intern none n⟩)).2.machines = [names.foldl Machine.intern mc] := by
  induction names with
  | nil => exact fun h => h
  | cons n names ih =>
    intro s mc h
    refine ih ?_
    simp only [h, List.getElem?_cons_zero]
    simp only [Session.perform, symbolTable?, setSymbolTable, setMachine, h]
    rfl

/-- No built-in is called by zeros. -/
theorem Builtin.find?_zeros (kind : Kind) (k : Nat) : find? kind (List.replicate k 0) = none := by
  cases hb : find? kind (List.replicate k 0) with
  | none => rfl
  | some b =>
    have hheads : ∀ b ∈ all, b.name.head?.getD 0 ≠ 0 := by decide
    refine absurd ?_ (hheads b b.mem_all)
    rw [(find?_eq_some.mp hb).2]
    cases k <;> rfl

namespace Machine

theorem foldl_intern_reachable (names : List Name) : (names.foldl Machine.intern (boot .empty false)).Reachable := by
  refine ⟨0, [⟨0, false⟩], ⟨[.boot .empty false], [], [], 0, 0, []⟩, names.map fun n => ⟨0, .intern none n⟩, rfl, ?_, ?_⟩
  · intro r hr
    obtain ⟨n, -, rfl⟩ := List.mem_map.mp hr
    rfl
  · rw [Session.run_interns names rfl]
    exact List.mem_singleton_self _

/-- New names, all different, are listed in the order in which they come. -/
theorem names_foldl_intern (names : List Name) : ∀ {mc : Machine}, mc.symbols.InStep →
    (mc.symbols.names ++ names).Nodup →
    (names.foldl Machine.intern mc).symbols.names = mc.symbols.names ++ names := by
  induction names with
  | nil => exact fun _ _ => by simp
  | cons n names ih =>
    intro mc ht hnodup
    have hnew : n ∉ mc.symbols.names := fun hmem => (List.nodup_append.mp hnodup).2.2 n hmem n List.mem_cons_self rfl
    have hnames : (mc.intern n).symbols.names = mc.symbols.names ++ [n] := by
      show (mc.symbols.intern n).2.names = _
      rw [ht.names_intern, if_neg hnew]
    rw [List.append_cons, ← hnames] at hnodup ⊢
    exact ih (ht.intern n) hnodup

/-- A machine with the names of its built-ins and `n` more. -/
def crowded (n : Nat) : Machine := (SymbolTable.crowd n).foldl Machine.intern (boot .empty false)

theorem crowded_reachable (n : Nat) : (crowded n).Reachable := foldl_intern_reachable _

theorem crowded_names (n : Nat) :
    (crowded n).symbols.names = (boot .empty false).symbols.names ++ SymbolTable.crowd n := by
  have hboot := (boot_booted false).inStep
  -- No built-in is called by zeros.
  have hheads : ∀ n ∈ (boot .empty false).symbols.names, n.head?.getD 0 ≠ 0 := by decide
  have hapart : ∀ name ∈ (boot .empty false).symbols.names, ∀ other ∈ SymbolTable.crowd n, name ≠ other := by
    rintro name hname other hother rfl
    obtain ⟨k, -, rfl⟩ := SymbolTable.mem_crowd.mp hother
    refine hheads _ hname ?_
    cases k <;> rfl
  exact names_foldl_intern _ hboot (List.nodup_append.mpr ⟨hboot.nodup, SymbolTable.nodup_crowd n, hapart⟩)

variable {n k : Nat}

/-- The names of zeros stand behind those of the built-ins, which are eleven. -/
theorem crowded_getElem? (h : k < n) : (crowded n).symbols.names[11 + k]? = some (List.replicate k 0) := by
  have hlength : (boot .empty false).symbols.names.length = 11 := by decide
  rw [crowded_names, List.getElem?_append_right (by omega), hlength, Nat.add_sub_cancel_left, SymbolTable.crowd,
    List.getElem?_map, List.getElem?_range h]
  rfl

theorem mem_crowded (h : k < n) : List.replicate k 0 ∈ (crowded n).symbols.names :=
  List.mem_of_getElem? (crowded_getElem? h)

/-- The first name whose place is cut is taken for the first name of all. -/
theorem crowded_reading (h : k < n) (hcut : 11 + k = SymbolTable.symbolCount) :
    (crowded n).symbols.reading (List.replicate k 0) = Bytes.ofString "to_s" := by
  have ht := (crowded_reachable n).booted.inStep
  obtain ⟨hlt, hplace⟩ := List.getElem?_eq_some_iff.mp (crowded_getElem? h)
  have hsymbol : ((crowded n).symbols.intern (List.replicate k 0)).1 = 0 := by
    rw [ht.intern_fst, ← hplace, ht.nodup.idxOf_getElem, hcut]
    rfl
  have hfirst : (crowded n).symbols.name 0 = Bytes.ofString "to_s" := by
    rw [SymbolTable.name, crowded_names]
    rfl
  rw [SymbolTable.reading, ht.intern_snd_of_mem (mem_crowded h), hsymbol, hfirst]

end Machine

namespace Context

variable {c : Context} {r : Value} {s : Symbol} {name : Name} {args : List Value}

/-- Dispatch by name: what the dictionary has under the receiver's kind and the name is run outside
every table, and its failure is put under that kind and that name. -/
def dispatchByName (c : Context) (r : Value) (name : Name) (args : List Value) : Outcome :=
  match Builtin.find? r.kind name with
  | none => .failure (.dispatch r.kind name .unanswered) .nil
  | some b =>
    match (c.invoke b.method r args).1 with
    | .failure e _ => .failure (.dispatch r.kind name e) .nil
    | outcome => outcome

/-- Dispatch by name asks nothing of a context but its free storage. -/
theorem dispatchByName_congr {c' : Context} (h : c'.fresh = c.fresh) (r : Value) (name : Name) (args : List Value) :
    c'.dispatchByName r name args = c.dispatchByName r name args := by
  simp only [dispatchByName]
  split
  · rfl
  · next b hb =>
    have hk : b.kind = r.kind := (Builtin.find?_eq_some.mp hb).1
    obtain ⟨outcome, fresh, -, hrun⟩ := (b.invoke_verdict hk.symm args).run_eq c.fresh
    simp only [invoke, hrun _ c rfl, hrun _ c' h]

/-- A send of a symbol is a dispatch by the symbol's name. -/
theorem send_eq_dispatchByName (h : c.machine.Booted) (r : Value) (s : Symbol) (args : List Value) :
    (c.send r s args).1 = c.dispatchByName r (c.machine.symbols.name s) args := by
  have hfind := h.find?_eq r.kind s
  cases hb : Builtin.find? r.kind (c.machine.symbols.name s) with
  | none =>
    simp only [hb, Option.map_none] at hfind
    obtain ⟨log, hsend⟩ := send_missing hfind args
    simp only [hsend, dispatchByName, hb]
  | some b =>
    simp only [hb, Option.map_some] at hfind
    obtain ⟨hk, hname⟩ := Builtin.find?_eq_some.mp hb
    obtain ⟨answer, log, hsend⟩ := send_found hfind args
    obtain ⟨outcome, fresh, hinner, hrun⟩ := (b.invoke_verdict hk.symm args).run_eq c.fresh
    simp only [hsend, dispatchByName, hb, invoke, hrun _ c rfl, hrun answer { c with log } rfl]
    cases outcome with
    | failure e beside => simp [Failure.ofMethod, hinner e beside rfl, Builtin.method, hname]
    | value | crash | unfinished => rfl

theorem intern_fresh (name : Name) : (c.intern name).2.fresh = c.fresh := rfl

/-- A send of a name is a dispatch by what the name is taken for. -/
theorem sendName_eq_dispatchByName (h : c.machine.Booted) (r : Value) (name : Name) (args : List Value) :
    (c.sendName r name args).1 = c.dispatchByName r (c.machine.symbols.reading name) args := by
  have hsend := send_eq_dispatchByName (c := (c.intern name).2) (h.intern name) r (c.intern name).1 args
  exact hsend.trans (dispatchByName_congr (intern_fresh name) r _ args)

/-- A send of a name interns it and does nothing else to the machine. -/
theorem sendName_machine (h : c.machine.Booted) (r : Value) (name : Name) (args : List Value) :
    (c.sendName r name args).2.machine = (c.intern name).2.machine :=
  send_machine (c := (c.intern name).2) (h.intern name) r (c.intern name).1 args

theorem dispatchByName_noMethod_iff :
    (∃ e beside, c.dispatchByName r name args = .failure e beside ∧ e.cause? = some .noMethod ∧
      e.dispatch? = some (r.kind, name)) ↔ Builtin.find? r.kind name = none := by
  cases hb : Builtin.find? r.kind name with
  | none => simp [dispatchByName, hb, Failure.cause?, Failure.dispatch?]
  | some b =>
    -- No built-in fails for want of a method.
    have hk : b.kind = r.kind := (Builtin.find?_eq_some.mp hb).1
    have hv := b.invoke_verdict hk.symm args
    simp only [dispatchByName, hb, invoke, reduceCtorEq, iff_false, not_exists, not_and]
    generalize b.method.invoke r args = p at hv
    cases hv <;> rintro _ _ ⟨⟩ <;> simp [Failure.cause?]

theorem sendName_cut {n k : Nat} (h : k < n) (hcut : 11 + k = SymbolTable.symbolCount) :
    (Context.sendName ⟨.crowded n, 0, 0, [], []⟩ (.bool true) (List.replicate k 0) []).1 =
      .value (.string 0 (Bytes.ofString "true")) := by
  have hsend := sendName_eq_dispatchByName (c := ⟨.crowded n, 0, 0, [], []⟩) (Machine.crowded_reachable n).booted
    (.bool true) (List.replicate k 0) []
  rw [Machine.crowded_reading h hcut] at hsend
  exact hsend

/-- **Integer dispatch refines name dispatch.** Take any machine that a session comes to, any receiver
and any arguments, and any name that is one of the first 2^32 interned names or comes while fewer are
interned. Sending the name has the outcome of the dictionary look-up by kind and name. It fails for
want of a method, naming that kind and that name, just when the dictionary has no such pair, and just
when the kind does not respond to the name's symbol. All it does to the machine, answered or not, is
to intern the name. The selectors of every kind are the dictionary's names for it, each once.

The bound on names is exact: a name that is past it is dispatched as another one. -/
theorem sendName_refines_dictionary (c : Context) (h : c.machine.Reachable) (r : Value) (args : List Value) :
    (∀ name, name ∈ c.machine.symbols.names.take SymbolTable.symbolCount ∨
        c.machine.symbols.size < SymbolTable.symbolCount →
      (c.sendName r name args).1 = c.dispatchByName r name args ∧
      ((∃ e beside, (c.sendName r name args).1 = .failure e beside ∧ e.cause? = some .noMethod ∧
        e.dispatch? = some (r.kind, name)) ↔ Builtin.find? r.kind name = none) ∧
      (Builtin.find? r.kind name = none ↔
        (c.intern name).2.machine.respondsTo r.kind (c.intern name).1 = false) ∧
      (c.sendName r name args).2.machine = (c.intern name).2.machine) ∧
    (∀ k, (c.machine.selectors k).Nodup ∧
      ∀ n, n ∈ c.machine.selectors k ↔ (Builtin.find? k n).isSome = true) ∧
    (∀ name, name ∉ c.machine.symbols.names.take SymbolTable.symbolCount →
        SymbolTable.symbolCount ≤ c.machine.symbols.size →
      ∃ other ∈ c.machine.symbols.names.take SymbolTable.symbolCount, other ≠ name ∧
        (c.sendName r name args).1 = c.dispatchByName r other args) := by
  have hb := h.booted
  refine ⟨fun name hname => ?_, fun k => ⟨hb.nodup_selectors, fun n => hb.mem_selectors⟩, ?_⟩
  · have howns := SymbolTable.owns_iff.mpr hname
    have hread : c.machine.symbols.reading name = name := hb.inStep.name_intern howns
    have hsend : (c.sendName r name args).1 = c.dispatchByName r name args := by
      rw [sendName_eq_dispatchByName hb, hread]
    have hresponds : (c.intern name).2.machine.respondsTo r.kind (c.intern name).1 =
        (Builtin.find? r.kind name).isSome := by
      have hsymbol := (hb.intern name).respondsTo_eq r.kind (c.intern name).1
      rwa [show (c.machine.intern name).symbols.name (c.intern name).1 = name from hread] at hsymbol
    refine ⟨hsend, ?_, ?_, sendName_machine hb r name args⟩
    · rw [hsend]
      exact dispatchByName_noMethod_iff
    · simp [hresponds]
  · intro name hpast hfull
    have howns : ¬ c.machine.symbols.Owns name := fun ho =>
      (SymbolTable.owns_iff.mp ho).elim hpast (Nat.not_lt.mpr hfull)
    obtain ⟨hne, hmem⟩ := hb.inStep.reading_of_not_owns howns
    exact ⟨_, hmem, hne, sendName_eq_dispatchByName hb r name args⟩

/-- A boolean has no `+`, although the name is interned and fixnums and strings have it. -/
theorem sendName_refines_dictionary_bool_plus :
    let c : Context := ⟨.boot .empty false, 0, 0, [], []⟩
    c.machine.Reachable ∧ c.machine.symbols.size < SymbolTable.symbolCount ∧
      (c.sendName (.bool true) (Bytes.ofString "+") [.nil]).1 =
        .failure (.dispatch .bool (Bytes.ofString "+") .unanswered) .nil := by
  intro c
  have hsize : c.machine.symbols.size < SymbolTable.symbolCount := by decide
  have hsend := ((sendName_refines_dictionary c (Machine.boot_reachable false) (.bool true) [.nil]).1
    (Bytes.ofString "+") (.inr hsize)).1
  exact ⟨Machine.boot_reachable false, hsize, hsend.trans (by decide)⟩

/-- A name that is interned is not always dispatched as itself, and a failure of a built-in does not come back as it
is. -/
theorem sendName_not_as_invoked :
    let mc := Machine.crowded 0x100000000
    let name := List.replicate 0xfffffff5 0
    let c : Context := ⟨.boot .empty false, 0, 0, [], []⟩
    (mc.Reachable ∧ name ∈ mc.symbols.names ∧ Builtin.find? .bool name = none ∧
      (Context.sendName ⟨mc, 0, 0, [], []⟩ (.bool true) name []).1 = .value (.string 0 (Bytes.ofString "true"))) ∧
    c.machine.Reachable ∧ c.machine.symbols.size < SymbolTable.symbolCount ∧
      Builtin.find? .fixnum (Bytes.ofString "+") = some .fixnumAdd ∧
      (c.sendName (.fixnum 1) (Bytes.ofString "+") []).1 ≠ (c.invoke (Builtin.method .fixnumAdd) (.fixnum 1) []).1 := by
  have hlt : 0xfffffff5 < 0x100000000 := by decide
  have hcut : 11 + 0xfffffff5 = SymbolTable.symbolCount := by decide
  constructor
  · exact ⟨Machine.crowded_reachable _, Machine.mem_crowded hlt, Builtin.find?_zeros .bool _, sendName_cut hlt hcut⟩
  · exact ⟨Machine.boot_reachable false, by decide, by decide, by decide⟩

end Context

end Dispatch
