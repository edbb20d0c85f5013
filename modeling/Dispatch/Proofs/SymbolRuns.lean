/-
What a symbol table answers over a whole run of queries. The names after a run are told by the queries
alone: those that were interned, without repeats, in the order in which they first came (`interned`). One
query adds the name it interns, if it is new, and nothing else (`InStep.names_ask`), and leaves the map and the
list of the table in step (`InStep.ask`); so a run only ever adds names, and what holds of every table in step
and with at most 2^32 names holds after it.

With 2^32 names the places run out: the next new name gets the place of the first one.
-/
import Mathlib.Data.List.Induction
import Dispatch.Proofs.SymbolFacts

namespace Dispatch.SymbolTable

/-! ## Queries and their replies -/

inductive Query where
  | intern (name : Name)
  | find (name : Name)
  | name (s : Symbol)
  | size
  | all
  deriving DecidableEq, Repr

inductive Reply where
  | symbol (s : Symbol)
  | found (s : Option Symbol)
  | name (name : Name)
  | size (count : Nat)
  | all (names : List Name)
  deriving DecidableEq, Repr

def ask (t : SymbolTable) : Query → Reply × SymbolTable
  | .intern name => (.symbol (t.intern name).1, (t.intern name).2)
  | .find name => (.found (t.find? name), t)
  | .name s => (.name (t.name s), t)
  | .size => (.size t.size, t)
  | .all => (.all t.names, t)

/-- The replies to queries, one after the other, and the table then. -/
def run (t : SymbolTable) : List Query → List Reply × SymbolTable
  | [] => ([], t)
  | q :: qs => ((t.ask q).1 :: ((t.ask q).2.run qs).1, ((t.ask q).2.run qs).2)

/-- The table after queries. -/
def after (t : SymbolTable) (qs : List Query) : SymbolTable := (t.run qs).2

def Query.interned? : Query → Option Name
  | .intern n => some n
  | _ => none

/-- The names that are interned, in the order in which they first come. -/
def interned (qs : List Query) : List Name := (qs.filterMap Query.interned?).eraseDups

variable {t : SymbolTable} {name : Name} {q : Query} {qs : List Query}

theorem mem_interned : name ∈ interned qs ↔ .intern name ∈ qs := by
  have hmem : ∀ q : Query, q.interned? = some name ↔ q = .intern name := by
    intro q
    cases q <;> simp [Query.interned?]
  simp [interned, hmem]

theorem interned_concat : interned (qs ++ [q]) =
    match q.interned? with
    | none => interned qs
    | some name => if name ∈ interned qs then interned qs else interned qs ++ [name] := by
  cases h : q.interned? with
  | none => simp [interned, h]
  | some name =>
    have hlast : (qs ++ [q]).filterMap Query.interned? = qs.filterMap Query.interned? ++ [name] := by
      simp [h]
    simp only [interned, hlast, List.eraseDups_append, List.mem_eraseDups]
    by_cases hmem : name ∈ qs.filterMap Query.interned?
    · rw [if_pos hmem, List.removeAll, List.filter_eq_nil_iff.mpr (by simpa using hmem)]
      simp
    · rw [if_neg hmem, List.removeAll, List.filter_eq_self.mpr (by simpa using hmem)]
      simp [List.eraseDups_cons]

/-! ## One query -/

theorem ask_of_interned?_eq_none (h : q.interned? = none) : (t.ask q).2 = t := by
  cases q with
  | intern name => cases h
  | find name => rfl
  | name s => rfl
  | size => rfl
  | all => rfl

theorem InStep.ask (ht : t.InStep) (q : Query) : (t.ask q).2.InStep := by
  cases q with
  | intern name => exact ht.intern name
  | find name => exact ht
  | name s => exact ht
  | size => exact ht
  | all => exact ht

/-- A query adds the name that it interns, if it is new. -/
theorem InStep.names_ask (ht : t.InStep) : (t.ask q).2.names =
    match q.interned? with
    | none => t.names
    | some name => if name ∈ t.names then t.names else t.names ++ [name] := by
  cases q with
  | intern name => exact ht.names_intern
  | find name => rfl
  | name s => rfl
  | size => rfl
  | all => rfl

theorem prefix_ask : t.names <+: (t.ask q).2.names := by
  cases q with
  | intern name => exact prefix_intern
  | find name => exact List.prefix_rfl
  | name s => exact List.prefix_rfl
  | size => exact List.prefix_rfl
  | all => exact List.prefix_rfl

/-- What is right to answer when these names, without repeats, are there after the query. -/
inductive Answers (names : List Name) : Query → Reply → Prop where
  | symbol {name : Name} {s : Symbol} : names[s.toNat]? = some name → Answers names (.intern name) (.symbol s)
  | found {name : Name} {s : Symbol} : names[s.toNat]? = some name → Answers names (.find name) (.found (some s))
  | absent {name : Name} : name ∉ names → Answers names (.find name) (.found none)
  | named {name : Name} {s : Symbol} : names[s.toNat]? = some name → Answers names (.name s) (.name name)
  | unnamed {s : Symbol} : names.length ≤ s.toNat → Answers names (.name s) (.name [])
  | size : Answers names .size (.size names.length)
  | all : Answers names .all (.all names)

/-! ## Tables of at most 2^32 names -/

theorem owns_of_mem (hsize : t.size ≤ symbolCount) (h : name ∈ t.names) : t.Owns name :=
  Nat.lt_of_lt_of_le (List.idxOf_lt_length_of_mem h) hsize

namespace InStep

theorem toNat_intern (ht : t.InStep) (hsize : t.size ≤ symbolCount) (h : name ∈ t.names) :
    (t.intern name).1.toNat = t.names.idxOf name := by
  rw [ht.intern_fst, toNat_toUInt32_of_lt (owns_of_mem hsize h)]

theorem getElem?_of_find? {s : Symbol} (ht : t.InStep) (hsize : t.size ≤ symbolCount) (h : t.find? name = some s) :
    t.names[s.toNat]? = some name := by
  have hmem := ht.mem_of_find? h
  rw [ht.find?_of_mem hmem, Option.some.injEq] at h
  rw [← h, toNat_toUInt32_of_lt (owns_of_mem hsize hmem), List.getElem?_idxOf hmem]

theorem find?_eq_some_iff {s : Symbol} (ht : t.InStep) (hsize : t.size ≤ symbolCount) :
    t.find? name = some s ↔ t.name s = name ∧ s.toNat < t.size := by
  constructor
  · intro h
    obtain ⟨hlt, -⟩ := List.getElem?_eq_some_iff.mp (ht.getElem?_of_find? hsize h)
    exact ⟨ht.name_of_find? h (owns_of_mem hsize (ht.mem_of_find? h)), hlt⟩
  · rintro ⟨rfl, hlt⟩
    exact ht.find?_name hlt

theorem symbol_eq_iff {s s' : Symbol} (ht : t.InStep) (h : s.toNat < t.size) (h' : s'.toNat < t.size) :
    s = s' ↔ t.name s = t.name s' := by
  rw [size] at h h'
  rw [name_eq_getElem h, name_eq_getElem h', ht.nodup.getElem_inj_iff, UInt32.toNat_inj]

theorem answers_ask (ht : t.InStep) (hsize : (t.ask q).2.size ≤ symbolCount) :
    Answers (t.ask q).2.names q (t.ask q).1 := by
  cases q with
  | intern name => exact .symbol ((ht.intern name).getElem?_of_find? hsize ht.find?_intern_self)
  | find name =>
    cases h : t.find? name with
    | none =>
      simp only [SymbolTable.ask, h]
      exact .absent (ht.find?_eq_none.mp h)
    | some s =>
      simp only [SymbolTable.ask, h]
      exact .found (ht.getElem?_of_find? hsize h)
  | name s =>
    by_cases h : s.toNat < t.names.length
    · have hname : t.names[s.toNat]? = some (t.name s) := by rw [name_eq_getElem h, List.getElem?_eq_getElem h]
      exact .named hname
    · have hge : t.names.length ≤ s.toNat := Nat.le_of_not_lt h
      simp only [SymbolTable.ask, name_of_le hge]
      exact .unnamed hge
  | size => exact .size
  | all => exact .all

end InStep

/-! ## Runs -/

theorem run_append (qs' : List Query) : t.run (qs ++ qs') =
    ((t.run qs).1 ++ ((t.run qs).2.run qs').1, ((t.run qs).2.run qs').2) := by
  induction qs generalizing t with
  | nil => rfl
  | cons q qs ih => simp [run, ih]

theorem length_run : (t.run qs).1.length = qs.length := by
  induction qs generalizing t with
  | nil => rfl
  | cons q qs ih => simp [run, ih]

theorem prefix_run : t.names <+: (t.run qs).2.names := by
  induction qs generalizing t with
  | nil => exact List.prefix_rfl
  | cons q qs ih => exact prefix_ask.trans ih

theorem InStep.run (ht : t.InStep) : (t.run qs).2.InStep := by
  induction qs generalizing t with
  | nil => exact ht
  | cons q qs ih => exact ih (ht.ask q)

/-- A name that is in a table keeps its symbol through a run. -/
theorem InStep.intern_run (ht : t.InStep) (h : name ∈ t.names) :
    (t.run qs).2.intern name = ((t.intern name).1, (t.run qs).2) := by
  have hmem : name ∈ (t.run qs).2.names := prefix_run.subset h
  refine Prod.ext ?_ (ht.run.intern_snd_of_mem hmem)
  rw [ht.run.intern_fst, ht.intern_fst, prefix_run.idxOf_eq_of_mem h]

theorem after_append (qs' : List Query) : t.after (qs ++ qs') = (t.after qs).after qs' := by
  rw [after, run_append, after, after]

theorem after_concat : t.after (qs ++ [q]) = ((t.after qs).ask q).2 := by
  rw [after_append]
  rfl

/-- The table after queries to an empty one is in step, -/
theorem after_inStep : (empty.after qs).InStep := empty_inStep.run

/-- and lists the names that they interned. -/
theorem names_after (qs : List Query) : (empty.after qs).names = interned qs := by
  induction qs using List.reverseRecOn with
  | nil => rfl
  | append_singleton qs q ih => rw [after_concat, after_inStep.names_ask, interned_concat, ih]

theorem reply_eq {before rest : List Query} (h : qs = before ++ q :: rest) :
    (t.run qs).1[before.length]? = some ((t.after before).ask q).1 := by
  rw [h, run_append, List.getElem?_append_right (by simp [length_run]), length_run, Nat.sub_self]
  rfl

/-- The table tells which names were interned, and in which order. -/
structure Records (t : SymbolTable) (qs : List Query) : Prop where
  /-- The map has every name of the list at its place there, and no other name. -/
  inStep : t.InStep
  all : t.names = interned qs
  size : t.size = (interned qs).length
  intern : ∀ name, .intern name ∈ qs → (t.intern name).1.toNat = (interned qs).idxOf name ∧ (t.intern name).2 = t
  name_intern : ∀ name, .intern name ∈ qs → t.name (t.intern name).1 = name
  found : ∀ name s, t.find? name = some s ↔ t.name s = name ∧ s.toNat < t.size
  absent : ∀ name, t.find? name = none ↔ .intern name ∉ qs
  symbol_eq : ∀ s s', s.toNat < t.size → s'.toNat < t.size → (s = s' ↔ t.name s = t.name s')

theorem records_after (h : (interned qs).length ≤ symbolCount) : Records (empty.after qs) qs := by
  have ht : (empty.after qs).InStep := after_inStep
  have hnames : (empty.after qs).names = interned qs := names_after qs
  have hsize : (empty.after qs).size ≤ symbolCount := by rwa [size, hnames]
  have hmem : ∀ name, .intern name ∈ qs → name ∈ (empty.after qs).names := by
    intro name hname
    rwa [hnames, mem_interned]
  refine ⟨ht, hnames, by rw [size, hnames], ?_, ?_, ?_, ?_, ?_⟩
  · intro name hname
    exact ⟨by rw [ht.toNat_intern hsize (hmem name hname), hnames], ht.intern_snd_of_mem (hmem name hname)⟩
  · intro name hname
    have hread := ht.name_intern (owns_of_mem hsize (hmem name hname))
    rwa [ht.intern_snd_of_mem (hmem name hname)] at hread
  · intro name s
    exact ht.find?_eq_some_iff hsize
  · intro name
    rw [ht.find?_eq_none, hnames, mem_interned]
  · intro s s' h h'
    exact ht.symbol_eq_iff h h'

/-- The query has the right reply, adds a name or nothing, and what it interns has its symbol to the end. -/
structure Replied (t : SymbolTable) (before : List Query) (q : Query) (rest : List Query) : Prop where
  answer : ∃ reply, (t.run (before ++ q :: rest)).1[before.length]? = some reply ∧
    Answers (interned (before ++ [q])) q reply
  grows : (t.after before).names <+: (t.after (before ++ [q])).names
  still : q.interned? = none → t.after (before ++ [q]) = t.after before
  stays : ∀ name, q = .intern name → (t.after (before ++ q :: rest)).intern name =
    (((t.after before).intern name).1, t.after (before ++ q :: rest))

theorem replied {before rest : List Query} (h : (interned (before ++ q :: rest)).length ≤ symbolCount) :
    Replied empty before q rest := by
  have hrest : empty.after (before ++ q :: rest) = ((empty.after (before ++ [q])).run rest).2 := by
    rw [← after, ← after_append, List.append_assoc, List.singleton_append]
  -- Runs only add names, so the bound at the end is a bound at the query.
  have hsize : (empty.after (before ++ [q])).size ≤ symbolCount := by
    have hgrows : (empty.after (before ++ [q])).names <+: interned (before ++ q :: rest) := by
      rw [← names_after, hrest]
      exact prefix_run
    exact Nat.le_trans hgrows.length_le h
  refine ⟨⟨_, reply_eq rfl, ?_⟩, ?_, ?_, ?_⟩
  · rw [← names_after, after_concat]
    exact after_inStep.answers_ask (after_concat ▸ hsize)
  · rw [after_concat]
    exact prefix_ask
  · intro hnone
    rw [after_concat, ask_of_interned?_eq_none hnone]
  · rintro name rfl
    have ht : (empty.after before).InStep := after_inStep
    have hsymbol : ((empty.after (before ++ [.intern name])).intern name).1 =
        ((empty.after before).intern name).1 := by
      rw [after_inStep.intern_fst, ht.intern_fst, after_concat]
      exact congrArg Nat.toUInt32 ht.idxOf_intern_self
    have hmem : name ∈ (empty.after (before ++ [.intern name])).names := by
      rw [after_concat]
      exact ht.mem_intern
    rw [hrest, after_inStep.intern_run hmem, hsymbol]

/-! ## One name too many -/

/-- In a table of 2^32 names a new name gets the symbol of the first one. -/
theorem InStep.intern_of_full (ht : t.InStep) (hsize : t.size = symbolCount) (hnew : name ∉ t.names) :
    (t.intern name).1 = 0 ∧
      ∃ other, other ≠ name ∧ t.find? other = some 0 ∧ (t.intern name).2.find? other = some 0 := by
  have hzero : (0 : Symbol).toNat < t.names.length := by
    rw [size] at hsize
    rw [hsize]
    decide
  have hmem : t.name 0 ∈ t.names := by
    rw [name_eq_getElem hzero]
    exact List.getElem_mem _
  have hfirst : t.find? (t.name 0) = some 0 := ht.find?_name hzero
  refine ⟨?_, t.name 0, ?_, hfirst, ?_⟩
  · rw [ht.intern_fst, List.idxOf_eq_length hnew, ← size, hsize]
    rfl
  · intro h
    exact hnew (h ▸ hmem)
  · rw [ht.find?_intern_of_mem hmem, hfirst]

theorem interned_map_intern {names : List Name} (h : names.Nodup) : interned (names.map .intern) = names := by
  induction names using List.reverseRecOn with
  | nil => rfl
  | append_singleton names name ih =>
    obtain ⟨hnames, -, hlast⟩ := List.nodup_append.mp h
    have hnew : name ∉ names := fun hmem => hlast name hmem name (by simp) rfl
    rw [List.map_append, List.map_singleton, interned_concat, ih hnames]
    exact if_neg hnew

/-- **A symbol table tells its history.** Room for too many names cannot be made; but with any room that can,
after any queries that intern at most 2^32 names, the table lists these names in the order in which they first
came and numbers them by their places there, its map and its list say the same, and every reply on the way was
right. With 2^32 names it can take no other one: a new name would get the symbol 0, which is that of another
name. -/
theorem run_records (capacity : Int) :
    (maxCapacity < capacity → withCapacity capacity = .error .capacityOutOfRange) ∧
    (capacity ≤ maxCapacity → ∃ t, withCapacity capacity = .ok t) ∧
    ∀ t, withCapacity capacity = .ok t →
      (∀ qs, (interned qs).length ≤ symbolCount → Records (t.after qs) qs ∧
        ∀ before q rest, qs = before ++ q :: rest → Replied t before q rest) ∧
      ∀ qs, (t.after qs).size = symbolCount → ∀ name, .intern name ∉ qs →
        ((t.after qs).intern name).1 = 0 ∧ ∃ other, other ≠ name ∧ (t.after qs).find? other = some 0 ∧
          ((t.after qs).intern name).2.find? other = some 0 := by
  refine ⟨fun h => by rw [withCapacity_eq, if_pos h], fun h => ⟨empty, ?_⟩, fun t ht => ?_⟩
  · rw [withCapacity_eq, if_neg (by omega)]
  · obtain rfl := eq_empty_of_withCapacity ht
    refine ⟨fun qs h => ⟨records_after h, ?_⟩, fun qs hsize name hnew => ?_⟩
    · rintro before q rest rfl
      exact replied h
    · refine after_inStep.intern_of_full hsize ?_
      rwa [names_after, mem_interned]

/-- Names that come twice, the empty one and one that is no text, with other queries between them. -/
def mixed : List Query :=
  [.intern [0x61], .find [0x62], .intern [], .intern [0xff], .intern [0x61], .name 1, .name 9, .find [0xff], .size,
    .all]

theorem run_records_mixed_and_full :
    withCapacity 0x4000000000000000 = .error .capacityOutOfRange ∧
    withCapacity (-3) = .ok empty ∧ (interned mixed).length ≤ symbolCount ∧ Records (empty.after mixed) mixed ∧
    Replied empty [.intern [0x61], .find [0x62], .intern [], .intern [0xff]] (.intern [0x61])
      [.name 1, .name 9, .find [0xff], .size, .all] ∧
    (empty.after ((crowd symbolCount).map Query.intern)).size = symbolCount ∧ Query.intern [1] ∉ (crowd symbolCount).map Query.intern ∧
    ((empty.after ((crowd symbolCount).map Query.intern)).intern [1]).1 = 0 := by
  have hcrash := (run_records 0x4000000000000000).1 (by decide)
  have hroom : withCapacity (-3) = .ok empty := rfl
  have hfew : (interned mixed).length ≤ symbolCount := by decide
  have hsize : (empty.after ((crowd symbolCount).map Query.intern)).size = symbolCount := by
    rw [size, names_after, interned_map_intern (nodup_crowd _), crowd, List.length_map, List.length_range]
  have hnew : Query.intern [1] ∉ (crowd symbolCount).map Query.intern := by
    simp only [List.mem_map, Query.intern.injEq, exists_eq_right, mem_crowd]
    rintro ⟨k, -, heq⟩
    have hmem : (1 : UInt8) ∈ List.replicate k 0 := by simp [heq]
    exact absurd (List.eq_of_mem_replicate hmem) (by decide)
  obtain ⟨-, -, hnewTable⟩ := run_records (-3)
  obtain ⟨hruns, hfull⟩ := hnewTable empty hroom
  obtain ⟨hrecords, hreplied⟩ := hruns mixed hfew
  exact ⟨hcrash, hroom, hfew, hrecords, hreplied _ _ _ rfl, hsize, hnew, (hfull _ hsize _ hnew).1⟩

end Dispatch.SymbolTable
