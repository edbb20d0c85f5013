/-
What a method table holds after any definitions and closings. A table is told by its history alone: every
definition before the first closing counts (`taken`), of those at one symbol the last (`lastAt`), and
nothing that comes later does. One operation does to the table what it does to this history, so the two
agree after every run (`Holds.apply`, `holds_after`).
-/
import Mathlib.Data.Finset.Card
import Mathlib.Data.List.Induction
import Dispatch.Proofs.TableFacts

namespace Dispatch.MethodTable

/-! ## Operations and their history -/

inductive Operation where
  | define (s : Symbol) (m : Method)
  | close

/-- The crash of an operation, if it crashes, and the table then: a crash leaves it as it is. -/
def apply (t : MethodTable) : Operation → Option Crash × MethodTable
  | .define s m =>
    match t.define s m with
    | .ok t' => (none, t')
    | .error crash => (some crash, t)
  | .close => (none, t.close)

def run (t : MethodTable) : List Operation → List (Option Crash) × MethodTable
  | [] => ([], t)
  | op :: ops => ((t.apply op).1 :: ((t.apply op).2.run ops).1, ((t.apply op).2.run ops).2)

/-- The table after operations on a new one. -/
def after (kind : Option Kind) (ops : List Operation) : MethodTable := ((empty kind).run ops).2

/-- The definitions before the first closing. -/
def taken : List Operation → List (Symbol × Method)
  | [] => []
  | .define s m :: ops => (s, m) :: taken ops
  | .close :: _ => []

/-- The last method that is defined at a symbol. -/
def lastAt (s : Symbol) (definitions : List (Symbol × Method)) : Option Method :=
  ((definitions.filter fun d => d.1 == s).getLast?).map Prod.snd

variable {t : MethodTable} {kind : Option Kind} {s s' : Symbol} {m : Method} {op : Operation} {ops : List Operation}
  {definitions : List (Symbol × Method)}

theorem taken_append_of_close (h : .close ∈ ops) (ops' : List Operation) : taken (ops ++ ops') = taken ops := by
  induction ops with
  | nil => simp at h
  | cons op ops ih =>
    cases op with
    | close => rfl
    | define s m =>
      have hrest : .close ∈ ops := by simpa using h
      simp only [List.cons_append, taken, ih hrest]

theorem taken_append_of_open (h : .close ∉ ops) (ops' : List Operation) :
    taken (ops ++ ops') = taken ops ++ taken ops' := by
  induction ops with
  | nil => rfl
  | cons op ops ih =>
    cases op with
    | close => simp at h
    | define s m =>
      have hrest : .close ∉ ops := by simpa using h
      simp only [List.cons_append, taken, ih hrest]

theorem lastAt_concat : lastAt s' (definitions ++ [(s, m)]) = if s' = s then some m else lastAt s' definitions := by
  by_cases hs : s' = s
  · simp [lastAt, hs]
  · have hkey : (s == s') = false := by simpa using Ne.symm hs
    simp [lastAt, hs, hkey]

theorem lastAt_isSome : (lastAt s definitions).isSome = true ↔ s ∈ definitions.map Prod.fst := by
  simp [lastAt]

/-! ## One operation -/

theorem apply_of_sealed (h : t.isSealed = true) : (t.apply op).2 = t := by
  cases op with
  | define s m => simp only [apply, define_of_sealed h]
  | close => exact close_of_sealed h

theorem apply_define_of_open (h : t.isSealed = false) :
    ∃ t', t.define s m = .ok t' ∧ t.apply (.define s m) = (none, t') ∧ t'.isSealed = false := by
  obtain ⟨t', ht, hopen⟩ := define_of_open h s m
  exact ⟨t', ht, by simp only [apply, ht], hopen⟩

theorem find?_apply_define_of_ne (h : s' ≠ s) : (t.apply (.define s m)).2.find? s' = t.find? s' := by
  cases hsealed : t.isSealed with
  | true => rw [apply_of_sealed hsealed]
  | false =>
    obtain ⟨t', ht, happly, -⟩ := apply_define_of_open (s := s) (m := m) hsealed
    rw [happly, find?_define ht, if_neg h]

theorem kind_apply : (t.apply op).2.kind = t.kind := by
  cases op with
  | close => rfl
  | define s m => cases h : t.isSealed <;> simp [apply, define, h]

/-- The table answers as its history says. -/
structure Holds (t : MethodTable) (ops : List Operation) : Prop where
  find : ∀ s, t.find? s = lastAt s (taken ops)
  has : ∀ s, (t.find? s).isSome = true ↔ s ∈ t.symbols
  ascending : t.symbols.Pairwise (· < ·)
  /-- The count that is kept beside the slots is the number of those with a method. -/
  tallied : t.Tallied
  size : t.size = t.symbols.length
  count : t.size = ((taken ops).map Prod.fst).toFinset.card
  closed : t.isSealed = true ↔ .close ∈ ops

/-- The three facts that carry the others through a run. -/
theorem holds_of (hfind : ∀ s, t.find? s = lastAt s (taken ops)) (ht : t.Tallied)
    (hclosed : t.isSealed = true ↔ .close ∈ ops) : Holds t ops := by
  have hhas : ∀ s, (t.find? s).isSome = true ↔ s ∈ t.symbols := by
    intro s
    rw [ht.mem_symbols, Option.isSome_iff_exists]
  -- The symbols of the table and those of the history have the same members, and the table has each once.
  have hmembers : t.symbols.toFinset = ((taken ops).map Prod.fst).toFinset := by
    ext s
    rw [List.mem_toFinset, List.mem_toFinset, ← hhas, hfind, lastAt_isSome]
  refine ⟨hfind, hhas, ht.symbols_pairwise, ht, ht.size_eq, ?_, hclosed⟩
  rw [← hmembers, List.toFinset_card_of_nodup ht.nodup_symbols, ht.size_eq]

theorem Holds.apply (h : Holds t ops) (op : Operation) : Holds (t.apply op).2 (ops ++ [op]) := by
  by_cases hclose : .close ∈ ops
  · rw [apply_of_sealed (h.closed.mpr hclose)]
    refine holds_of (fun s => ?_) h.tallied ?_
    · rw [taken_append_of_close hclose, h.find]
    · simp [h.closed, hclose]
  · have hopen : t.isSealed = false := by
      rw [← Bool.not_eq_true, h.closed]
      exact hclose
    cases op with
    | close =>
      refine holds_of (fun s => ?_) h.tallied.close ?_
      · rw [taken_append_of_open hclose, taken, List.append_nil, ← h.find]
        rfl
      · simp [MethodTable.apply, MethodTable.close]
    | define s m =>
      obtain ⟨t', ht, happly, hopen'⟩ := apply_define_of_open (s := s) (m := m) hopen
      rw [happly]
      refine holds_of (fun s' => ?_) (h.tallied.define ht) ?_
      · rw [find?_define ht, taken_append_of_open hclose, taken, taken, lastAt_concat, h.find]
      · simp [hopen', hclose]

/-! ## Runs -/

theorem run_append (ops' : List Operation) : t.run (ops ++ ops') =
    ((t.run ops).1 ++ ((t.run ops).2.run ops').1, ((t.run ops).2.run ops').2) := by
  induction ops generalizing t with
  | nil => rfl
  | cons op ops ih => simp [run, ih]

theorem length_run : (t.run ops).1.length = ops.length := by
  induction ops generalizing t with
  | nil => rfl
  | cons op ops ih => simp [run, ih]

theorem kind_run : (t.run ops).2.kind = t.kind := by
  induction ops generalizing t with
  | nil => rfl
  | cons op ops ih => rw [run, ih, kind_apply]

theorem run_of_sealed (h : t.isSealed = true) : (t.run ops).2 = t := by
  induction ops with
  | nil => rfl
  | cons op ops ih => rw [run, apply_of_sealed h, ih]

theorem after_append (ops' : List Operation) : after kind (ops ++ ops') = ((after kind ops).run ops').2 := by
  rw [after, run_append, after]

theorem after_concat : after kind (ops ++ [op]) = ((after kind ops).apply op).2 := by
  rw [after_append]
  rfl

theorem holds_after (kind : Option Kind) (ops : List Operation) : Holds (after kind ops) ops := by
  induction ops using List.reverseRecOn with
  | nil => exact holds_of (fun s => rfl) (empty_tallied kind) (by simp [after, run, empty])
  | append_singleton ops op ih =>
    rw [after_concat]
    exact ih.apply op

/-- What an operation in a run answered is what it answers on the table before it. -/
theorem run_getElem? {before rest : List Operation} (h : ops = before ++ op :: rest) :
    ((empty kind).run ops).1[before.length]? = some ((after kind before).apply op).1 := by
  rw [h, run_append, List.getElem?_append_right (by simp [length_run]), length_run, Nat.sub_self]
  rfl

/-- **A method table tells its history.** After any definitions and closings, at any symbols in any order, a
table finds at each symbol the last method defined there before the first closing; it lists the symbols that
find one, in ascending order and so each once, and the count that it keeps is their number. A definition at one symbol changes what no
other symbol finds. It crashes just when the table has been closed before it; and from the first closing on
the table stays what it is, whatever comes. -/
theorem run_holds (kind : Option Kind) (ops : List Operation) :
    Holds (after kind ops) ops ∧
    (∀ s m s', s' ≠ s → ((after kind ops).apply (.define s m)).2.find? s' = (after kind ops).find? s') ∧
    (∀ before s m rest, ops = before ++ .define s m :: rest →
      (.close ∈ before → ((empty kind).run ops).1[before.length]? = some (some (.sealedTable kind))) ∧
      (.close ∉ before → ((empty kind).run ops).1[before.length]? = some none)) ∧
    ∀ before rest, ops = before ++ rest → .close ∈ before → after kind ops = after kind before := by
  refine ⟨holds_after kind ops, fun s m s' h => find?_apply_define_of_ne h, ?_, ?_⟩
  · intro before s m rest hops
    have hholds := holds_after kind before
    have hkind : (after kind before).kind = kind := kind_run
    rw [run_getElem? hops]
    constructor
    · intro hclose
      rw [apply, define_of_sealed (hholds.closed.mpr hclose), hkind]
    · intro hclose
      have hopen : (after kind before).isSealed = false := by
        rw [← Bool.not_eq_true, hholds.closed]
        exact hclose
      obtain ⟨t', -, happly, -⟩ := apply_define_of_open (s := s) (m := m) hopen
      rw [happly]
  · rintro before rest rfl hclose
    rw [after_append, run_of_sealed ((holds_after kind before).closed.mpr hclose)]

/-- Definitions out of order and with holes between them, one of them twice, at the greatest symbol too. -/
def definitionsOf (m m' : Method) : List Operation :=
  [.define 7 m, .define 0xffffffff m', .define 2 m, .define 7 m']

theorem run_holds_redefined_and_closed :
    let m : Method := ⟨[0x61], none, fun r _ => .done r⟩
    let m' : Method := ⟨[0x62], some 0, fun _ _ => .done .nil⟩
    let ops := definitionsOf m m' ++ .close :: [.define 2 m', .close, .define 3 m]
    Holds (after (some .bool) ops) ops ∧ (after (some .bool) ops).find? 7 = some m' ∧
      (3 : Symbol) ≠ 7 ∧ ((after (some .bool) ops).apply (.define 7 m)).2.find? 3 = (after (some .bool) ops).find? 3 ∧
      .close ∉ (definitionsOf m m').take 3 ∧ ((empty (some .bool)).run ops).1[3]? = some none ∧
      .close ∈ definitionsOf m m' ++ [.close] ∧
      ((empty (some .bool)).run ops).1[5]? = some (some (.sealedTable (some .bool))) ∧
      after (some .bool) ops = after (some .bool) (definitionsOf m m' ++ [.close]) := by
  intro m m' ops
  obtain ⟨hholds, hother, hreply, hclosed⟩ := run_holds (some .bool) ops
  have hopen : .close ∉ (definitionsOf m m').take 3 := by simp [definitionsOf]
  have hclose : .close ∈ definitionsOf m m' ++ [.close] := by simp
  refine ⟨hholds, ?_, by decide, hother 7 m 3 (by decide), hopen, ?_, hclose, ?_, ?_⟩
  · rw [hholds.find]
    rfl
  · exact (hreply ((definitionsOf m m').take 3) 7 m' _ rfl).2 hopen
  · have hcrash := (hreply (definitionsOf m m' ++ [.close]) 2 m' [.close, .define 3 m] rfl).1 hclose
    have hlength : (definitionsOf m m' ++ [Operation.close]).length = 5 := rfl
    rwa [hlength] at hcrash
  · exact hclosed (definitionsOf m m' ++ [.close]) _ rfl hclose

end Dispatch.MethodTable
