/-
The machines that sessions come to. A session may do anything to a machine except install another
method table in it (`Step.keepsTables`): intern names, send symbols and names, define methods in the
machine's own tables or in tables that stand alone, run methods outside a send, decode values. Whatever
it does, every machine in it still has its built-ins in sealed tables (`Machine.Booted`).

A send, however deep it goes, changes a machine by interning names only; so any property that interning
keeps is kept by sends (`Context.sendWithin_keeps`), whatever the tables hold.
-/
import Dispatch.Session
import Dispatch.Proofs.BootInvariant

namespace Dispatch

/-! ## What a send does to a machine -/

theorem Program.run_keeps {P : Machine → Prop} {answer} (p : Program)
    (h : ∀ r sel args c, P c.machine → P (answer r sel args c).2.machine) :
    ∀ c : Context, P c.machine → P (p.run answer c).2.machine := by
  induction p with
  | done | fail | crash => exact fun c hc => hc
  | newString bytes next ih => exact fun c hc => ih _ (c.newString bytes).2 hc
  | «recall» ref next ih => exact fun c hc => ih _ c hc
  | send r sel args next ih =>
    intro c hc
    have hanswer := h r sel args c hc
    simp only [run]
    split
    · next heq => exact ih _ _ (by simpa [heq] using hanswer)
    · next heq => exact ih _ _ (by simpa [heq] using hanswer)
    · next heq => simpa [heq] using hanswer
    · next heq => simpa [heq] using hanswer

namespace Context

variable {P : Machine → Prop}

theorem select_keeps (hintern : ∀ mc name, P mc → P (mc.intern name)) (sel : Selector) (c : Context)
    (hc : P c.machine) : P (c.select sel).2.machine := by
  cases sel with
  | symbol s => exact hc
  | name n => exact hintern _ n hc

/-- What interning keeps, a send keeps. -/
theorem sendWithin_keeps (hintern : ∀ mc name, P mc → P (mc.intern name)) (depth : Nat) :
    ∀ r s args (c : Context), P c.machine → P (c.sendWithin depth r s args).2.machine := by
  induction depth with
  | zero => exact fun _ _ _ _ hc => hc
  | succ depth ih =>
    intro r s args c hc
    simp only [sendWithin]
    generalize hc' : (if c.machine.trace = true then _ else c) = c'
    have hc' : P c'.machine := by
      rw [← hc']
      split <;> exact hc
    split
    · exact hc'
    · next m _ =>
      have hrun := Program.run_keeps (m.invoke r args)
        (fun r' sel args' c h => ih r' (c.select sel).1 args' (c.select sel).2 (select_keeps hintern sel c h)) c' hc'
      split
      · next heq => simpa [heq] using hrun
      · exact hrun

theorem send_keeps (hintern : ∀ mc name, P mc → P (mc.intern name)) (r : Value) (s : Symbol) (args : List Value)
    (c : Context) (hc : P c.machine) : P (c.send r s args).2.machine :=
  sendWithin_keeps hintern _ r s args c hc

theorem invoke_keeps (hintern : ∀ mc name, P mc → P (mc.intern name)) (m : Method) (r : Value) (args : List Value)
    (c : Context) (hc : P c.machine) : P (c.invoke m r args).2.machine :=
  Program.run_keeps _ (fun r' sel args' c' h => send_keeps hintern r' (c'.select sel).1 args' (c'.select sel).2
    (select_keeps hintern sel c' h)) c hc

end Context

/-! ## What a step does to the machines of a session -/

/-- Whether a step leaves the machines the tables they were made with: only an installation does not. -/
def Step.keepsTables : Step → Bool
  | .install _ _ => false
  | _ => true

namespace Session

/-- Every machine has its built-ins in sealed tables, and no table that was made alone is installed. -/
structure Sound (s : Session) : Prop where
  machines : ∀ mc ∈ s.machines, mc.Booted
  slots : ∀ slot ∈ s.slots, ∃ t, slot = .loose t

variable {s : Session} {i : Nat} {mc : Machine}

theorem Sound.machine (h : s.Sound) (hi : s.machines[i]? = some mc) : mc.Booted :=
  h.machines mc (List.mem_of_getElem? hi)

theorem Sound.setMachine (h : s.Sound) (hmc : mc.Booted) (i : Nat) : (s.setMachine i mc).Sound := by
  refine ⟨fun mc' hmem => ?_, h.slots⟩
  rcases List.mem_or_eq_of_mem_set hmem with hold | rfl
  · exact h.machines mc' hold
  · exact hmc

theorem Sound.after {c : Context} (h : s.Sound) (hc : c.machine.Booted) (i : Nat) : (s.after i c).Sound :=
  let h' := h.setMachine hc i
  ⟨h'.machines, h'.slots⟩

theorem Sound.setSlot {index : Nat} {t : MethodTable} (h : s.Sound) :
    Sound { s with slots := s.slots.set index (.loose t) } := by
  refine ⟨h.machines, fun slot hmem => ?_⟩
  rcases List.mem_or_eq_of_mem_set hmem with hold | rfl
  · exact h.slots slot hold
  · exact ⟨t, rfl⟩

@[simp] theorem operand_machines (s : Session) (o : Operand) : (s.operand o).2.machines = s.machines := by
  cases o <;> rfl

@[simp] theorem operand_slots (s : Session) (o : Operand) : (s.operand o).2.slots = s.slots := by
  cases o <;> rfl

@[simp] theorem operands_machines (os : List Operand) : ∀ s : Session, (s.operands os).2.machines = s.machines := by
  induction os with
  | nil => exact fun _ => rfl
  | cons o os ih => exact fun s => (ih _).trans (operand_machines s o)

@[simp] theorem operands_slots (os : List Operand) : ∀ s : Session, (s.operands os).2.slots = s.slots := by
  induction os with
  | nil => exact fun _ => rfl
  | cons o os ih => exact fun s => (ih _).trans (operand_slots s o)

theorem Sound.operand (h : s.Sound) (o : Operand) : (s.operand o).2.Sound :=
  ⟨by simpa using h.machines, by simpa using h.slots⟩

theorem Sound.operands (h : s.Sound) (os : List Operand) : (s.operands os).2.Sound :=
  ⟨by simpa using h.machines, by simpa using h.slots⟩

/-- Naming a selector interns it at most. -/
theorem Sound.selector (h : s.Sound) (hi : s.machines[i]? = some mc) (sel : Selector) :
    (s.selector i mc sel).2.2.Sound ∧ (s.selector i mc sel).2.1.Booted ∧
      (s.selector i mc sel).2.2.machines[i]? = some (s.selector i mc sel).2.1 := by
  cases sel with
  | symbol sym => exact ⟨h, h.machine hi, hi⟩
  | name n =>
    have hmc : (mc.intern n).Booted := (h.machine hi).intern n
    refine ⟨h.setMachine hmc i, hmc, ?_⟩
    have hlt : i < s.machines.length := (List.getElem?_eq_some_iff.mp hi).1
    simp [Session.selector, Session.setMachine, hlt]

theorem setTable_self (mc : Machine) (k : Kind) : mc.setTable k (mc.table k) = mc := by
  have htable : (fun k' => if k' = k then mc.table k else mc.table k') = mc.table := by
    funext k'
    split
    · next heq => rw [heq]
    · rfl
  rw [Machine.setTable, htable]

/-- A table that stands alone may be replaced by any other; a machine's own only by itself. -/
theorem Sound.setTable (h : s.Sound) (hi : s.machines[i]? = some mc) {ref t}
    (hown : ∀ k, ref = .ofKind (some k) → t = mc.table k) : (s.setTable i ref t).Sound := by
  cases ref with
  | ofKind kind =>
    cases kind with
    | none => exact h
    | some k =>
      simp only [Session.setTable, setMachineTable, hi, hown k rfl, setTable_self]
      exact h.setMachine (h.machine hi) i
  | alone index =>
    simp only [Session.setTable]
    split
    · exact h
    · exact h.setSlot
    · next hslot =>
      obtain ⟨t, ht⟩ := h.slots _ (List.mem_of_getElem? hslot)
      cases ht

theorem Sound.setSymbolTable (h : s.Sound) (hi : s.machines[i]? = some mc) {table t} (name : Name)
    (ht : s.symbolTable? mc table = some t) : (s.setSymbolTable i mc table (t.intern name).2).Sound := by
  cases table with
  | none =>
    obtain rfl : mc.symbols = t := by simpa [symbolTable?] using ht
    exact h.setMachine ((h.machine hi).intern name) i
  | some index => exact ⟨h.machines, h.slots⟩

/-- Every step but an installation leaves a sound session. -/
theorem Sound.perform (h : s.Sound) (hi : s.machines[i]? = some mc) {step : Step} (hk : step.keepsTables = true) :
    (s.perform i mc step).2.Sound := by
  cases step with
  | new v | facts v | byteAt v | append v | marshal v => exact h.operand v
  | compare a b => exact (h.operand a).operand b
  | sort vs | inspectAll vs | marshalAll vs => exact h.operands vs
  | kindName | selectors | tableInfo => exact h
  | newSymbols =>
    simp only [Session.perform]
    split
    · exact h
    · exact ⟨h.machines, h.slots⟩
  | newTable kind =>
    refine ⟨h.machines, fun slot hmem => ?_⟩
    rcases List.mem_append.mp hmem with hold | hnew
    · exact h.slots slot hold
    · exact ⟨_, List.mem_singleton.mp hnew⟩
  | send r sel args =>
    have hi' : ((s.operand r).2.operands args).2.machines[i]? = some mc := by simpa using hi
    obtain ⟨hs, hmc, -⟩ := ((h.operand r).operands args).selector hi' sel
    exact hs.after (Context.send_keeps (fun _ n hb => hb.intern n) _ _ _ _ hmc) i
  | respondsTo kind sel => exact (h.selector hi sel).1
  | intern table name =>
    simp only [Session.perform]
    split
    · exact h
    · next ht => exact h.setSymbolTable hi name ht
  | findSymbol | symbolName | symbols =>
    simp only [Session.perform]
    split <;> exact h
  | define ref sel m =>
    obtain ⟨hs, hmc, hi⟩ := h.selector hi sel
    simp only [Session.perform]
    split
    · exact hs
    · next t ht =>
      split
      · exact hs
      · next t' hd =>
        refine hs.setTable hi fun k href => ?_
        -- The machine's own tables are sealed, so the definition has crashed.
        obtain rfl : (s.selector i mc sel).2.1.table k = t := by simpa [href, table?] using ht
        rw [MethodTable.define_of_sealed (hmc.closed k)] at hd
        cases hd
  | findMethod ref sel =>
    obtain ⟨hs, -⟩ := h.selector hi sel
    simp only [Session.perform]
    split <;> exact hs
  | close ref =>
    simp only [Session.perform]
    split
    · exact h
    · next t ht =>
      refine h.setTable hi fun k href => ?_
      obtain rfl : mc.table k = t := by simpa [href, table?] using ht
      exact MethodTable.close_of_sealed ((h.machine hi).closed k)
  | invoke ref sel r args =>
    have hi' : ((s.operand r).2.operands args).2.machines[i]? = some mc := by simpa using hi
    obtain ⟨hs, hmc, -⟩ := ((h.operand r).operands args).selector hi' sel
    simp only [Session.perform]
    split
    · exact hs
    · split
      · exact hs
      · exact hs.after (Context.invoke_keeps (fun _ n hb => hb.intern n) _ _ _ _ hmc) i
  | install => cases hk
  | unmarshal | unmarshalAll =>
    simp only [Session.perform]
    split
    · exact h
    · exact ⟨h.machines, h.slots⟩
  | roundTrip v =>
    have hs := h.operand v
    simp only [Session.perform]
    split
    · exact hs
    · exact ⟨hs.machines, hs.slots⟩

theorem Sound.handle (h : s.Sound) {request : Request} (hk : request.step.keepsTables = true) :
    (s.handle request).2.Sound := by
  have hs : ∀ {s' : Session} {vs}, s'.Sound → Sound { s' with made := vs } := fun h => ⟨h.machines, h.slots⟩
  simp only [Session.handle]
  split
  · exact hs h
  · next hi => exact hs (h.perform hi hk)

theorem Sound.run {requests : List Request} (hk : ∀ r ∈ requests, r.step.keepsTables = true) :
    ∀ {s : Session}, s.Sound → (s.run requests).2.Sound := by
  induction requests with
  | nil => exact fun h => h
  | cons r rs ih =>
    intro s h
    have hs := h.handle (hk r List.mem_cons_self)
    exact ih (fun r' hr' => hk r' (List.mem_cons_of_mem r hr')) hs

/-- A session starts with machines that differ in their flags only, if there is room for the names of each. -/
theorem start_eq (nesting : Nat) (options : List Options) : start nesting options =
    if ∀ o ∈ options, o.symbolCapacity ≤ SymbolTable.maxCapacity then
      .ok ⟨options.map fun o => .boot .empty o.trace, [], [], nesting, 0, []⟩
    else .error .capacityOutOfRange := by
  simp only [start, Machine.newAll_eq]
  by_cases h : ∀ o ∈ options, o.symbolCapacity ≤ SymbolTable.maxCapacity
  · rw [if_pos h, if_pos h]
  · rw [if_neg h, if_neg h]

theorem roomy_of_start {nesting : Nat} {options : List Options} (h : start nesting options = .ok s) :
    ∀ o ∈ options, o.symbolCapacity ≤ SymbolTable.maxCapacity := by
  by_contra hcrowded
  rw [start_eq, if_neg hcrowded] at h
  cases h

theorem eq_of_start {nesting : Nat} {options : List Options} (h : start nesting options = .ok s) :
    s = ⟨options.map fun o => .boot .empty o.trace, [], [], nesting, 0, []⟩ := by
  have hroom := roomy_of_start h
  rw [start_eq, if_pos hroom] at h
  exact (Except.ok.inj h).symm

theorem start_sound {nesting : Nat} {options : List Options} (h : start nesting options = .ok s) : s.Sound := by
  rw [eq_of_start h]
  refine ⟨fun mc hmem => ?_, by simp⟩
  obtain ⟨o, -, rfl⟩ := List.mem_map.mp hmem
  exact Machine.boot_booted o.trace

end Session

/-- A machine that some session comes to: made with any options, alone or beside others, and after any
steps that install no other method tables. -/
def Machine.Reachable (mc : Machine) : Prop :=
  ∃ nesting options s requests, Session.start nesting options = .ok s ∧
    (∀ r ∈ requests, r.step.keepsTables = true) ∧ mc ∈ (s.run requests).2.machines

theorem Machine.boot_reachable (trace : Bool) : (Machine.boot .empty trace).Reachable :=
  ⟨0, [⟨0, trace⟩], ⟨[.boot .empty trace], [], [], 0, 0, []⟩, [], rfl, by simp, by simp [Session.run]⟩

/-- **The boot invariant.** Every machine that a session comes to has its built-ins in sealed tables,
each at the symbol of its name. -/
theorem Machine.Reachable.booted {mc : Machine} (h : mc.Reachable) : mc.Booted := by
  obtain ⟨nesting, options, s, requests, hstart, hk, hmem⟩ := h
  exact ((Session.start_sound hstart).run hk).machines mc hmem

end Dispatch
