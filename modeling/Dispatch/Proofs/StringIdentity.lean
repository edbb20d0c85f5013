/-
Strings have an identity of their own and keep their contents. A value carries its contents with it, so nothing in
the form of values rules out that two of them share their storage and differ in contents. That it never comes to this
is an invariant of sessions: the contents of all strings that have come up can be listed by their storage, and a
request adds to the end of that list and leaves the rest alone (`Session.Keeps`).

It follows for whole runs (`Session.run_strings`) that a string that is made, by a constructor, a built-in or the
decoder, is none of the values that were there before, and that values which are the same have the same contents.
-/
import Dispatch.Proofs.Isolation

namespace Dispatch

/-! ## Values in a store -/

namespace Value

/-- The store, which lists contents by their storage, has the contents of a string; other values need none. -/
def KeptIn (store : List Bytes) : Value → Prop
  | .string storage bs => store[storage]? = some bs
  | _ => True

/-- Whether two values hold the same content, where one that is found to be the same as the other is not looked at any
further. -/
def quickEqual (v w : Value) : Bool := v.same w || v.equal w

/-- A value that is none of the old ones. -/
def NewTo (old : List Value) (v : Value) : Prop := ∀ w ∈ old, v.same w = false

variable {store store' : List Bytes} {old : List Value} {v w : Value}

theorem same_self (v : Value) : v.same v = true := by
  cases v <;> simp [same]

@[simp] theorem keptIn_nil (store : List Bytes) : Value.nil.KeptIn store := trivial

theorem keptIn_of_kind (h : v.kind ≠ .string) (store : List Bytes) : v.KeptIn store := by
  cases v with
  | string => exact absurd rfl h
  | nil | bool | fixnum => trivial

theorem keptIn_snoc (store : List Bytes) (bs : Bytes) : (Value.string store.length bs).KeptIn (store ++ [bs]) := by
  simp [KeptIn]

theorem KeptIn.mono (h : v.KeptIn store) (hle : store <+: store') : v.KeptIn store' := by
  cases v with
  | string storage bs =>
    obtain ⟨more, rfl⟩ := hle
    obtain ⟨hlt, -⟩ := List.getElem?_eq_some_iff.mp h
    simp only [KeptIn, List.getElem?_append_left hlt]
    exact h
  | nil | bool | fixnum => trivial

/-- A store has one content for each storage. -/
theorem KeptIn.eq_of_same (hv : v.KeptIn store) (hw : w.KeptIn store) (h : v.same w = true) : v = w := by
  cases v with
  | string a bs =>
    cases w with
    | string b cs =>
      obtain rfl : a = b := by simpa [same] using h
      obtain rfl : bs = cs := Option.some.inj (hv.symm.trans hw)
      rfl
    | nil | bool | fixnum => cases h
  | nil | bool | fixnum => cases w <;> simp_all [same]

/-- Between values of one store the short cut by identity never changes the answer. -/
theorem KeptIn.quickEqual_eq (hv : v.KeptIn store) (hw : w.KeptIn store) : v.quickEqual w = v.equal w := by
  cases h : v.same w with
  | false => rw [quickEqual, h, Bool.false_or]
  | true =>
    obtain rfl := hv.eq_of_same hw h
    rw [quickEqual, h, equal_refl, Bool.true_or]

/-- A string that is kept beyond the store is none of those in it. -/
theorem newTo_of_length_le {storage : Nat} (hle : store.length ≤ storage) (hold : ∀ w ∈ old, w.KeptIn store)
    (bs : Bytes) : (Value.string storage bs).NewTo old := by
  intro w hw
  cases w with
  | string b cs =>
    obtain ⟨hlt, -⟩ := List.getElem?_eq_some_iff.mp (hold _ hw)
    have hne : storage ≠ b := by omega
    simpa [same] using hne
  | nil | bool | fixnum => rfl

theorem forall_mem_append_keptIn {vs : List Value} (hold : ∀ w ∈ old, w.KeptIn store) (hle : store <+: store')
    (hvs : ∀ w ∈ vs, w.KeptIn store') : ∀ w ∈ old ++ vs, w.KeptIn store' := by
  intro w hw
  rcases List.mem_append.mp hw with hold' | hnew
  · exact (hold w hold').mono hle
  · exact hvs w hnew

end Value

/-! ## Decoded values -/

namespace Wire.Envelope

theorem copy_kept (store : List Bytes) (v : Value) :
    ∃ store', store <+: store' ∧ (copy store.length v).2 = store'.length ∧ (copy store.length v).1.KeptIn store' := by
  cases v with
  | string storage bs => exact ⟨store ++ [bs], List.prefix_append _ _, by simp [copy], Value.keptIn_snoc store bs⟩
  | nil | bool | fixnum => exact ⟨store, List.prefix_rfl, rfl, trivial⟩

theorem copy_new {store : List Bytes} {old : List Value} (hold : ∀ w ∈ old, w.KeptIn store) {v : Value}
    (hv : (copy store.length v).1.kind = .string) : (copy store.length v).1.NewTo old := by
  cases v with
  | string storage bs => exact Value.newTo_of_length_le (Nat.le_refl _) hold bs
  | nil | bool | fixnum => cases hv

theorem copies_kept (vs : List Value) : ∀ store : List Bytes, ∃ store', store <+: store' ∧
    (copies store.length vs).2 = store'.length ∧ ∀ v ∈ (copies store.length vs).1, v.KeptIn store' := by
  induction vs with
  | nil => exact fun store => ⟨store, List.prefix_rfl, rfl, by simp [copies]⟩
  | cons v vs ih =>
    intro store
    obtain ⟨store₁, hle₁, hnext, hfirst⟩ := copy_kept store v
    obtain ⟨store₂, hle₂, hlast, hrest⟩ := ih store₁
    rw [← hnext] at hlast hrest
    refine ⟨store₂, hle₁.trans hle₂, hlast, ?_⟩
    simp only [copies, List.forall_mem_cons]
    exact ⟨hfirst.mono hle₂, hrest⟩

/-- Each string of a decoded list is new, also to those that stand before it in the list. -/
theorem copies_new (vs : List Value) : ∀ {store : List Bytes} {old : List Value}, (∀ w ∈ old, w.KeptIn store) →
    ∀ {front back v}, (copies store.length vs).1 = front ++ v :: back → v.kind = .string → v.NewTo (old ++ front) := by
  induction vs with
  | nil =>
    intro store old _ front back v h
    simp [copies] at h
  | cons v₁ vs ih =>
    intro store old hold front back v h hv
    simp only [copies] at h
    cases front with
    | nil =>
      obtain ⟨rfl, -⟩ := List.cons.inj h
      rw [List.append_nil]
      exact copy_new hold hv
    | cons w front =>
      obtain ⟨rfl, hrest⟩ := List.cons.inj h
      obtain ⟨store₁, hle, hnext, hfirst⟩ := copy_kept store v₁
      rw [hnext] at hrest
      rw [List.append_cons]
      refine ih ?_ hrest hv
      exact Value.forall_mem_append_keptIn hold hle (by simpa using hfirst)

end Wire.Envelope

/-! ## Strings of a send -/

namespace Context

variable {c : Context} {r : Value} {s : Symbol} {args : List Value}

/-- Whether a message is the `to_s` of a string, which is its own text. -/
def AsksItself (mc : Machine) (r : Value) (s : Symbol) : Prop :=
  r.kind = .string ∧ mc.symbols.name s = Bytes.ofString "to_s"

/-- How the answer to a message comes by its storage. -/
inductive Stores (c : Context) (r : Value) (s : Symbol) : Outcome × Context → Prop
  | none {o c'} : c'.fresh = c.fresh → (∀ v, o = .value v → v.kind ≠ .string) →
      (∀ e beside, o = .failure e beside → beside = .nil) → Stores c r s (o, c')
  | receiver {c'} : AsksItself c.machine r s → c'.fresh = c.fresh → Stores c r s (.value r, c')
  | string {bs c'} : ¬ AsksItself c.machine r s → c'.fresh = c.fresh + 1 →
      Stores c r s (.value (.string c.fresh bs), c')

theorem send_stores (h : c.machine.Booted) (r : Value) (s : Symbol) (args : List Value) :
    Stores c r s (c.send r s args) := by
  cases hf : (c.machine.table r.kind).find? s with
  | none =>
    have hsend : c.send r s args = _ := sendWithin_missing hf _ args
    rw [hsend]
    refine .none rfl nofun ?_
    rintro _ _ ⟨⟩
    rfl
  | some m =>
    obtain ⟨b, rfl, hk, hname⟩ := h.builtin_of_find? hf
    have hsend : c.send r s args = _ := sendWithin_found hf _ args
    rw [hsend]
    have refused : ∀ e : Failure, Stores c r s (ofRun r.kind b.method.name (.failure e .nil, c.traced r s args)) := by
      intro e
      refine .none rfl nofun ?_
      rintro _ _ ⟨⟩
      rfl
    by_cases hb : b = .stringToS
    · subst hb
      rw [Builtin.invoke_toS]
      split
      · exact .receiver ⟨hk.symm, hname.symm⟩ rfl
      · exact refused _
    · have hother : ¬ AsksItself c.machine r s := by
        rintro ⟨hstring, hcalled⟩
        exact hb (Builtin.eq_of_key (hk.trans hstring) (hname.trans hcalled))
      have hends := b.invoke_ends r args
      generalize b.method.invoke r args = p at hends
      cases hends with
      | plain hv =>
        refine .none rfl ?_ nofun
        rintro _ ⟨⟩
        exact hv
      | receiver hself => exact absurd hself hb
      | string => exact .string hother rfl
      | refused => exact refused _
      | crashed => exact .none rfl nofun nofun

/-- The `to_s` of a string is the string. -/
theorem send_itself (h : c.machine.Booted) (hself : AsksItself c.machine r s) : (c.send r s []).1 = .value r := by
  obtain ⟨hstring, hcalled⟩ := hself
  have htext : Builtin.find? r.kind (Bytes.ofString "to_s") = some .stringToS :=
    Builtin.find?_eq_some.mpr ⟨hstring.symm, rfl⟩
  have hfind : (c.machine.table r.kind).find? s = some (Builtin.method .stringToS) := by
    rw [h.find?_eq, hcalled, htext]
    rfl
  have hsend : c.send r s [] = _ := sendWithin_found hfind _ []
  rw [hsend]
  rfl

end Context

/-! ## Values of a step -/

/-- Steps that run no methods but built-ins, and these only as messages. -/
def Step.usesBuiltins : Step → Bool
  | .invoke _ _ _ _ => false
  | .install _ _ => false
  | _ => true

theorem Step.keepsTables_of_usesBuiltins {step : Step} (h : step.usesBuiltins = true) : step.keepsTables = true := by
  cases step with
  | install => cases h
  | _ => rfl

/-- The operands of a step, in the order in which they are taken up. -/
def Step.operands : Step → List Operand
  | .new v | .facts v | .byteAt v _ | .append v _ | .marshal v | .roundTrip v => [v]
  | .compare a b => [a, b]
  | .sort vs | .inspectAll vs | .marshalAll vs => vs
  | .send receiver _ args | .invoke _ _ receiver args => receiver :: args
  | _ => []

/-- The values that an answer shows. -/
def Answer.shown : Answer → List Value
  | .value v | .facts v | .sent v _ | .failure _ v | .roundTrip v _ _ _ => [v]
  | .values vs => vs
  | _ => []

/-- All values of a reply. -/
def Reply.values (r : Reply) : List Value := r.made.values ++ r.answer.shown

namespace Session

variable {s : Session} {i : Nat} {mc : Machine} {store : List Bytes}

@[simp] theorem operand_made (s : Session) (o : Operand) : (s.operand o).2.made = s.made := by
  cases o <;> rfl

@[simp] theorem operand_nesting (s : Session) (o : Operand) : (s.operand o).2.nesting = s.nesting := by
  cases o <;> rfl

@[simp] theorem operands_nesting (os : List Operand) : ∀ s : Session, (s.operands os).2.nesting = s.nesting := by
  induction os with
  | nil => exact fun _ => rfl
  | cons o os ih => exact fun s => (ih _).trans (operand_nesting s o)

@[simp] theorem operands_made (os : List Operand) : ∀ s : Session, (s.operands os).2.made = s.made := by
  induction os with
  | nil => exact fun _ => rfl
  | cons o os ih => exact fun s => (ih _).trans (operand_made s o)

/-- The first operands do not depend on those that follow. -/
theorem operands_append (front back : List Operand) : ∀ s : Session, (s.operands (front ++ back)).1 =
    (s.operands front).1 ++ ((s.operands front).2.operands back).1 := by
  induction front with
  | nil => exact fun _ => rfl
  | cons o front ih => exact fun s => congrArg (_ :: ·) (ih _)

theorem operands_length (os : List Operand) : ∀ s : Session, (s.operands os).1.length = os.length := by
  induction os with
  | nil => exact fun _ => rfl
  | cons o os ih => exact fun s => congrArg (· + 1) (ih _)

/-- What the message of a step comes to. -/
def sent (s : Session) (mc : Machine) (receiver : Operand) (sel : Selector) (args : List Operand) : Outcome × Context :=
  Context.send ⟨(sel.resolve mc).2, s.nesting, (s.operands (receiver :: args)).2.fresh, s.made, []⟩ (s.operand receiver).1
    (sel.resolve mc).1 ((s.operand receiver).2.operands args).1

theorem perform_send (hi : s.machines[i]? = some mc) (receiver : Operand) (sel : Selector) (args : List Operand) :
    (s.perform i mc (.send receiver sel args)).1 =
        outcomeReply (fun v => .sent v (v.same (s.operand receiver).1)) (s.sent mc receiver sel args).2.log
          (s.sent mc receiver sel args).1 ∧
      (s.perform i mc (.send receiver sel args)).2.fresh = (s.sent mc receiver sel args).2.fresh ∧
      (s.perform i mc (.send receiver sel args)).2.made = s.made := by
  have hi' : ((s.operand receiver).2.operands args).2.machines[i]? = some mc := by simpa using hi
  simp only [Session.perform, selector_eq hi', context, operands_made, operand_made, operands_nesting, operand_nesting]
  exact ⟨rfl, rfl, by simp [after, setMachine]⟩

theorem resolve_booted (h : mc.Booted) (sel : Selector) : (sel.resolve mc).2.Booted := by
  cases sel with
  | symbol => exact h
  | name n => exact h.intern n

theorem sent_stores (h : mc.Booted) (receiver : Operand) (sel : Selector) (args : List Operand) :
    Context.Stores ⟨(sel.resolve mc).2, s.nesting, (s.operands (receiver :: args)).2.fresh, s.made, []⟩ (s.operand receiver).1
      (sel.resolve mc).1 (s.sent mc receiver sel args) :=
  Context.send_stores (resolve_booted h sel) _ _ _

/-! ## The store of a session -/

/-- Nothing was stored, and no value has come to be at hand. -/
structure StoresNothing (s s' : Session) : Prop where
  fresh : s'.fresh = s.fresh
  made : s'.made = s.made

theorem selector_storesNothing (s : Session) (i : Nat) (mc : Machine) (sel : Selector) :
    StoresNothing s (s.selector i mc sel).2.2 := by
  cases sel <;> exact ⟨rfl, rfl⟩

theorem StoresNothing.setTable {s' : Session} (h : StoresNothing s s') (i : Nat) (ref : TableRef) (t : MethodTable) :
    StoresNothing s (s'.setTable i ref t) := by
  have hmachine : ∀ j k, StoresNothing s (s'.setMachineTable j k t) := by
    intro j k
    simp only [setMachineTable]
    split
    · exact h
    · exact ⟨h.fresh, h.made⟩
  cases ref with
  | ofKind kind =>
    cases kind with
    | none => exact h
    | some k => exact hmachine i k
  | alone index =>
    simp only [Session.setTable]
    split
    · exact h
    · exact ⟨h.fresh, h.made⟩
    · exact hmachine _ _

theorem setSymbolTable_storesNothing (s : Session) (i : Nat) (mc : Machine) (table : Option Nat) (t : SymbolTable) :
    StoresNothing s (s.setSymbolTable i mc table t) := by
  cases table <;> exact ⟨rfl, rfl⟩

/-- The contents of all strings so far, by their storage: as many as storage was given out, and among them those of
the values at hand. -/
structure Keeps (store : List Bytes) (s : Session) : Prop where
  fresh : s.fresh = store.length
  made : ∀ v ∈ Made.all s.made, v.KeptIn store

theorem Keeps.operand (h : Keeps store s) (o : Operand) :
    ∃ store', store <+: store' ∧ Keeps store' (s.operand o).2 ∧ (s.operand o).1.KeptIn store' := by
  cases o with
  | nil | bool | fixnum => exact ⟨store, List.prefix_rfl, h, trivial⟩
  | string bytes =>
    have hle : store <+: store ++ [bytes] := List.prefix_append _ _
    refine ⟨store ++ [bytes], hle, ⟨?_, fun v hv => (h.made v hv).mono hle⟩, ?_⟩
    · simp [Session.operand, h.fresh]
    · simp only [Session.operand, h.fresh]
      exact Value.keptIn_snoc store bytes
  | made ref =>
    refine ⟨store, List.prefix_rfl, h, ?_⟩
    show (ref.resolve s.made).KeptIn store
    rcases Reference.resolve_cases s.made ref with hnil | hmem
    · rw [hnil]
      trivial
    · exact h.made _ hmem

theorem Keeps.operands (os : List Operand) : ∀ {store : List Bytes} {s : Session}, Keeps store s →
    ∃ store', store <+: store' ∧ Keeps store' (s.operands os).2 ∧ ∀ v ∈ (s.operands os).1, v.KeptIn store' := by
  induction os with
  | nil => exact fun h => ⟨_, List.prefix_rfl, h, by simp [Session.operands]⟩
  | cons o os ih =>
    intro store s h
    obtain ⟨store₁, hle₁, h₁, hfirst⟩ := h.operand o
    obtain ⟨store₂, hle₂, h₂, hrest⟩ := ih h₁
    refine ⟨store₂, hle₁.trans hle₂, h₂, ?_⟩
    simp only [Session.operands, List.forall_mem_cons]
    exact ⟨hfirst.mono hle₂, hrest⟩

/-- A step that started with the store has ended: the store has grown, and has the contents of the operands `vs` and of
all values in the reply. -/
def Adds (store : List Bytes) (s : Session) (vs : List Value) (result : Reply × Session) : Prop :=
  ∃ store', store <+: store' ∧ result.2.fresh = store'.length ∧ result.2.made = s.made ∧
    ∀ v ∈ vs ++ result.1.values, v.KeptIn store'

/-- A step that stores nothing but its operands, and replies with some of these if with any values. -/
theorem Keeps.adds_operands (h : Keeps store s) (os : List Operand) {result : Reply × Session}
    (hstill : StoresNothing (s.operands os).2 result.2)
    (hvalues : ∀ v ∈ result.1.values, v = .nil ∨ v ∈ (s.operands os).1) :
    Adds store s (s.operands os).1 result := by
  obtain ⟨store', hle, hkeeps, hvs⟩ := h.operands os
  refine ⟨store', hle, hstill.fresh.trans hkeeps.fresh, hstill.made.trans (operands_made os s), ?_⟩
  intro v hv
  rcases List.mem_append.mp hv with hv | hv
  · exact hvs v hv
  · rcases hvalues v hv with rfl | hv
    · trivial
    · exact hvs v hv

/-- A step that stores nothing and shows nothing. -/
theorem Keeps.adds_nothing (h : Keeps store s) {result : Reply × Session} (hstill : StoresNothing s result.2)
    (hvalues : result.1.values = [.nil]) : Adds store s [] result :=
  h.adds_operands [] hstill (by simp [hvalues])

theorem Keeps.send (h : Keeps store s) (hb : mc.Booted) (hi : s.machines[i]? = some mc) (receiver : Operand)
    (sel : Selector) (args : List Operand) :
    Adds store s (s.operands (receiver :: args)).1 (s.perform i mc (.send receiver sel args)) := by
  obtain ⟨store', hle, hkeeps, hvs⟩ := h.operands (receiver :: args)
  obtain ⟨hreply, hfresh, hmade⟩ := perform_send hi receiver sel args
  have hstores := sent_stores (s := s) hb receiver sel args
  -- The values of the reply, in a store that may have one more string.
  have adds : ∀ {store₂}, store' <+: store₂ → (s.sent mc receiver sel args).2.fresh = store₂.length →
      (∀ v ∈ (s.perform i mc (.send receiver sel args)).1.values, v.KeptIn store₂) →
      Adds store s (s.operands (receiver :: args)).1 (s.perform i mc (.send receiver sel args)) := by
    intro store₂ hle₂ hnext hvalues
    exact ⟨store₂, hle.trans hle₂, hfresh.trans hnext, hmade, Value.forall_mem_append_keptIn hvs hle₂ hvalues⟩
  rw [hreply] at adds
  cases hsent : s.sent mc receiver sel args with
  | mk o c' =>
  rw [hsent] at hstores adds
  cases hstores with
  | none hsame hvalue hfailure =>
    refine adds List.prefix_rfl (hsame.trans hkeeps.fresh) ?_
    cases o with
    | value v =>
      have hv := Value.keptIn_of_kind (hvalue v rfl) store'
      simp [outcomeReply, Reply.values, Answer.shown, hv]
    | failure e beside => simp [outcomeReply, Reply.values, Answer.shown, hfailure e beside rfl]
    | crash | unfinished => simp [outcomeReply, Reply.values, Answer.shown]
  | receiver hself hsame =>
    have hr : (s.operand receiver).1.KeptIn store' := hvs _ List.mem_cons_self
    refine adds List.prefix_rfl (hsame.trans hkeeps.fresh) ?_
    simp [outcomeReply, Reply.values, Answer.shown, hr]
  | @string bs _ hother hnext =>
    have hv := Value.keptIn_snoc store' bs
    rw [← hkeeps.fresh] at hv
    refine adds (List.prefix_append store' [bs]) ?_ ?_
    · rw [hnext]
      simp [hkeeps.fresh]
    · simp [outcomeReply, Reply.values, Answer.shown, hv]

/-- The reply to a decoding has copies that the store has, if they are made behind it. -/
theorem Keeps.adds_copy (h : Keeps store s) (v : Value) {vs : List Value} (hvs : ∀ w ∈ vs, w.KeptIn store)
    (answer : Answer) (hshown : answer.shown = [(Wire.Envelope.copy s.fresh v).1]) :
    Adds store s vs
      (replyMaking answer (Wire.Envelope.copy s.fresh v).1, { s with fresh := (Wire.Envelope.copy s.fresh v).2 }) := by
  obtain ⟨store', hle, hnext, hv⟩ := Wire.Envelope.copy_kept store v
  rw [← h.fresh] at hnext hv
  refine ⟨store', hle, hnext, rfl, Value.forall_mem_append_keptIn hvs hle ?_⟩
  simp [replyMaking, Reply.values, hshown, hv]

theorem byteAt_shown (v : Value) (index : Int) : (byteAt v index).shown = [] := by
  unfold byteAt
  split
  · rfl
  · split
    · rfl
    · split <;> rfl

/-- Every step that runs no methods but built-ins adds to the store. -/
theorem Keeps.perform (h : Keeps store s) (hb : mc.Booted) (hi : s.machines[i]? = some mc) {step : Step}
    (hstep : step.usesBuiltins = true) : Adds store s (s.operands step.operands).1 (s.perform i mc step) := by
  cases step with
  | new v =>
    exact h.adds_operands [v] ⟨rfl, rfl⟩
      (by simp [Session.perform, replyMaking, Reply.values, Answer.shown, Session.operands])
  | facts v =>
    exact h.adds_operands [v] ⟨rfl, rfl⟩
      (by simp [Session.perform, reply, Reply.values, Answer.shown, Session.operands])
  | byteAt v index =>
    exact h.adds_operands [v] ⟨rfl, rfl⟩ (by simp [Session.perform, reply, Reply.values, byteAt_shown])
  | append v | marshal v =>
    exact h.adds_operands [v] ⟨rfl, rfl⟩ (by simp [Session.perform, reply, Reply.values, Answer.shown])
  | compare a b =>
    exact h.adds_operands [a, b] ⟨rfl, rfl⟩ (by simp [Session.perform, reply, Reply.values, Answer.shown])
  | sort vs =>
    refine h.adds_operands vs ⟨rfl, rfl⟩ ?_
    simp [Session.perform, reply, Reply.values, Answer.shown, Value.sort]
  | inspectAll vs | marshalAll vs =>
    exact h.adds_operands vs ⟨rfl, rfl⟩ (by simp [Session.perform, reply, Reply.values, Answer.shown])
  | kindName | selectors | tableInfo | newTable => exact h.adds_nothing ⟨rfl, rfl⟩ rfl
  | newSymbols capacity =>
    simp only [Session.perform]
    split <;> exact h.adds_nothing ⟨rfl, rfl⟩ rfl
  | send receiver sel args => exact h.send hb hi receiver sel args
  | respondsTo kind sel => exact h.adds_nothing (selector_storesNothing s i mc sel) rfl
  | intern table name =>
    simp only [Session.perform]
    split
    · exact h.adds_nothing ⟨rfl, rfl⟩ rfl
    · exact h.adds_nothing (setSymbolTable_storesNothing s i mc table _) rfl
  | findSymbol | symbolName | symbols =>
    simp only [Session.perform]
    split <;> exact h.adds_nothing ⟨rfl, rfl⟩ rfl
  | define ref sel m =>
    have hstill := selector_storesNothing s i mc sel
    simp only [Session.perform]
    split
    · exact h.adds_nothing hstill rfl
    · split
      · exact h.adds_nothing hstill rfl
      · exact h.adds_nothing (hstill.setTable i ref _) rfl
  | findMethod ref sel =>
    simp only [Session.perform]
    split <;> exact h.adds_nothing (selector_storesNothing s i mc sel) rfl
  | close ref =>
    have hstill : StoresNothing s s := ⟨rfl, rfl⟩
    simp only [Session.perform]
    split
    · exact h.adds_nothing hstill rfl
    · exact h.adds_nothing (hstill.setTable i ref _) rfl
  | invoke | install => cases hstep
  | unmarshal data =>
    rcases Wire.unmarshal_cases data with ⟨v, hv⟩ | ⟨err, herr⟩
    · simp only [Session.perform, hv]
      exact h.adds_copy v (by simp [Step.operands, Session.operands]) _ rfl
    · simp only [Session.perform, herr]
      exact h.adds_nothing ⟨rfl, rfl⟩ rfl
  | unmarshalAll data =>
    rcases Wire.unmarshalAll_cases data with ⟨vs, hvs⟩ | ⟨err, herr⟩
    · obtain ⟨store', hle, hnext, hkept⟩ := Wire.Envelope.copies_kept vs store
      rw [← h.fresh] at hnext hkept
      simp only [Session.perform, hvs]
      refine ⟨store', hle, hnext, rfl, ?_⟩
      simpa [Step.operands, Session.operands, Reply.values, Answer.shown] using hkept
    · simp only [Session.perform, herr]
      exact h.adds_nothing ⟨rfl, rfl⟩ rfl
  | roundTrip v =>
    rcases Wire.unmarshal_cases (Wire.marshal (s.operand v).1) with ⟨w, hw⟩ | ⟨err, herr⟩
    · obtain ⟨store', hle, hkeeps, hvs⟩ := h.operands [v]
      simp only [Session.perform, hw]
      obtain ⟨store₂, hle₂, hfresh, hmade, hvalues⟩ := hkeeps.adds_copy w hvs (.roundTrip _ _ _ _) rfl
      exact ⟨store₂, hle.trans hle₂, hfresh, hmade.trans (operand_made s v), hvalues⟩
    · simp only [Session.perform, herr]
      exact h.adds_operands [v] ⟨rfl, rfl⟩ (by simp [reply, Reply.values, Answer.shown])

/-! ## Runs -/

/-- The values that a request takes up. -/
def taken (s : Session) (q : Request) : List Value :=
  match s.machines[q.machine]? with
  | none => []
  | some _ => (s.operands q.step.operands).1

/-- All values that come up while requests are answered, as operands or in replies. -/
def history (s : Session) : List Request → List Value
  | [] => []
  | q :: qs => s.taken q ++ (s.handle q).1.values ++ (s.handle q).2.history qs

theorem handle_eq {q : Request} (hi : s.machines[q.machine]? = some mc) :
    (s.handle q).1 = (s.perform q.machine mc q.step).1 := by
  simp only [Session.handle, hi]

theorem Keeps.keep_made (h : Keeps store s) {vs : List Value} {result : Reply × Session}
    (hadds : Adds store s vs result) :
    result.2.made ++ [result.1.made] = s.made ++ [result.1.made] ∧
      ∃ store', store <+: store' ∧ Keeps store' { result.2 with made := result.2.made ++ [result.1.made] } ∧
        ∀ v ∈ vs ++ result.1.values, v.KeptIn store' := by
  obtain ⟨store', hle, hfresh, hmade, hvalues⟩ := hadds
  have hnew : ∀ v ∈ result.1.made.values, v.KeptIn store' :=
    fun v hv => hvalues v (List.mem_append_right _ (List.mem_append_left _ hv))
  refine ⟨by rw [hmade], store', hle, ⟨hfresh, ?_⟩, hvalues⟩
  rw [hmade, Made.all_snoc]
  exact Value.forall_mem_append_keptIn h.made hle hnew

theorem Keeps.handle (h : Keeps store s) (hs : s.Sound) {q : Request} (hq : q.step.usesBuiltins = true) :
    (s.handle q).2.made = s.made ++ [(s.handle q).1.made] ∧ ∃ store', store <+: store' ∧ Keeps store' (s.handle q).2 ∧
      ∀ v ∈ s.taken q ++ (s.handle q).1.values, v.KeptIn store' := by
  simp only [Session.handle, taken]
  cases hi : s.machines[q.machine]? with
  | none => exact h.keep_made (h.adds_nothing ⟨rfl, rfl⟩ rfl)
  | some mc => exact h.keep_made (h.perform (hs.machine hi) hi hq)

theorem Keeps.run {requests : List Request} (hsteps : ∀ q ∈ requests, q.step.usesBuiltins = true) :
    ∀ {store : List Bytes} {s : Session}, Keeps store s → s.Sound →
      (s.run requests).2.made = s.made ++ (s.run requests).1.map Reply.made ∧
        ∃ store', store <+: store' ∧ Keeps store' (s.run requests).2 ∧ ∀ v ∈ s.history requests, v.KeptIn store' := by
  induction requests with
  | nil =>
    intro store s h _
    exact ⟨by simp [Session.run], store, List.prefix_rfl, h, by simp [history]⟩
  | cons q qs ih =>
    intro store s h hs
    have hq := hsteps q List.mem_cons_self
    obtain ⟨hmade, store₁, hle₁, h₁, hvs₁⟩ := h.handle hs hq
    obtain ⟨hmade₂, store₂, hle₂, h₂, hvs₂⟩ :=
      ih (fun q' hq' => hsteps q' (List.mem_cons_of_mem q hq')) h₁ (hs.handle (Step.keepsTables_of_usesBuiltins hq))
    refine ⟨?_, store₂, hle₁.trans hle₂, h₂, Value.forall_mem_append_keptIn hvs₁ hle₂ hvs₂⟩
    simp only [Session.run, hmade₂, hmade, List.map_cons, List.append_assoc, List.singleton_append]

/-! ## New strings -/

/-- What the strings of a step are, `old` being all values before it. -/
structure Identifies (old : List Value) (s : Session) (mc : Machine) (step : Step) (answer : Answer) : Prop where
  /-- A string that is constructed is new, also to the operands before it. -/
  constructed : ∀ front bs back, step.operands = front ++ .string bs :: back →
    ∃ v, (s.operands step.operands).1[front.length]? = some v ∧ v.bytes? = some bs ∧
      v.NewTo (old ++ (s.operands step.operands).1.take front.length)
  /-- A value that was made before is the value that was made. -/
  recalled : ∀ front ref back, step.operands = front ++ .made ref :: back →
    (s.operands step.operands).1[front.length]? = some (ref.resolve s.made)
  new : ∀ o, step = .new o → answer = .value (s.operand o).1
  /-- A string that a message answers is new, except for the text of a string. -/
  sent : ∀ receiver sel args v same, step = .send receiver sel args → answer = .sent v same → v.kind = .string →
    ¬ Context.AsksItself (sel.resolve mc).2 (s.operand receiver).1 (sel.resolve mc).1 →
    v.NewTo (old ++ (s.operands step.operands).1)
  /-- The text of a string is the string. -/
  itself : ∀ receiver sel, step = .send receiver sel [] →
    Context.AsksItself (sel.resolve mc).2 (s.operand receiver).1 (sel.resolve mc).1 →
    answer = .sent (s.operand receiver).1 true
  decoded : ∀ data v, step = .unmarshal data → answer = .value v → v.kind = .string → v.NewTo old
  /-- The strings of a list are new also to those before them. -/
  decodedAll : ∀ data front v back, step = .unmarshalAll data → answer = .values (front ++ v :: back) →
    v.kind = .string → v.NewTo (old ++ front)
  copied : ∀ o v data equal same, step = .roundTrip o → answer = .roundTrip v data equal same → v.kind = .string →
    v.NewTo (old ++ (s.operands step.operands).1)

/-- What is made next is none of the values that the store has. -/
theorem Keeps.string_newTo (h : Keeps store s) {old : List Value} (hold : ∀ w ∈ old, w.KeptIn store) (bs : Bytes) :
    (Value.string s.fresh bs).NewTo old :=
  Value.newTo_of_length_le (Nat.le_of_eq h.fresh.symm) hold bs

theorem Keeps.after_operands (h : Keeps store s) {old : List Value} (hold : ∀ w ∈ old, w.KeptIn store)
    (os : List Operand) :
    ∃ store', Keeps store' (s.operands os).2 ∧ ∀ w ∈ old ++ (s.operands os).1, w.KeptIn store' := by
  obtain ⟨store', hle, hkeeps, hvs⟩ := h.operands os
  exact ⟨store', hkeeps, Value.forall_mem_append_keptIn hold hle hvs⟩

theorem Keeps.identifies (h : Keeps store s) (hb : mc.Booted) (hi : s.machines[i]? = some mc) {old : List Value}
    (hold : ∀ w ∈ old, w.KeptIn store) (step : Step) : Identifies old s mc step (s.perform i mc step).1.answer where
  constructed front bs back hos := by
    obtain ⟨store', hkeeps, hbefore⟩ := h.after_operands hold front
    have hlength := operands_length front s
    rw [hos, operands_append]
    refine ⟨.string (s.operands front).2.fresh bs, ?_, rfl, ?_⟩
    · rw [← hlength, List.getElem?_append_right (Nat.le_refl _), Nat.sub_self]
      rfl
    · rw [← hlength, List.take_left' rfl]
      exact hkeeps.string_newTo hbefore bs
  recalled front ref back hos := by
    rw [hos, operands_append, ← operands_length front s, List.getElem?_append_right (Nat.le_refl _), Nat.sub_self]
    simp [Session.operands, Session.operand]
  new := by
    rintro o rfl
    rfl
  sent := by
    rintro receiver sel args v same rfl hanswer hstring hother
    obtain ⟨store', hkeeps, hbefore⟩ := h.after_operands hold (receiver :: args)
    have hstores := sent_stores (s := s) hb receiver sel args
    rw [(perform_send hi receiver sel args).1] at hanswer
    generalize s.sent mc receiver sel args = result at hanswer hstores
    cases hstores with
    | @none o _ _ hvalue _ =>
      cases o with
      | value w =>
        cases hanswer
        exact absurd hstring (hvalue v rfl)
      | failure | crash | unfinished => cases hanswer
    | receiver hself => exact absurd hself hother
    | string =>
      cases hanswer
      exact hkeeps.string_newTo hbefore _
  itself := by
    rintro receiver sel rfl hself
    have hself' : (s.sent mc receiver sel []).1 = .value (s.operand receiver).1 :=
      Context.send_itself (resolve_booted hb sel) hself
    rw [(perform_send hi receiver sel []).1, hself']
    simp only [outcomeReply, Value.same_self]
  decoded := by
    rintro data v rfl hanswer hstring
    rcases Wire.unmarshal_cases data with ⟨w, hw⟩ | ⟨err, herr⟩
    · simp only [Session.perform, hw, replyMaking, Answer.value.injEq] at hanswer
      rw [← hanswer, h.fresh] at hstring ⊢
      exact Wire.Envelope.copy_new hold hstring
    · simp only [Session.perform, herr] at hanswer
      cases hanswer
  decodedAll := by
    rintro data front v back rfl hanswer hstring
    rcases Wire.unmarshalAll_cases data with ⟨vs, hvs⟩ | ⟨err, herr⟩
    · simp only [Session.perform, hvs, Answer.values.injEq, h.fresh] at hanswer
      exact Wire.Envelope.copies_new vs hold hanswer hstring
    · simp only [Session.perform, herr] at hanswer
      cases hanswer
  copied := by
    rintro o v data equal same rfl hanswer hstring
    obtain ⟨store', hkeeps, hbefore⟩ := h.after_operands hold [o]
    rcases Wire.unmarshal_cases (Wire.marshal (s.operand o).1) with ⟨w, hw⟩ | ⟨err, herr⟩
    · simp only [Session.perform, hw, replyMaking, Answer.roundTrip.injEq] at hanswer
      obtain ⟨hv, -⟩ := hanswer
      have hfresh : (s.operand o).2.fresh = store'.length := hkeeps.fresh
      rw [← hv, hfresh] at hstring ⊢
      exact Wire.Envelope.copy_new hbefore hstring
    · simp only [Session.perform, herr] at hanswer
      cases hanswer

theorem start_keeps {nesting : Nat} {options : List Options} (h : start nesting options = .ok s) : Keeps [] s := by
  rw [eq_of_start h]
  exact ⟨rfl, by simp [Made.all]⟩

/-- **Strings have an identity of their own and keep their contents.** Take any steps on any machines that run no
methods but built-ins, and these as messages. Of all values that come up, those that are the same have the same kind and
contents, so that a comparison of contents may stop where it finds the same string; what was made, also the elements of
lists, stays at hand as it was made; and a string that is constructed, answered or decoded is none of the values before
it, except that the text of a string is the string. -/
theorem run_strings {nesting : Nat} {options : List Options} {s : Session} (hstart : start nesting options = .ok s)
    (requests : List Request) (hsteps : ∀ q ∈ requests, q.step.usesBuiltins = true) :
    (∀ v ∈ s.history requests, ∀ w ∈ s.history requests,
      (v.same w = true → v.equal w = true ∧ v = w) ∧ v.quickEqual w = v.equal w) ∧
    (∀ before after, requests = before ++ after →
      (s.run before).2.made = (s.run before).1.map Reply.made ∧ (s.run before).2.made <+: (s.run requests).2.made) ∧
    ∀ before q after mc, requests = before ++ q :: after → (s.run before).2.machines[q.machine]? = some mc →
      ∃ r, (s.run requests).1[before.length]? = some r ∧
        Identifies (s.history before) (s.run before).2 mc q.step r.answer := by
  have hkeeps := start_keeps hstart
  have hsound := start_sound hstart
  have hempty : s.made = [] := by rw [eq_of_start hstart]
  refine ⟨?_, ?_, ?_⟩
  · intro v hv w hw
    obtain ⟨-, store, -, -, hvs⟩ := hkeeps.run hsteps hsound
    refine ⟨fun hsame => ?_, (hvs v hv).quickEqual_eq (hvs w hw)⟩
    obtain rfl := (hvs v hv).eq_of_same (hvs w hw) hsame
    exact ⟨Value.equal_refl v, rfl⟩
  · rintro before after rfl
    obtain ⟨hbefore, hafter⟩ := List.forall_mem_append.mp hsteps
    obtain ⟨hmade, store, -, hstore, -⟩ := hkeeps.run hbefore hsound
    have hsound' := hsound.run fun q hq => Step.keepsTables_of_usesBuiltins (hbefore q hq)
    rw [hempty, List.nil_append] at hmade
    refine ⟨hmade, ?_⟩
    rw [run_append, (hstore.run hafter hsound').1]
    exact List.prefix_append _ _
  · rintro before q after mc rfl hi
    obtain ⟨hbefore, -⟩ := List.forall_mem_append.mp hsteps
    obtain ⟨-, store, -, hstore, hold⟩ := hkeeps.run hbefore hsound
    have hsound' := hsound.run fun q hq => Step.keepsTables_of_usesBuiltins (hbefore q hq)
    refine ⟨_, run_getElem? before q after _, ?_⟩
    rw [handle_eq hi]
    exact hstore.identifies (hsound'.machine hi) hi hold q.step

/-- Strings on two machines: one is constructed, one is joined, one is cut, one is asked for its text, two are decoded,
and one of these is asked for its text. -/
def mixedStrings : List Request :=
  [⟨0, .new (.string [0x61])⟩, ⟨1, .send (.made (.value 0)) (.name (Bytes.ofString "+")) [.string [0x62]]⟩,
    ⟨0, .send (.made (.value 1)) (.name (Bytes.ofString "[]")) [.fixnum 1, .fixnum 0]⟩,
    ⟨1, .send (.made (.value 1)) (.name (Bytes.ofString "to_s")) []⟩,
    ⟨1, .unmarshalAll (Wire.marshalAll [.string 0 [0x61, 0x62], .string 0 []])⟩,
    ⟨0, .send (.made (.element 4 0)) (.name (Bytes.ofString "to_s")) []⟩]

theorem run_strings_joined_and_decoded :
    let s : Session := ⟨[.boot .empty false, .boot .empty true], [], [], 0, 0, []⟩
    start 0 [.default, ⟨0, true⟩] = .ok s ∧ (∀ q ∈ mixedStrings, q.step.usesBuiltins = true) ∧
      (s.run mixedStrings).2.made.map (fun m => m.values.map Value.text) =
        [[[0x61]], [[0x61, 0x62]], [[]], [[0x61, 0x62]], [[], [0x61, 0x62], []], [[0x61, 0x62]]] ∧
      (∃ v r, (s.run mixedStrings).1[1]? = some r ∧ r.answer = .sent v false ∧ v.bytes? = some [0x61, 0x62] ∧
        v.NewTo (s.history (mixedStrings.take 1) ++ [.string 0 [0x61], .string 1 [0x62]])) ∧
      (∃ v r, (s.run mixedStrings).1[3]? = some r ∧ r.answer = .sent v true ∧ v.bytes? = some [0x61, 0x62]) ∧
      (∃ v w r, (s.run mixedStrings).1[4]? = some r ∧ r.answer = .values [v, w] ∧ w.bytes? = some [] ∧
        w.NewTo (s.history (mixedStrings.take 4) ++ [v])) ∧
      ∃ v r, (s.run mixedStrings).1[5]? = some r ∧ r.answer = .sent v true ∧ v.bytes? = some [0x61, 0x62] := by
  intro s
  have hstart : start 0 [.default, ⟨0, true⟩] = .ok s := rfl
  have hsteps : ∀ q ∈ mixedStrings, q.step.usesBuiltins = true := by decide
  obtain ⟨-, -, hstrings⟩ := run_strings hstart mixedStrings hsteps
  obtain ⟨joined, hjoined, hjoined'⟩ := hstrings (mixedStrings.take 1) _ _ _ rfl rfl
  obtain ⟨asked, hasked, hasked'⟩ := hstrings (mixedStrings.take 3) _ _ _ rfl rfl
  obtain ⟨decoded, hdecoded, hdecoded'⟩ := hstrings (mixedStrings.take 4) _ _ _ rfl rfl
  obtain ⟨element, helement, helement'⟩ := hstrings (mixedStrings.take 5) _ _ _ rfl rfl
  have hjoinedAnswer : joined.answer = .sent (.string 2 [0x61, 0x62]) false := by cases hjoined; rfl
  have hdecodedAnswer : decoded.answer = .values ([.string 4 [0x61, 0x62]] ++ .string 5 [] :: []) := by
    cases hdecoded
    rfl
  refine ⟨hstart, hsteps, rfl, ⟨_, _, hjoined, hjoinedAnswer, rfl, ?_⟩,
    ⟨_, _, hasked, hasked'.itself _ _ rfl ⟨rfl, rfl⟩, rfl⟩, ⟨_, _, _, hdecoded, hdecodedAnswer, rfl, ?_⟩,
    ⟨_, _, helement, helement'.itself _ _ rfl ⟨rfl, rfl⟩, rfl⟩⟩
  · exact hjoined'.sent _ _ _ _ _ rfl hjoinedAnswer rfl (fun h => absurd h.2 (by decide))
  · exact hdecoded'.decodedAll _ _ _ _ rfl hdecodedAnswer rfl

end Session

end Dispatch
