/-
Machines share nothing but storage. In a session of many machines, a step on one of them changes that machine,
makes strings, and adds to the values at hand, which other machines may be sent later. `Session.run_alone`
compares the run with one in which there is a single machine, the steps of the others are left out, and all
values of the whole run are at hand from the start: the machine comes to be the same, and it answers and logs
the same, but for where its new strings are kept.

The comparison goes step by step (`Beside.perform`). In the middle of a step the two sessions have given out as
much storage since its beginning (`Abreast`), and what they look at has been moved by that much.
-/
import Dispatch.Proofs.Storage

namespace Dispatch

/-! ## Steps on one machine -/

/-- A reference to a step that has not been done stands for nil. -/
def Operand.known (now : Nat) : Operand → Operand
  | .made ref => if ref.step < now then .made ref else .nil
  | o => o

/-- Steps that make or decode values, or that concern one machine as it was made. -/
def Step.isOwn : Step → Bool
  | .new _ => true
  | .send _ _ _ => true
  | .respondsTo _ _ => true
  | .selectors _ => true
  | .intern none _ => true
  | .findSymbol none _ => true
  | .symbolName none _ => true
  | .symbols none => true
  | .unmarshal _ => true
  | .unmarshalAll _ => true
  | _ => false

def Step.known (now : Nat) : Step → Step
  | .new v => .new (v.known now)
  | .send receiver selector args => .send (receiver.known now) selector (args.map (Operand.known now))
  | step => step

/-- The symbol that a selector means in a machine, and the machine then. -/
def Selector.resolve (mc : Machine) : Selector → Symbol × Machine
  | .symbol s => (s, mc)
  | .name n => ((mc.symbols.intern n).1, mc.intern n)

theorem Step.keepsTables_of_isOwn {step : Step} (h : step.isOwn = true) : step.keepsTables = true := by
  cases step with
  | install => cases h
  | _ => rfl

/-! ## Replies with their strings moved -/

def Answer.moved (base target : Nat) : Answer → Answer
  | .value v => .value (v.moved base target)
  | .facts v => .facts (v.moved base target)
  | .values vs => .values (vs.map (Value.moved base target))
  | .sent v same => .sent (v.moved base target) same
  | .failure e beside => .failure e (beside.moved base target)
  | .roundTrip v data equal same => .roundTrip (v.moved base target) data equal same
  | answer => answer

/-- The reply with its strings moved; the log and all else stays. -/
def Reply.moved (base target : Nat) (r : Reply) : Reply :=
  ⟨r.answer.moved base target, r.made.moved base target, r.log⟩

namespace Session

variable {base target i : Nat} {s a : Session} {mc : Machine}

theorem outcomeReply_moved (hle : base ≤ target) (r : Value) (log : List LogLine) (o : Outcome) :
    outcomeReply (fun v => .sent v (v.same (r.moved base target))) log (o.moved base target) =
      (outcomeReply (fun v => .sent v (v.same r)) log o).moved base target := by
  cases o with
  | value v =>
    simp only [Outcome.moved, outcomeReply, Reply.moved, Answer.moved, Value.same_moved hle]
    rfl
  | failure | crash | unfinished => rfl

/-! ## Two sessions side by side -/

/-- The values made so far are at hand in both sessions, and both have given out as much storage since the step
began. -/
structure Beside (base target : Nat) (s a : Session) : Prop where
  fresh : Abreast base target s.fresh a.fresh
  made : ∀ k < s.made.length, a.made[k]? = s.made[k]?
  below : ∀ v ∈ Made.all s.made, v.Below base

theorem Beside.set {f f' : Nat} (h : Beside base target s a) (hf : Abreast base target f f') :
    Beside base target { s with fresh := f } { a with fresh := f' } :=
  ⟨hf, h.made, h.below⟩

theorem Beside.operand (h : Beside base target s a) (o : Operand) :
    ∃ v f f', s.operand o = (v, { s with fresh := f }) ∧
      a.operand (o.known s.made.length) = (v.moved base target, { a with fresh := f' }) ∧
      Abreast base target f f' ∧ s.fresh ≤ f ∧ v.Below f := by
  cases o with
  | nil | bool | fixnum => exact ⟨_, _, _, rfl, rfl, h.fresh, Nat.le_refl _, trivial⟩
  | string bytes =>
    refine ⟨_, _, _, rfl, ?_, h.fresh.succ, Nat.le_succ _, Nat.lt_succ_self _⟩
    rw [Value.moved_string h.fresh]
    rfl
  | made ref =>
    by_cases hk : ref.step < s.made.length
    · have hsame : ref.resolve a.made = ref.resolve s.made := Reference.resolve_congr (h.made ref.step hk)
      have hbelow : (ref.resolve s.made).Below base := by
        rcases Reference.resolve_cases s.made ref with hnil | hmem
        · rw [hnil]
          trivial
        · exact h.below _ hmem
      refine ⟨ref.resolve s.made, s.fresh, a.fresh, rfl, ?_, h.fresh, Nat.le_refl _, hbelow.mono h.fresh.base_le⟩
      simp only [Operand.known, if_pos hk, Session.operand, hsame, Value.moved_of_below hbelow]
    · refine ⟨.nil, s.fresh, a.fresh, ?_, ?_, h.fresh, Nat.le_refl _, trivial⟩
      · simp only [Session.operand, Reference.resolve_of_le (Nat.le_of_not_lt hk)]
      · simp [Operand.known, hk, Session.operand, Value.moved]

theorem Beside.operands (h : Beside base target s a) (os : List Operand) :
    ∃ vs f f', s.operands os = (vs, { s with fresh := f }) ∧
      a.operands (os.map (Operand.known s.made.length)) = (vs.map (Value.moved base target), { a with fresh := f' }) ∧
      Abreast base target f f' ∧ s.fresh ≤ f := by
  induction os generalizing s a with
  | nil => exact ⟨[], s.fresh, a.fresh, rfl, rfl, h.fresh, Nat.le_refl _⟩
  | cons o os ih =>
    obtain ⟨v, f, f', hv, hv', hf, hle, -⟩ := h.operand o
    obtain ⟨vs, g, g', hvs, hvs', hg, hle'⟩ := ih (h.set hf)
    refine ⟨v :: vs, g, g', ?_, ?_, hg, Nat.le_trans hle hle'⟩
    · simp only [Session.operands, hv, hvs]
    · simp only [List.map_cons, Session.operands, hv', hvs']

theorem set_of_getElem? (hi : s.machines[i]? = some mc) : s.machines.set i mc = s.machines := by
  obtain ⟨hlt, rfl⟩ := List.getElem?_eq_some_iff.mp hi
  exact List.set_getElem_self hlt

theorem selector_eq (hi : s.machines[i]? = some mc) (sel : Selector) :
    s.selector i mc sel =
      ((sel.resolve mc).1, (sel.resolve mc).2, { s with machines := s.machines.set i (sel.resolve mc).2 }) := by
  cases sel with
  | symbol sym => simp only [Session.selector, Selector.resolve, set_of_getElem? hi]
  | name n => rfl

/-- Both sessions took the same step: the machine came to be the same, and the replies are the same but for new
strings. -/
def InStep (base target i : Nat) (s a : Session) (result result' : Reply × Session) : Prop :=
  ∃ r mc f f', result = (r, { s with machines := s.machines.set i mc, fresh := f }) ∧
    result' = (r.moved base target, { a with machines := [mc], fresh := f' }) ∧
    Abreast base target f f' ∧ ∀ v ∈ r.made.values, v.Below f

theorem Beside.send (h : Beside base target s a) (hle : base ≤ target) (hi : s.machines[i]? = some mc)
    (ha : a.machines = [mc]) (hb : mc.Booted) (receiver : Operand) (sel : Selector) (args : List Operand) :
    InStep base target i s a (s.perform i mc (.send receiver sel args))
      (a.perform 0 mc ((Step.send receiver sel args).known s.made.length)) := by
  have hi' : a.machines[0]? = some mc := by rw [ha]; rfl
  obtain ⟨r, f, f', hr, hr', hf, -, hbelow⟩ := h.operand receiver
  obtain ⟨vs, g, g', hvs, hvs', hg, hfg⟩ := (h.set hf).operands args
  have hselector := selector_eq (s := { s with fresh := g }) hi sel
  have hselector' := selector_eq (s := { a with fresh := g' }) hi' sel
  have hb' : (sel.resolve mc).2.Booted := by
    cases sel with
    | symbol => exact hb
    | name n => exact hb.intern n
  generalize (sel.resolve mc).1 = sym at hselector hselector'
  generalize (sel.resolve mc).2 = mc' at hselector hselector' hb'
  -- Now both machines send the same symbol, each in its own context.
  have hshifted : Context.Shifted base target ⟨mc', s.nesting, g, s.made, []⟩ ⟨mc', a.nesting, g', a.made, []⟩ := ⟨rfl, rfl, hg⟩
  obtain ⟨houtcome, hcontext⟩ := hshifted.send hb' r sym vs
  have hfresh := Context.send_below (c := ⟨mc', s.nesting, g, s.made, []⟩) hb' (hbelow.mono hfg) sym vs
  generalize hsent : Context.send ⟨mc', s.nesting, g, s.made, []⟩ r sym vs = sent at houtcome hcontext hfresh
  obtain ⟨o, c⟩ := sent
  refine ⟨outcomeReply (fun v => .sent v (v.same r)) c.log o, c.machine, c.fresh, _, ?_, ?_, hcontext.fresh, ?_⟩
  · simp only [Session.perform, hr, hvs, hselector, context, hsent, Session.after, setMachine, List.set_set]
  · simp only [Step.known, Session.perform, hr', hvs', hselector', context, Session.after, setMachine, houtcome,
      hcontext.machine, hcontext.log, outcomeReply_moved hle]
    rw [ha]
    rfl
  · cases o with
    | value v => simpa [outcomeReply] using hfresh.2 v rfl
    | failure | crash | unfinished => simp [outcomeReply]

theorem Beside.perform (h : Beside base target s a) (hle : base ≤ target) (hi : s.machines[i]? = some mc)
    (ha : a.machines = [mc]) (hb : mc.Booted) {step : Step} (hown : step.isOwn = true) :
    InStep base target i s a (s.perform i mc step) (a.perform 0 mc (step.known s.made.length)) := by
  have hset := set_of_getElem? hi
  have hi' : a.machines[0]? = some mc := by rw [ha]; rfl
  -- Steps that leave both sessions as they are.
  have still : ∀ {r : Reply}, s.perform i mc step = (r, s) →
      a.perform 0 mc (step.known s.made.length) = (r.moved base target, a) → r.made = .nothing →
      InStep base target i s a (s.perform i mc step) (a.perform 0 mc (step.known s.made.length)) := by
    intro r hs has hmade
    refine ⟨r, mc, s.fresh, a.fresh, ?_, ?_, h.fresh, ?_⟩
    · rw [hs, hset]
    · rw [has, ← ha]
    · simp [hmade]
  cases step with
  | new v =>
    obtain ⟨v', f, f', hv, hv', hf, -, hbelow⟩ := h.operand v
    refine ⟨replyMaking (.value v') v', mc, f, f', ?_, ?_, hf, by simpa [replyMaking] using hbelow⟩
    · simp only [Session.perform, hv, hset]
    · simp only [Step.known, Session.perform, hv', ← ha]
      rfl
  | send receiver sel args => exact h.send hle hi ha hb receiver sel args
  | respondsTo kind sel =>
    refine ⟨reply (.truth (kind.any fun k => (sel.resolve mc).2.respondsTo k (sel.resolve mc).1)), (sel.resolve mc).2,
      s.fresh, a.fresh, ?_, ?_, h.fresh, by simp [reply]⟩
    · simp only [Session.perform, selector_eq hi]
    · simp only [Step.known, Session.perform, selector_eq hi', ha]
      rfl
  | selectors kind => exact still rfl rfl rfl
  | intern table name =>
    cases table with
    | some => cases hown
    | none =>
      refine ⟨reply (.interned (mc.symbols.intern name).1 (mc.intern name).symbols.size), mc.intern name, s.fresh,
        a.fresh, rfl, ?_, h.fresh, by simp [reply]⟩
      simp only [Step.known, Session.perform, symbolTable?, setSymbolTable, setMachine, ha]
      rfl
  | findSymbol table name =>
    cases table with
    | some => cases hown
    | none => exact still rfl rfl rfl
  | symbolName table sym =>
    cases table with
    | some => cases hown
    | none => exact still rfl rfl rfl
  | symbols table =>
    cases table with
    | some => cases hown
    | none => exact still rfl rfl rfl
  | unmarshal data =>
    rcases Wire.unmarshal_cases data with ⟨v, hv⟩ | ⟨err, herr⟩
    · obtain ⟨hmoved, hf⟩ := Wire.Envelope.copy_moved h.fresh v
      refine ⟨replyMaking (.value (Wire.Envelope.copy s.fresh v).1) (Wire.Envelope.copy s.fresh v).1, mc, _, _, ?_, ?_,
        hf, by simpa [replyMaking] using Wire.Envelope.copy_below s.fresh v⟩
      · simp only [Session.perform, hv, hset]
      · simp only [Step.known, Session.perform, hv, hmoved, ← ha]
        rfl
    · refine still (r := reply (.transferError err)) ?_ ?_ rfl
      · simp only [Session.perform, herr]
      · simp only [Step.known, Session.perform, herr]
        rfl
  | unmarshalAll data =>
    rcases Wire.unmarshalAll_cases data with ⟨vs, hvs⟩ | ⟨err, herr⟩
    · obtain ⟨hmoved, hf⟩ := Wire.Envelope.copies_moved h.fresh vs
      have hbelow := (Wire.Envelope.copies_below vs s.fresh).2
      refine ⟨⟨.values (Wire.Envelope.copies s.fresh vs).1, .list (Wire.Envelope.copies s.fresh vs).1, []⟩, mc, _, _, ?_,
        ?_, hf, by simpa using hbelow⟩
      · simp only [Session.perform, hvs, hset]
      · simp only [Step.known, Session.perform, hvs, hmoved, ← ha]
        rfl
    · refine still (r := reply (.transferError err)) ?_ ?_ rfl
      · simp only [Session.perform, herr]
      · simp only [Step.known, Session.perform, herr]
        rfl
  | _ => cases hown

/-! ## What a request leaves -/

/-- Every value at hand is kept in storage that has been given out. -/
def Stored (s : Session) : Prop := ∀ v ∈ Made.all s.made, v.Below s.fresh

/-- Storage is not taken back, and values stay at hand under their numbers. -/
structure Grows (s s' : Session) : Prop where
  fresh : s.fresh ≤ s'.fresh
  made : s.made <+: s'.made

theorem Grows.refl (s : Session) : Grows s s := ⟨Nat.le_refl _, List.prefix_rfl⟩

theorem Grows.trans {s₁ s₂ s₃ : Session} (h : Grows s₁ s₂) (h' : Grows s₂ s₃) : Grows s₁ s₃ :=
  ⟨Nat.le_trans h.fresh h'.fresh, h.made.trans h'.made⟩

/-- A request changes its machine only. -/
structure Leaves (i : Nat) (s s' : Session) : Prop where
  others : ∀ j ≠ i, s'.machines[j]? = s.machines[j]?
  fresh : s.fresh ≤ s'.fresh
  made : ∃ m, s'.made = s.made ++ [m]
  stored : s'.Stored

theorem Leaves.grows {s' : Session} (h : Leaves i s s') : Grows s s' := by
  obtain ⟨m, hm⟩ := h.made
  exact ⟨h.fresh, hm ▸ List.prefix_append _ _⟩

theorem Leaves.made_length {s' : Session} (h : Leaves i s s') : s'.made.length = s.made.length + 1 := by
  obtain ⟨m, hm⟩ := h.made
  simp [hm]

theorem Stored.snoc {m : Made} {f : Nat} {machines : List Machine} (h : s.Stored) (hle : s.fresh ≤ f)
    (hm : ∀ v ∈ m.values, v.Below f) : Stored { s with machines, fresh := f, made := s.made ++ [m] } := by
  intro w hw
  rw [Made.all_snoc] at hw
  rcases List.mem_append.mp hw with hold | hnew
  · exact (h w hold).mono hle
  · exact hm w hnew

theorem handle_leaves (hs : s.Sound) (hstored : s.Stored) {q : Request} (hown : q.step.isOwn = true) :
    Leaves q.machine s (s.handle q).2 := by
  simp only [Session.handle]
  cases hi : s.machines[q.machine]? with
  | none =>
    refine ⟨fun _ _ => rfl, Nat.le_refl _, ⟨_, rfl⟩, hstored.snoc (Nat.le_refl _) ?_⟩
    simp [reply]
  | some mc =>
    -- The session beside a copy of itself with this one machine.
    have hbeside : Beside s.fresh s.fresh s ⟨[mc], [], [], s.nesting, s.fresh, s.made⟩ :=
      ⟨.start _ _, fun _ _ => rfl, hstored⟩
    obtain ⟨r, mc', f, f', hp, -, hf, hr⟩ := hbeside.perform (Nat.le_refl _) hi rfl (hs.machine hi) hown
    simp only [hp]
    exact ⟨fun j hj => List.getElem?_set_ne hj.symm, hf.base_le, ⟨_, rfl⟩, hstored.snoc hf.base_le hr⟩

/-! ## Runs -/

theorem run_length (requests : List Request) : ∀ s : Session, (s.run requests).1.length = requests.length := by
  induction requests with
  | nil => exact fun _ => rfl
  | cons q qs ih => exact fun s => congrArg (· + 1) (ih _)

theorem run_append (before after : List Request) : ∀ s : Session,
    (s.run (before ++ after)).2 = ((s.run before).2.run after).2 := by
  induction before with
  | nil => exact fun _ => rfl
  | cons q qs ih => exact fun s => ih _

/-- The reply to a request in the middle of a run is that of the session there. -/
theorem run_getElem? (before : List Request) (q : Request) (rest : List Request) : ∀ s : Session,
    (s.run (before ++ q :: rest)).1[before.length]? = some ((s.run before).2.handle q).1 := by
  induction before with
  | nil => exact fun _ => rfl
  | cons q' qs ih => exact fun s => ih _

theorem run_leaves {requests : List Request} (hown : ∀ q ∈ requests, q.step.isOwn = true) :
    ∀ {s : Session}, s.Sound → s.Stored → Grows s (s.run requests).2 ∧ (s.run requests).2.Sound ∧
      (s.run requests).2.Stored ∧ (s.run requests).2.made.length = s.made.length + requests.length := by
  induction requests with
  | nil => exact fun hs hstored => ⟨.refl _, hs, hstored, rfl⟩
  | cons q qs ih =>
    intro s hs hstored
    have hq := hown q List.mem_cons_self
    have hleaves := handle_leaves hs hstored hq
    have hs' := hs.handle (Step.keepsTables_of_isOwn hq)
    obtain ⟨hgrows, hsound, hstored', hlength⟩ :=
      ih (fun q' hq' => hown q' (List.mem_cons_of_mem q hq')) hs' hleaves.stored
    refine ⟨hleaves.grows.trans hgrows, hsound, hstored', ?_⟩
    rw [hleaves.made_length] at hlength
    simp only [Session.run, List.length_cons]
    omega

/-! ## A machine by itself -/

/-- The requests to the `i`th machine, for a session in which it is the only one; `now` requests were made before. -/
def requestsFor (i : Nat) : (now : Nat) → List Request → List Request
  | _, [] => []
  | now, q :: qs =>
    if q.machine = i then ⟨0, q.step.known now⟩ :: requestsFor i (now + 1) qs else requestsFor i (now + 1) qs

/-- A session to which the values of another are at hand. -/
def given (s final : Session) : Session := { s with fresh := final.fresh, made := final.made }

theorem requestsFor_append (i : Nat) (before after : List Request) : ∀ now,
    requestsFor i now (before ++ after) = requestsFor i now before ++ requestsFor i (now + before.length) after := by
  induction before with
  | nil => exact fun _ => rfl
  | cons q qs ih =>
    intro now
    have hnow : now + (q :: qs).length = now + 1 + qs.length := by simp only [List.length_cons]; omega
    simp only [List.cons_append, requestsFor, ih, hnow]
    split <;> rfl

theorem requestsFor_split {q : Request} (hq : q.machine = i) (now : Nat) (before rest : List Request) :
    requestsFor i now (before ++ q :: rest) = requestsFor i now before ++
      ⟨0, q.step.known (now + before.length)⟩ :: requestsFor i (now + before.length + 1) rest := by
  rw [requestsFor_append]
  simp only [requestsFor, if_pos hq]

/-- The session `a` of one machine keeps up with the `i`th machine of `s`, and has been given all that the run will
come to hold in the end. -/
structure Alongside (i : Nat) (final s a : Session) : Prop where
  machine : ∃ mc, s.machines[i]? = some mc ∧ a.machines = [mc]
  given : Grows final a

variable {final : Session} {q : Request}

theorem Alongside.other (h : Alongside i final s a) (hs : s.Sound) (hstored : s.Stored) (hown : q.step.isOwn = true)
    (hq : q.machine ≠ i) : Alongside i final (s.handle q).2 a := by
  obtain ⟨mc, hi, ha⟩ := h.machine
  exact ⟨⟨mc, ((handle_leaves hs hstored hown).others i hq.symm).trans hi, ha⟩, h.given⟩

theorem Alongside.own (h : Alongside i final s a) (hs : s.Sound) (hstored : s.Stored) (hfinal : Grows s final)
    (hown : q.step.isOwn = true) (hq : q.machine = i) :
    (a.handle ⟨0, q.step.known s.made.length⟩).1 = (s.handle q).1.moved s.fresh a.fresh ∧
      Alongside i final (s.handle q).2 (a.handle ⟨0, q.step.known s.made.length⟩).2 := by
  obtain ⟨mc, hi, ha⟩ := h.machine
  have hgrows := hfinal.trans h.given
  have hbeside : Beside s.fresh a.fresh s a := by
    refine ⟨.start _ _, fun k hk => ?_, hstored⟩
    obtain ⟨others, hothers⟩ := hgrows.made
    rw [← hothers, List.getElem?_append_left hk]
  obtain ⟨r, mc', f, f', hp, hp', hf, -⟩ := hbeside.perform hgrows.fresh hi ha (hs.machine hi) hown
  have hlt : i < s.machines.length := (List.getElem?_eq_some_iff.mp hi).1
  have hi' : a.machines[0]? = some mc := by rw [ha]; rfl
  subst hq
  simp only [Session.handle, hi, hi', hp, hp']
  refine ⟨trivial, ⟨mc', ?_, rfl⟩, h.given.trans ⟨?_, List.prefix_append _ _⟩⟩
  · exact List.getElem?_set_self hlt
  · exact hf.target_le

theorem Alongside.run {requests : List Request} (hown : ∀ q ∈ requests, q.step.isOwn = true) :
    ∀ {s a : Session}, Alongside i final s a → s.Sound → s.Stored → Grows (s.run requests).2 final →
      Alongside i final (s.run requests).2 (a.run (requestsFor i s.made.length requests)).2 := by
  induction requests with
  | nil => exact fun h _ _ _ => h
  | cons q qs ih =>
    intro s a h hs hstored hfinal
    have hq := hown q List.mem_cons_self
    have hqs : ∀ q' ∈ qs, q'.step.isOwn = true := fun q' hq' => hown q' (List.mem_cons_of_mem q hq')
    have hleaves := handle_leaves hs hstored hq
    have hs' := hs.handle (Step.keepsTables_of_isOwn hq)
    have hrest := (run_leaves hqs hs' hleaves.stored).1
    by_cases hi : q.machine = i
    · obtain ⟨-, h'⟩ := h.own hs hstored (hleaves.grows.trans (hrest.trans hfinal)) hq hi
      simp only [requestsFor, if_pos hi, ← hleaves.made_length]
      exact ih hqs h' hs' hleaves.stored hfinal
    · simp only [requestsFor, if_neg hi, ← hleaves.made_length]
      exact ih hqs (h.other hs hstored hq hi) hs' hleaves.stored hfinal

/-- **Isolation.** Let the requests to all other machines be left out and the values of the whole run be given: then
the machine, which can be made alone, comes to be the same, symbol table and all, and to each of its requests it
replies and logs the same, but that strings which were not at hand before the request are kept elsewhere. -/
theorem run_alone {nesting : Nat} {options : List Options} {s : Session} (hstart : start nesting options = .ok s)
    (requests : List Request) (hown : ∀ q ∈ requests, q.step.isOwn = true) (i : Nat) (o : Options)
    (hi : options[i]? = some o) :
    ∃ a, start nesting [o] = .ok a ∧
      let full := s.run requests
      let solo := (a.given full.2).run (requestsFor i 0 requests)
      (∃ mc, full.2.machines[i]? = some mc ∧ solo.2.machines = [mc]) ∧
        solo.1.length = (requestsFor i 0 requests).length ∧
        ∀ before q rest, requests = before ++ q :: rest → q.machine = i →
          ∃ r base target, full.1[before.length]? = some r ∧
            solo.1[(requestsFor i 0 before).length]? = some (r.moved base target) ∧
            base ≤ target ∧ ∀ v ∈ Made.all (s.run before).2.made, v.Below base := by
  have hs := start_sound hstart
  have heq := eq_of_start hstart
  have hempty : s.made = [] := by rw [heq]
  have hstored : s.Stored := by simp [Stored, hempty, Made.all]
  have hroom : ∀ o' ∈ [o], o'.symbolCapacity ≤ SymbolTable.maxCapacity := by
    simpa using roomy_of_start hstart o (List.mem_of_getElem? hi)
  refine ⟨_, (start_eq nesting [o]).trans (if_pos hroom), ?_⟩
  intro full solo
  have halong : Alongside i full.2 s (Session.given ⟨[.boot .empty o.trace], [], [], nesting, 0, []⟩ full.2) := by
    refine ⟨⟨.boot .empty o.trace, ?_, rfl⟩, ⟨Nat.le_refl _, List.prefix_rfl⟩⟩
    simp [heq, hi]
  have hrun := halong.run hown hs hstored (.refl _)
  rw [hempty] at hrun
  refine ⟨hrun.machine, run_length _ _, ?_⟩
  rintro before q rest rfl hq
  have hown_before : ∀ q' ∈ before, q'.step.isOwn = true := fun q' hq' => hown q' (List.mem_append_left _ hq')
  have hown_rest : ∀ q' ∈ q :: rest, q'.step.isOwn = true := fun q' hq' => hown q' (List.mem_append_right _ hq')
  -- Where the request comes, the two sessions still stand alongside each other.
  obtain ⟨-, hs', hstored', hlength⟩ := run_leaves hown_before hs hstored
  have hfinal : Grows (s.run before).2 full.2 := by
    rw [show full.2 = _ from run_append before (q :: rest) s]
    exact (run_leaves hown_rest hs' hstored').1
  have hthere := halong.run hown_before hs hstored hfinal
  rw [hempty] at hthere hlength
  obtain ⟨hreply, -⟩ := hthere.own hs' hstored' hfinal (hown_rest q List.mem_cons_self) hq
  rw [hlength] at hreply
  refine ⟨_, _, _, run_getElem? before q rest _, ?_, (hfinal.trans hthere.given).fresh, hstored'⟩
  simp only [solo, requestsFor_split hq, ← hreply]
  exact run_getElem? _ _ _ _

/-- Two machines: one interns a name that the other has not and makes a string, of which the other makes another; then
one decodes a list, and the other is sent an element of it. -/
def crossing : List Request :=
  [⟨0, .intern none (Bytes.ofString "twice")⟩, ⟨0, .new (.string [0x61])⟩,
    ⟨1, .send (.made (.value 1)) (.name (Bytes.ofString "+")) [.made (.value 1)]⟩,
    ⟨0, .send (.made (.value 2)) (.name (Bytes.ofString "twice")) []⟩,
    ⟨0, .unmarshalAll (Wire.marshalAll [.nil, .string 0 [0x62]])⟩,
    ⟨1, .send (.made (.element 4 1)) (.name (Bytes.ofString "once")) []⟩]

theorem run_alone_crossing :
    let s : Session := ⟨[.boot .empty false, .boot .empty true], [], [], 0, 0, []⟩
    let a : Session := ⟨[.boot .empty true], [], [], 0, 0, []⟩
    let full := s.run crossing
    let solo := (a.given full.2).run (requestsFor 1 0 crossing)
    start 0 [.default, ⟨0, true⟩] = .ok s ∧ (∀ q ∈ crossing, q.step.isOwn = true) ∧
      [Options.default, ⟨0, true⟩][1]? = some ⟨0, true⟩ ∧ start 0 [⟨0, true⟩] = .ok a ∧
      (∃ mc, full.2.machines[1]? = some mc ∧ solo.2.machines = [mc]) ∧ solo.1.length = 2 ∧
      (∃ r base target, full.1[2]? = some r ∧ solo.1[0]? = some (r.moved base target) ∧ base ≤ target ∧
        ∀ v ∈ [Value.nil, .string 0 [0x61]], v.Below base) ∧
      ∃ r base target, full.1[5]? = some r ∧ solo.1[1]? = some (r.moved base target) ∧ base ≤ target ∧
        (Value.string 2 [0x62]).Below base := by
  intro s a
  have hstart : start 0 [.default, ⟨0, true⟩] = .ok s := rfl
  have halone : start 0 [⟨0, true⟩] = .ok a := rfl
  have hown : ∀ q ∈ crossing, q.step.isOwn = true := by decide
  obtain ⟨a', ha', hmachine, hlength, hreplies⟩ := run_alone hstart crossing hown 1 ⟨0, true⟩ rfl
  obtain rfl : a = a' := Except.ok.inj (halone.symm.trans ha')
  obtain ⟨r, base, target, hr, hr', hle, hbelow⟩ := hreplies (crossing.take 5) _ _ rfl rfl
  refine ⟨hstart, hown, rfl, halone, hmachine, hlength, hreplies (crossing.take 2) _ _ rfl rfl, r, base, target, hr, hr',
    hle, hbelow _ ?_⟩
  decide

end Session

end Dispatch
