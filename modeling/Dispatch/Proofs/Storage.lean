/-
Where strings are kept. Storage is given out in ascending order, so the strings that are there before a step
lie below a bound, and those that the step makes lie at it and beyond (`Value.Below`). To do the step with other
storage free is to move its new strings and nothing else (`Value.moved`): since strings stay apart, what is
the same value stays the same, and so does every content.
-/
import Dispatch.Proofs.BuiltinEndings
import Dispatch.Proofs.EqualValues
import Dispatch.Proofs.ListDecoding

namespace Dispatch

/-- The storage `f` lies as far beyond `base` as `f'` lies beyond `target`. -/
def Abreast (base target f f' : Nat) : Prop := ∃ offset, f = base + offset ∧ f' = target + offset

theorem Abreast.start (base target : Nat) : Abreast base target base target := ⟨0, rfl, rfl⟩

theorem Abreast.succ {base target f f' : Nat} (h : Abreast base target f f') :
    Abreast base target (f + 1) (f' + 1) := by
  obtain ⟨offset, rfl, rfl⟩ := h
  exact ⟨offset + 1, rfl, rfl⟩

theorem Abreast.base_le {base target f f' : Nat} (h : Abreast base target f f') : base ≤ f := by
  obtain ⟨offset, rfl, -⟩ := h
  exact Nat.le_add_right base offset

theorem Abreast.target_le {base target f f' : Nat} (h : Abreast base target f f') : target ≤ f' := by
  obtain ⟨offset, -, rfl⟩ := h
  exact Nat.le_add_right target offset

namespace Value

/-- A value that is no string kept at `bound` or beyond. -/
def Below (bound : Nat) : Value → Prop
  | .string storage _ => storage < bound
  | _ => True

/-- The value with its storage moved, from `base` and beyond to `target` and beyond. -/
def moved (base target : Nat) : Value → Value
  | .string storage bs => .string (if storage < base then storage else target + (storage - base)) bs
  | v => v

variable {base target bound : Nat} {v w : Value}

theorem Below.mono {bound' : Nat} (h : v.Below bound) (hle : bound ≤ bound') : v.Below bound' := by
  cases v with
  | string storage bs => exact Nat.lt_of_lt_of_le h hle
  | nil | bool | fixnum => trivial

@[simp] theorem below_nil (bound : Nat) : Value.nil.Below bound := trivial

theorem below_of_kind (h : v.kind ≠ .string) (bound : Nat) : v.Below bound := by
  cases v with
  | string => exact absurd rfl h
  | nil | bool | fixnum => trivial

theorem moved_of_below (h : v.Below base) : v.moved base target = v := by
  cases v with
  | string storage bs => simp only [moved, if_pos (show storage < base from h)]
  | nil | bool | fixnum => rfl

theorem moved_string {f f' : Nat} (h : Abreast base target f f') (bs : Bytes) :
    (Value.string f bs).moved base target = .string f' bs := by
  obtain ⟨offset, rfl, rfl⟩ := h
  have hge : ¬ base + offset < base := by omega
  simp only [moved, if_neg hge, Nat.add_sub_cancel_left]

@[simp] theorem kind_moved : (v.moved base target).kind = v.kind := by
  cases v <;> rfl

theorem equal_moved : v.equal (v.moved base target) = true := by
  cases v <;> simp [moved, equal]

/-- Moving storage up keeps different strings apart. -/
theorem same_moved (h : base ≤ target) : (v.moved base target).same (w.moved base target) = v.same w := by
  cases v <;> cases w <;> simp only [moved, same]
  next a _ b _ =>
    rw [Bool.eq_iff_iff, beq_iff_eq, beq_iff_eq]
    split <;> split <;> omega

theorem equalAll_moved (args : List Value) : Builtin.EqualAll args (args.map (moved base target)) := by
  induction args with
  | nil => exact .nil
  | cons v vs ih => exact .cons equal_moved ih

end Value

/-! ## What steps made -/

/-- All values that were made at a step. -/
def Made.values (m : Made) : List Value := m.value :: m.elements

@[simp] theorem Made.values_nothing : Made.nothing.values = [.nil] := rfl

@[simp] theorem Made.values_one (v : Value) : (Made.one v).values = [v] := rfl

@[simp] theorem Made.values_list (vs : List Value) : (Made.list vs).values = .nil :: vs := rfl

def Made.moved (base target : Nat) (m : Made) : Made :=
  ⟨m.value.moved base target, m.elements.map (Value.moved base target)⟩

/-- The values that a reference can mean, nil apart. -/
def Made.all (made : List Made) : List Value := made.flatMap Made.values

theorem Made.all_snoc (made : List Made) (m : Made) : Made.all (made ++ [m]) = Made.all made ++ m.values := by
  simp [all]

namespace Reference

variable {made made' : List Made} {ref : Reference}

theorem resolve_congr (h : made'[ref.step]? = made[ref.step]?) : ref.resolve made' = ref.resolve made := by
  simp only [resolve, List.getD_eq_getElem?_getD, h]

/-- A step that has not been done made nothing. -/
theorem resolve_of_le (h : made.length ≤ ref.step) : ref.resolve made = .nil := by
  rw [resolve, List.getD_eq_getElem?_getD, List.getElem?_eq_none h]
  cases ref <;> rfl

theorem resolve_cases (made : List Made) (ref : Reference) :
    ref.resolve made = .nil ∨ ref.resolve made ∈ Made.all made := by
  cases hm : made[ref.step]? with
  | none => exact .inl (resolve_of_le (List.getElem?_eq_none_iff.mp hm))
  | some m =>
    have hpick : ref.resolve made = ref.pick m := by rw [resolve, List.getD_eq_getElem?_getD, hm, Option.getD_some]
    have hmem : ∀ v ∈ m.values, v ∈ Made.all made := fun v hv => List.mem_flatMap.mpr ⟨m, List.mem_of_getElem? hm, hv⟩
    rw [hpick]
    cases ref with
    | value step => exact .inr (hmem _ List.mem_cons_self)
    | element step index =>
      simp only [pick, List.getD_eq_getElem?_getD]
      cases hv : m.elements[index]? with
      | none => exact .inl rfl
      | some v => exact .inr (hmem v (List.mem_cons_of_mem _ (List.mem_of_getElem? hv)))

end Reference

def Outcome.moved (base target : Nat) : Outcome → Outcome
  | .value v => .value (v.moved base target)
  | .failure e beside => .failure e (beside.moved base target)
  | .crash p => .crash p
  | .unfinished => .unfinished

namespace Context

/-- Two contexts that differ in nothing that a built-in looks at but in where free storage begins. -/
structure Shifted (base target : Nat) (c c' : Context) : Prop where
  machine : c'.machine = c.machine
  log : c'.log = c.log
  fresh : Abreast base target c.fresh c'.fresh

variable {base target : Nat} {c c' : Context} {r : Value} {s : Symbol} {args : List Value}

theorem Shifted.traced (h : Shifted base target c c') (r : Value) (s : Symbol) (args : List Value) :
    Shifted base target (c.traced r s args)
      (c'.traced (r.moved base target) s (args.map (Value.moved base target))) := by
  refine ⟨h.machine, ?_, h.fresh⟩
  simp only [Context.traced, h.machine, h.log, Value.kind_moved, List.length_map]

/-- Two ends that differ in where new strings are kept. -/
structure Moved (base target : Nat) (result result' : Outcome × Context) : Prop where
  outcome : result'.1 = result.1.moved base target
  context : Shifted base target result.2 result'.2

/-- A built-in that is run with other storage free moves its new string. -/
theorem Shifted.run {b : Builtin} (h : Shifted base target c c') (hr : r.kind = b.kind) (args : List Value)
    (answer answer') :
    Moved base target ((b.method.invoke r args).run answer c)
      ((b.method.invoke (r.moved base target) (args.map (Value.moved base target))).run answer' c') := by
  by_cases hb : b = .stringToS
  · subst hb
    simp only [Builtin.invoke_toS, List.length_map]
    split
    · exact ⟨rfl, h⟩
    · exact ⟨rfl, h⟩
  · have hends := b.invoke_ends r args
    rw [Builtin.invoke_congr hb hr Value.equal_moved (Value.equalAll_moved args)]
    generalize b.method.invoke r args = p at hends
    cases hends with
    | plain hv => exact ⟨congrArg Outcome.value (Value.moved_of_below (Value.below_of_kind hv _)).symm, h⟩
    | receiver hself => exact absurd hself hb
    | string => exact ⟨congrArg Outcome.value (Value.moved_string h.fresh _).symm, h.machine, h.log, h.fresh.succ⟩
    | refused | crashed => exact ⟨rfl, h⟩

theorem Moved.ofRun {result result' : Outcome × Context} (h : Moved base target result result') (kind : Kind)
    (method : Name) : Moved base target (ofRun kind method result) (ofRun kind method result') := by
  obtain ⟨outcome, c⟩ := result
  obtain ⟨outcome', c'⟩ := result'
  obtain ⟨rfl, hshifted⟩ := h
  cases outcome <;> exact ⟨rfl, hshifted⟩

/-- A send with other storage free moves its new string, and logs the same. -/
theorem Shifted.send (h : Shifted base target c c') (hb : c.machine.Booted) (r : Value) (s : Symbol)
    (args : List Value) :
    Moved base target (c.send r s args) (c'.send (r.moved base target) s (args.map (Value.moved base target))) := by
  have ht := h.traced r s args
  cases hf : (c.machine.table r.kind).find? s with
  | none =>
    have hf' : (c'.machine.table (r.moved base target).kind).find? s = none := by rwa [h.machine, Value.kind_moved]
    have hsend : c.send r s args = _ := sendWithin_missing hf _ args
    have hsend' : c'.send (r.moved base target) s (args.map (Value.moved base target)) = _ :=
      sendWithin_missing hf' _ _
    rw [hsend, hsend', h.machine, Value.kind_moved]
    exact ⟨rfl, ht.machine, congrArg (· ++ _) ht.log, ht.fresh⟩
  | some m =>
    obtain ⟨b, rfl, hk, -⟩ := hb.builtin_of_find? hf
    have hf' : (c'.machine.table (r.moved base target).kind).find? s = some b.method := by
      rwa [h.machine, Value.kind_moved]
    have hsend : c.send r s args = _ := sendWithin_found hf _ args
    have hsend' : c'.send (r.moved base target) s (args.map (Value.moved base target)) = _ :=
      sendWithin_found hf' _ _
    rw [hsend, hsend', Value.kind_moved]
    exact (ht.run hk.symm args _ _).ofRun r.kind b.method.name

/-- The string that a send answers with lies below what is free then. -/
theorem send_below (hb : c.machine.Booted) (hr : r.Below c.fresh) (s : Symbol) (args : List Value) :
    c.fresh ≤ (c.send r s args).2.fresh ∧
      ∀ v, (c.send r s args).1 = .value v → v.Below (c.send r s args).2.fresh := by
  cases hf : (c.machine.table r.kind).find? s with
  | none =>
    have hsend : c.send r s args = _ := sendWithin_missing hf _ args
    rw [hsend]
    exact ⟨Nat.le_refl _, fun v hv => nomatch hv⟩
  | some m =>
    obtain ⟨b, rfl, -⟩ := hb.builtin_of_find? hf
    have hsend : c.send r s args = _ := sendWithin_found hf _ args
    rw [hsend]
    have hends := b.invoke_ends r args
    generalize b.method.invoke r args = p at hends
    cases hends with
    | plain hv => exact ⟨Nat.le_refl _, fun v heq => Outcome.value.inj heq ▸ Value.below_of_kind hv _⟩
    | receiver => exact ⟨Nat.le_refl _, fun v heq => Outcome.value.inj heq ▸ hr⟩
    | string => exact ⟨Nat.le_succ _, fun v heq => Outcome.value.inj heq ▸ Nat.lt_succ_self _⟩
    | refused | crashed => exact ⟨Nat.le_refl _, fun v heq => nomatch heq⟩

end Context

/-! ## Decoding -/

namespace Wire

namespace Envelope

/-- Copies of values, the strings at storage from `fresh` on. -/
def copies (fresh : Nat) : List Value → List Value × Nat
  | [] => ([], fresh)
  | v :: vs => ((copy fresh v).1 :: (copies (copy fresh v).2 vs).1, (copies (copy fresh v).2 vs).2)

/-- Envelopes hold values, at whatever storage, or do not for one reason. -/
theorem toValues_cases (es : List Envelope) : ∀ index,
    (∃ vs, ∀ fresh, toValues fresh index es = .ok (copies fresh vs)) ∨
      ∃ err, ∀ fresh, toValues fresh index es = .error err := by
  induction es with
  | nil => exact fun index => .inl ⟨[], fun fresh => rfl⟩
  | cons e es ih =>
    intro index
    rcases e.toValue_cases with ⟨v, hv⟩ | ⟨err, herr, -⟩
    · rcases ih (index + 1) with ⟨vs, hvs⟩ | ⟨err, herr⟩
      · exact .inl ⟨v :: vs, fun fresh => by simp only [toValues, hv, hvs, copies]⟩
      · exact .inr ⟨err, fun fresh => by simp only [toValues, hv, herr]⟩
    · exact .inr ⟨.element index err, fun fresh => by simp only [toValues, herr]⟩

variable {base target f f' : Nat}

theorem copy_moved (h : Abreast base target f f') (v : Value) :
    (copy f' v).1 = (copy f v).1.moved base target ∧ Abreast base target (copy f v).2 (copy f' v).2 := by
  cases v with
  | string storage bs => exact ⟨(Value.moved_string h bs).symm, h.succ⟩
  | nil | bool | fixnum => exact ⟨rfl, h⟩

theorem copies_moved (h : Abreast base target f f') (vs : List Value) :
    (copies f' vs).1 = (copies f vs).1.map (Value.moved base target) ∧
      Abreast base target (copies f vs).2 (copies f' vs).2 := by
  induction vs generalizing f f' with
  | nil => exact ⟨rfl, h⟩
  | cons v vs ih =>
    obtain ⟨hfirst, hnext⟩ := copy_moved h v
    obtain ⟨hrest, hlast⟩ := ih hnext
    exact ⟨by simp only [copies, hfirst, hrest, List.map_cons], hlast⟩

theorem copy_below (fresh : Nat) (v : Value) : (copy fresh v).1.Below (copy fresh v).2 := by
  cases v with
  | string storage bs => exact Nat.lt_succ_self fresh
  | nil | bool | fixnum => trivial

theorem le_copy (fresh : Nat) (v : Value) : fresh ≤ (copy fresh v).2 := by
  cases v with
  | string storage bs => exact Nat.le_succ fresh
  | nil | bool | fixnum => exact Nat.le_refl fresh

theorem copies_below (vs : List Value) : ∀ fresh,
    fresh ≤ (copies fresh vs).2 ∧ ∀ v ∈ (copies fresh vs).1, v.Below (copies fresh vs).2 := by
  induction vs with
  | nil => exact fun fresh => ⟨Nat.le_refl fresh, by simp [copies]⟩
  | cons v vs ih =>
    intro fresh
    obtain ⟨hle, hrest⟩ := ih (copy fresh v).2
    refine ⟨Nat.le_trans (le_copy fresh v) hle, ?_⟩
    simp only [copies, List.forall_mem_cons]
    exact ⟨(copy_below fresh v).mono hle, hrest⟩

end Envelope

open Envelope

theorem unmarshal_cases (data : Bytes) :
    (∃ v, ∀ fresh, unmarshal fresh data = .ok (copy fresh v)) ∨ ∃ err, ∀ fresh, unmarshal fresh data = .error err := by
  cases h : decodeAs ofItem data with
  | error cause => exact .inr ⟨.undecodable cause, fun fresh => by simp [unmarshal, h, Except.mapError]⟩
  | ok e =>
    rcases e.toValue_cases with ⟨v, hv⟩ | ⟨err, herr, -⟩
    · exact .inl ⟨v, fun fresh => (unmarshal_of_decoded h fresh).trans (hv fresh)⟩
    · exact .inr ⟨err, fun fresh => (unmarshal_of_decoded h fresh).trans (herr fresh)⟩

theorem unmarshalAll_cases (data : Bytes) :
    (∃ vs, ∀ fresh, unmarshalAll fresh data = .ok (copies fresh vs)) ∨
      ∃ err, ∀ fresh, unmarshalAll fresh data = .error err := by
  cases h : decodeAs listOfItem data with
  | error cause => exact .inr ⟨.undecodableList cause, fun fresh => by simp [unmarshalAll, h, Except.mapError]⟩
  | ok es =>
    rcases toValues_cases es 0 with ⟨vs, hvs⟩ | ⟨err, herr⟩
    · exact .inl ⟨vs, fun fresh => (unmarshalAll_of_decoded h fresh).trans (hvs fresh)⟩
    · exact .inr ⟨err, fun fresh => (unmarshalAll_of_decoded h fresh).trans (herr fresh)⟩

end Wire

end Dispatch
