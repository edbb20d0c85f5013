/-
A list of values is decoded as its elements are, one by one. The two ways differ in their order: an
element alone is made an envelope and then a value, while a list has all its elements made envelopes
(`decodeAs_list`) before the first of them is made a value. So data that does not fit an envelope is
reported for the first element that has it, even if an earlier one holds no value.
-/
import Dispatch.Proofs.Nesting

namespace Dispatch.Wire

section Results

variable {ε α β : Type} {f : α → Except ε β}

theorem exists_forall₂ {R : α → β → Prop} {xs : List α} (h : ∀ x ∈ xs, ∃ y, R x y) : ∃ ys, List.Forall₂ R xs ys := by
  induction xs with
  | nil => exact ⟨[], .nil⟩
  | cons x xs ih =>
    obtain ⟨y, hy⟩ := h x List.mem_cons_self
    obtain ⟨ys, hys⟩ := ih fun x' hx' => h x' (List.mem_cons_of_mem x hx')
    exact ⟨y :: ys, .cons hy hys⟩

theorem mapM_eq_ok {xs : List α} {ys : List β} :
    xs.mapM f = .ok ys ↔ List.Forall₂ (fun x y => f x = .ok y) xs ys := by
  induction xs generalizing ys with
  | nil => cases ys <;> simp [pure, Except.pure]
  | cons x xs ih =>
    rw [List.mapM_cons]
    simp only [bind_eq_ok, List.forall₂_cons_left_iff, ← ih]
    constructor
    · rintro ⟨y, hy, zs, hzs, heq⟩
      exact ⟨y, zs, hy, hzs, (Except.ok.inj heq).symm⟩
    · rintro ⟨y, zs, hy, hzs, rfl⟩
      exact ⟨y, hy, zs, hzs, rfl⟩

theorem mapM_of_first_error {before after : List α} {x : α} {e : ε} (hbefore : ∀ y ∈ before, ∃ b, f y = .ok b)
    (hx : f x = .error e) : (before ++ x :: after).mapM f = .error e := by
  induction before with
  | nil => simp [List.mapM_cons, hx]
  | cons y before ih =>
    obtain ⟨b, hb⟩ := hbefore y List.mem_cons_self
    have hrest := ih fun z hz => hbefore z (List.mem_cons_of_mem y hz)
    simp [List.mapM_cons, hb, hrest]

end Results

namespace Item

theorem readMany_flatten {r : Reader Item} {ds : List Bytes} {xs : List Item}
    (h : List.Forall₂ (fun d x => ∀ rest, r (d ++ rest) = .ok (x, rest)) ds xs) (rest : Bytes) :
    readMany r xs.length (ds.flatten ++ rest) = .ok (xs, rest) := by
  induction h with
  | nil => rfl
  | cons hd _ ih => simp [readMany, hd, ih]

end Item

namespace Envelope

variable {e : Envelope} {err : TransferError}

/-! ## Envelopes as values -/

theorem equal_copies (fresh fresh' : Nat) (v : Value) : (copy fresh v).1.equal (copy fresh' v).1 = true := by
  cases v <;> simp [copy, Value.equal]

/-- Whether an envelope holds a value, and which content it has, does not depend on the storage. -/
theorem toValue_error {fresh : Nat} (h : e.toValue fresh = .error err) (fresh' : Nat) :
    e.toValue fresh' = .error err ∧ ((∃ tag, err = .unknownKind tag) ∨ ∃ payload, err = .corrupt payload) := by
  rcases e.toValue_cases with ⟨v, hv⟩ | ⟨err', herr, hreason⟩
  · rw [hv] at h
    cases h
  · rw [herr] at h
    obtain rfl := Except.error.inj h
    exact ⟨herr fresh', hreason⟩

theorem toValue_ok {fresh next : Nat} {v : Value} (h : e.toValue fresh = .ok (v, next)) (fresh' : Nat) :
    ∃ w next', e.toValue fresh' = .ok (w, next') ∧ v.equal w = true := by
  rcases e.toValue_cases with ⟨u, hu⟩ | ⟨err, herr, -⟩
  · rw [hu] at h
    refine ⟨_, _, hu fresh', ?_⟩
    have hv : (copy fresh u).1 = v := congrArg Prod.fst (Except.ok.inj h)
    rw [← hv]
    exact equal_copies fresh fresh' u
  · rw [herr] at h
    cases h

theorem toValues_of_first_error {fresh : Nat} {before after : List Envelope} {vs : List Value}
    (hbefore : List.Forall₂ (fun b v => ∃ next, b.toValue fresh = .ok (v, next)) before vs)
    (he : e.toValue fresh = .error err) (fresh' index : Nat) :
    toValues fresh' index (before ++ e :: after) = .error (.element (index + before.length) err) := by
  induction hbefore generalizing fresh' index with
  | nil => simp [toValues, (toValue_error he fresh').1]
  | cons hb _ ih =>
    obtain ⟨next, hb⟩ := hb
    obtain ⟨w, next', hb', -⟩ := toValue_ok hb fresh'
    simp [toValues, hb', ih next' (index + 1), Nat.add_assoc, Nat.add_comm 1]

theorem toValues_of_ok {fresh : Nat} {es : List Envelope} {vs : List Value}
    (h : List.Forall₂ (fun e v => ∃ next, e.toValue fresh = .ok (v, next)) es vs) (fresh' index : Nat) :
    ∃ ws next, toValues fresh' index es = .ok (ws, next) ∧ List.Forall₂ (fun v w => v.equal w = true) vs ws := by
  induction h generalizing fresh' index with
  | nil => exact ⟨[], fresh', rfl, .nil⟩
  | cons hv _ ih =>
    obtain ⟨next, hv⟩ := hv
    obtain ⟨w, next', hw, hequal⟩ := toValue_ok hv fresh'
    obtain ⟨ws, last, hws, hequals⟩ := ih next' (index + 1)
    exact ⟨w :: ws, last, by simp [toValues, hw, hws], .cons hequal hequals⟩

end Envelope

/-! ## Lists as their elements -/

section Lists

variable {ds : List Bytes} {front : Bytes}

theorem mapError_mapM {xs : List Item} (h : List.Forall₂ (fun d x => Item.ofBytes d = .ok x) ds xs) :
    (xs.mapM Envelope.ofItem).mapError .mistyped = ds.mapM (decodeAs Envelope.ofItem) := by
  induction h with
  | nil => rfl
  | @cons d x ds xs hd _ ih =>
    rw [List.mapM_cons, List.mapM_cons, ← ih]
    cases hx : Envelope.ofItem x with
    | error m => simp [decodeAs, hd, hx, Except.mapError]
    | ok e => cases xs.mapM Envelope.ofItem <;> simp [decodeAs, hd, hx, Except.mapError]

/-- A list is made envelopes by making each of its elements one. -/
theorem decodeAs_list (hcount : ds.length ≤ maxCount) (hds : ∀ d ∈ ds, ∃ x, Item.ofBytes d = .ok x ∧ x.depth ≤ 31)
    (hfront : Head.Spells 4 ds.length front) :
    decodeAs Envelope.listOfItem (front ++ ds.flatten) = ds.mapM (decodeAs Envelope.ofItem) := by
  obtain ⟨xs, hxs⟩ := exists_forall₂ hds
  have hlength := hxs.length_eq
  have hitems : Item.readMany (Item.read 31) xs.length (ds.flatten ++ []) = .ok (xs, []) :=
    Item.readMany_flatten (hxs.imp fun d x h => Item.read_append_of_ofBytes h.1 h.2) []
  rw [List.append_nil] at hitems
  rw [hlength] at hcount hfront
  have hread := Item.ofBytes_of_read (Item.read_array hfront hcount hitems)
  simp only [decodeAs, hread]
  exact mapError_mapM (hxs.imp fun d x h => h.1)

theorem unmarshal_of_decoded {d : Bytes} {e : Envelope} (h : decodeAs Envelope.ofItem d = .ok e) (fresh : Nat) :
    unmarshal fresh d = e.toValue fresh := by
  simp [unmarshal, h, Except.mapError]

theorem unmarshalAll_of_decoded {data : Bytes} {es : List Envelope} (h : decodeAs Envelope.listOfItem data = .ok es)
    (fresh : Nat) : unmarshalAll fresh data = Envelope.toValues fresh 0 es := by
  simp [unmarshalAll, h, Except.mapError]

/-- Data that does not fail to be decoded gives an envelope. -/
theorem exists_decoded {d : Bytes} {fresh : Nat} (h : ∀ cause, unmarshal fresh d ≠ .error (.undecodable cause)) :
    ∃ e, decodeAs Envelope.ofItem d = .ok e := by
  cases he : decodeAs Envelope.ofItem d with
  | ok e => exact ⟨e, rfl⟩
  | error cause => exact absurd (unmarshal_undecodable_iff.2 he) (h cause)

/-- Elements that hold values give envelopes that do. -/
theorem exists_envelopes {fresh : Nat} {vs : List Value}
    (h : List.Forall₂ (fun d v => ∃ next, unmarshal fresh d = .ok (v, next)) ds vs) :
    ∃ es, ds.mapM (decodeAs Envelope.ofItem) = .ok es ∧
      List.Forall₂ (fun e v => ∃ next, e.toValue fresh = .ok (v, next)) es vs := by
  induction h with
  | nil => exact ⟨[], rfl, .nil⟩
  | @cons d v ds vs hd _ ih =>
    obtain ⟨next, hd⟩ := hd
    have hdecodes : ∀ cause, unmarshal fresh d ≠ .error (.undecodable cause) := by
      rw [hd]
      exact nofun
    obtain ⟨e, he⟩ := exists_decoded hdecodes
    obtain ⟨es, hes, hvalues⟩ := ih
    rw [unmarshal_of_decoded he] at hd
    exact ⟨e :: es, by simp [List.mapM_cons, he, hes], .cons ⟨next, hd⟩ hvalues⟩

end Lists

/-- **A list is decoded as its elements are.** Take elements that are items of their own, and put the head of
an array in front of them. If some element alone cannot be decoded, the list cannot be either, for the
reason that the first such element has. If all can be decoded and some hold no value, decoding the list
fails for the first of these, and says at which place it stands. If all hold values, the list holds these
values, in their order. -/
theorem unmarshalAll_elementwise (fresh fresh' : Nat) (ds : List Bytes) (front : Bytes) (hcount : ds.length ≤ 131072)
    (hds : ∀ d ∈ ds, ∃ x, Item.ofBytes d = .ok x ∧ x.depth ≤ 31) (hfront : Head.Spells 4 ds.length front) :
    (∀ before d after cause, ds = before ++ d :: after →
      (∀ d' ∈ before, ∀ c, unmarshal fresh d' ≠ .error (.undecodable c)) →
      unmarshal fresh d = .error (.undecodable cause) →
      unmarshalAll fresh' (front ++ ds.flatten) = .error (.undecodableList cause)) ∧
    (∀ before d after err, ds = before ++ d :: after →
      (∀ d' ∈ ds, ∀ c, unmarshal fresh d' ≠ .error (.undecodable c)) →
      (∀ d' ∈ before, ∃ v next, unmarshal fresh d' = .ok (v, next)) → unmarshal fresh d = .error err →
      unmarshalAll fresh' (front ++ ds.flatten) = .error (.element before.length err) ∧
      ((∃ tag, err = .unknownKind tag) ∨ ∃ payload, err = .corrupt payload) ∧
      ∀ detail, (TransferError.element before.length err).message detail =
        Bytes.ofString "wire: value " ++ Decimal.ofNat before.length ++ Bytes.ofString ": " ++ err.message detail) ∧
    ∀ vs, List.Forall₂ (fun d v => ∃ next, unmarshal fresh d = .ok (v, next)) ds vs →
      ∃ ws next, unmarshalAll fresh' (front ++ ds.flatten) = .ok (ws, next) ∧ ws.length = ds.length ∧
        List.Forall₂ (fun v w => v.equal w = true) vs ws := by
  have hdecode := decodeAs_list hcount hds hfront
  refine ⟨?_, ?_, ?_⟩
  · intro before d after cause hsplit hbefore hd
    rw [unmarshalAll_undecodable_iff, hdecode, hsplit]
    -- What the elements before it hold does not matter, as long as they are envelopes.
    exact mapM_of_first_error (fun d' hd' => exists_decoded (hbefore d' hd')) (unmarshal_undecodable_iff.1 hd)
  · intro before d after err hsplit hall hbefore hd
    obtain ⟨vs, hvs⟩ := exists_forall₂ hbefore
    obtain ⟨es, hes, hvalues⟩ := exists_envelopes hvs
    obtain ⟨e, he⟩ := exists_decoded (hall d (by simp [hsplit]))
    have hafter : ∀ d' ∈ after, ∃ e', decodeAs Envelope.ofItem d' = .ok e' := fun d' hd' =>
      exists_decoded (hall d' (by simp [hsplit, hd']))
    obtain ⟨es', hes'⟩ := exists_forall₂ hafter
    rw [unmarshal_of_decoded he] at hd
    have hdecoded : decodeAs Envelope.listOfItem (front ++ ds.flatten) = .ok (es ++ e :: es') := by
      rw [hdecode, hsplit, List.mapM_append, List.mapM_cons]
      simp [hes, he, mapM_eq_ok.2 hes']
    have hlength : es.length = before.length := hvalues.length_eq.trans hvs.length_eq.symm
    refine ⟨?_, (Envelope.toValue_error hd fresh).2, fun detail => rfl⟩
    rw [unmarshalAll_of_decoded hdecoded, Envelope.toValues_of_first_error hvalues hd, hlength, Nat.zero_add]
  · intro vs hvs
    obtain ⟨es, hes, hvalues⟩ := exists_envelopes hvs
    obtain ⟨ws, next, hok, hequal⟩ := Envelope.toValues_of_ok hvalues fresh' 0
    rw [← hdecode] at hes
    refine ⟨ws, next, ?_, hequal.length_eq.symm.trans hvs.length_eq.symm, hequal⟩
    rw [unmarshalAll_of_decoded hes, hok]

/-- An array head of two bytes before an unknown kind, a number where an envelope should be, and a string.
The number is reported, although it comes second. Without it the unknown kind is, at its place. The string
alone is decoded. -/
theorem unmarshalAll_elementwise_unknown_and_mistyped :
    unmarshalAll 5 ([0x98, 0x02] ++ [[0xa1, 0x01, 0x09], [0x07]].flatten) =
      .error (.undecodableList (.mistyped .wrongType)) ∧
    unmarshalAll 5 ([0x98, 0x02] ++ [[0xf6], [0xa1, 0x01, 0x09]].flatten) = .error (.element 1 (.unknownKind 9)) ∧
    ∃ ws next, unmarshalAll 5 ([0x98, 0x01] ++ [[0xa2, 0x01, 0x03, 0x03, 0x41, 0x61]].flatten) = .ok (ws, next) ∧
      ws.length = 1 ∧ List.Forall₂ (fun v w => Value.equal v w = true) [.string 0 [0x61]] ws := by
  have hhead : ∀ n, n < 256 → Head.Spells 4 n [0x98, n.toUInt8] := fun n hn =>
    ⟨24, .inr ⟨by omega, by omega, hn⟩, rfl⟩
  have hunknown : ∃ x, Item.ofBytes [0xa1, 0x01, 0x09] = .ok x ∧ x.depth ≤ 31 := ⟨_, rfl, by decide⟩
  have hnumber : ∃ x, Item.ofBytes [0x07] = .ok x ∧ x.depth ≤ 31 := ⟨_, rfl, by decide⟩
  have hnull : ∃ x, Item.ofBytes [0xf6] = .ok x ∧ x.depth ≤ 31 := ⟨_, rfl, by decide⟩
  have hstring : ∃ x, Item.ofBytes [0xa2, 0x01, 0x03, 0x03, 0x41, 0x61] = .ok x ∧ x.depth ≤ 31 := ⟨_, rfl, by decide⟩
  refine ⟨?_, ?_, ?_⟩
  · obtain ⟨hfirst, -, -⟩ := unmarshalAll_elementwise 0 5 [[0xa1, 0x01, 0x09], [0x07]] [0x98, 0x02] (by decide)
      (by simpa using ⟨hunknown, hnumber⟩) (hhead 2 (by decide))
    refine hfirst [[0xa1, 0x01, 0x09]] [0x07] [] _ rfl (fun d hd c => ?_) rfl
    rw [List.mem_singleton.1 hd]
    exact nofun
  · obtain ⟨-, hfirst, -⟩ := unmarshalAll_elementwise 0 5 [[0xf6], [0xa1, 0x01, 0x09]] [0x98, 0x02] (by decide)
      (by simpa using ⟨hnull, hunknown⟩) (hhead 2 (by decide))
    refine (hfirst [[0xf6]] [0xa1, 0x01, 0x09] [] _ rfl (fun d hd c => ?_) (fun d hd => ?_) rfl).1
    · rcases List.mem_cons.1 hd with rfl | hd
      · exact nofun
      · rw [List.mem_singleton.1 hd]
        exact nofun
    · rw [List.mem_singleton.1 hd]
      exact ⟨.nil, 0, rfl⟩
  · obtain ⟨-, -, hall⟩ := unmarshalAll_elementwise 0 5 [[0xa2, 0x01, 0x03, 0x03, 0x41, 0x61]] [0x98, 0x01] (by decide)
      (by simpa using hstring) (hhead 1 (by decide))
    exact hall [.string 0 [0x61]] (.cons ⟨1, rfl⟩ .nil)

end Dispatch.Wire
