/-
The two decoders agree on what is wrong with the form of data (`decoders_agree_on_form`).

An error has a reason. Seven reasons are about the form of the data, and they are settled before anything is made of it;
five are about what is in it. A decoder that goes through the data a second time, into a target that it may leave half
filled, finds a reason of the second sort only, and what was filled in by then is not handed back: a value comes without
an error, and an error without a value (`receive_says`, `receiveAll_says`).
-/
import Dispatch.Proofs.DecodingTargets

namespace Dispatch.Wire

/-! ## Reasons -/

/-- What an error says, without the places and numbers in it. -/
inductive Reason where
  | empty
  | truncated
  | illFormed
  | extraneous
  | tooDeep
  | tooManyElements
  | tooManyPairs
  | wrongType
  | badText
  | other
  | unknownKind
  | corrupt
  deriving DecidableEq, Repr

/-- The reasons that lie in the form of the data. -/
def Reason.ofForm : List Reason :=
  [.empty, .truncated, .illFormed, .extraneous, .tooDeep, .tooManyElements, .tooManyPairs]

/-- The reasons that lie in what the data holds. -/
def Reason.ofContents : List Reason := [.wrongType, .badText, .other, .unknownKind, .corrupt]

/-- A length beyond all bounds has no reason of its own. -/
def Malformed.reason : Malformed → Reason
  | .empty => .empty
  | .truncated => .truncated
  | .illFormed => .illFormed
  | .extraneous => .extraneous
  | .tooDeep => .tooDeep
  | .tooManyElements => .tooManyElements
  | .tooManyPairs => .tooManyPairs
  | .tooLong => .other

/-- A tag where it cannot be has no reason of its own either. -/
def Mistyped.reason : Mistyped → Reason
  | .wrongType => .wrongType
  | .badText => .badText
  | .badTag => .other

def Undecodable.reason : Undecodable → Reason
  | .malformed m => m.reason
  | .mistyped m => m.reason

def TransferError.reason : TransferError → Reason
  | .undecodable cause => cause.reason
  | .undecodableList cause => cause.reason
  | .unknownKind _ => .unknownKind
  | .corrupt _ => .corrupt
  | .element _ inner => inner.reason

/-- The result is an error for this reason. -/
def FailsFor {α : Type} (reason : Reason) (result : Except TransferError α) : Prop :=
  ∃ e, result = .error e ∧ e.reason = reason

/-- The result is an error only for what the data holds, if it is one. -/
def FailsForContents {α : Type} (result : Except TransferError α) : Prop :=
  ∀ e, result = .error e → e.reason ∈ Reason.ofContents

theorem Mistyped.reason_mem (m : Mistyped) : m.reason ∈ Reason.ofContents := by
  cases m <;> decide

namespace Envelope

theorem toValue_failsForContents (fresh : Nat) (e : Envelope) : FailsForContents (e.toValue fresh) := by
  intro err h
  obtain ⟨-, ⟨tag, rfl⟩ | ⟨payload, rfl⟩⟩ := toValue_error h fresh
  · simp [TransferError.reason, Reason.ofContents]
  · simp [TransferError.reason, Reason.ofContents]

theorem toValues_failsForContents (es : List Envelope) (fresh index : Nat) :
    FailsForContents (toValues fresh index es) := by
  induction es generalizing fresh index with
  | nil => exact nofun
  | cons e es ih =>
    intro err h
    simp only [toValues] at h
    split at h
    next inner hvalue =>
      obtain rfl := Except.error.inj h
      exact toValue_failsForContents fresh e inner hvalue
    next v next _ =>
      split at h
      next inner hrest =>
        obtain rfl := Except.error.inj h
        exact ih next (index + 1) inner hrest
      next => cases h

end Envelope

/-! ## Form first -/

section

variable {fresh : Nat} {data : Bytes} {item : Item}

/-- Data in order is not malformed, whatever is made of it. -/
theorem decodeAs_of_ofBytes {α : Type} (make : Item → Except Mistyped α) (h : Item.ofBytes data = .ok item) :
    (∃ a, decodeAs make data = .ok a) ∨ ∃ m, decodeAs make data = .error (.mistyped m) := by
  simp only [decodeAs, h]
  cases make item with
  | ok a => exact .inl ⟨a, rfl⟩
  | error m => exact .inr ⟨m, rfl⟩

theorem unmarshal_failsForContents (h : Item.ofBytes data = .ok item) : FailsForContents (unmarshal fresh data) := by
  obtain ⟨e, he⟩ | ⟨m, hm⟩ := decodeAs_of_ofBytes Envelope.ofItem h
  · rw [unmarshal_of_decoded he]
    exact e.toValue_failsForContents fresh
  · rw [unmarshal_undecodable_iff.2 hm]
    rintro _ ⟨⟩
    exact m.reason_mem

theorem unmarshalAll_failsForContents (h : Item.ofBytes data = .ok item) :
    FailsForContents (unmarshalAll fresh data) := by
  obtain ⟨es, hes⟩ | ⟨m, hm⟩ := decodeAs_of_ofBytes Envelope.listOfItem h
  · rw [unmarshalAll_of_decoded hes]
    exact Envelope.toValues_failsForContents es fresh 0
  · rw [unmarshalAll_undecodable_iff.2 hm]
    rintro _ ⟨⟩
    exact m.reason_mem

/-- A decoder that says what is wrong with the form, and else fails for the contents only, fails for a reason of form
just when reading the item does. -/
theorem failsFor_iff {α : Type} {result : Except TransferError α} {reason : Reason} (hreason : reason ∈ Reason.ofForm)
    (hform : ∀ m, Item.ofBytes data = .error m → FailsFor m.reason result)
    (hcontents : ∀ item, Item.ofBytes data = .ok item → FailsForContents result) :
    FailsFor reason result ↔ ∃ m, Item.ofBytes data = .error m ∧ m.reason = reason := by
  have hapart : ∀ r ∈ Reason.ofForm, r ∉ Reason.ofContents := by decide
  constructor
  · rintro ⟨e, he, rfl⟩
    cases hdata : Item.ofBytes data with
    | ok item => exact absurd (hcontents item hdata e he) (hapart _ hreason)
    | error m =>
      obtain ⟨e', he', hm⟩ := hform m hdata
      rw [he] at he'
      obtain rfl := Except.error.inj he'
      exact ⟨m, rfl, hm.symm⟩
  · rintro ⟨m, hm, rfl⟩
    exact hform m hm

theorem unmarshal_failsFor_iff {reason : Reason} (hreason : reason ∈ Reason.ofForm) :
    FailsFor reason (unmarshal fresh data) ↔ ∃ m, Item.ofBytes data = .error m ∧ m.reason = reason :=
  failsFor_iff hreason (fun _ hm => ⟨_, unmarshal_malformed_iff.2 hm, rfl⟩) fun _ h => unmarshal_failsForContents h

theorem unmarshalAll_failsFor_iff {reason : Reason} (hreason : reason ∈ Reason.ofForm) :
    FailsFor reason (unmarshalAll fresh data) ↔ ∃ m, Item.ofBytes data = .error m ∧ m.reason = reason :=
  failsFor_iff hreason (fun _ hm => ⟨_, unmarshalAll_malformed_iff.2 hm, rfl⟩) fun _ h => unmarshalAll_failsForContents h

end

/-! ## Values beside errors -/

/-- The data is gone through for its form and, if that is in order, once more into a target. What the target holds
comes with the error, if there is one. -/
def decodeInto {α : Type} (t : SecondPass.Target α) (data : Bytes) : Option (α × Option Undecodable) :=
  match Item.ofBytes data with
  | .error m => some (t.blank, some (.malformed m))
  | .ok _ => (t.decode data).map fun p => (p.1.value, p.1.fault.map .mistyped)

/-- What a decoder hands back: a value and an error side by side, and the least storage that is free then. -/
structure Received (α : Type) where
  value : α
  error : Option TransferError
  fresh : Nat

/-- One or the other, as in a result: with an error comes `nothing`. -/
def Received.Says {α : Type} (r : Received α) (nothing : α) : Except TransferError (α × Nat) → Prop
  | .ok p => r = ⟨p.1, none, p.2⟩
  | .error e => r.error = some e ∧ r.value = nothing

def receive (fresh : Nat) (data : Bytes) : Option (Received Value) :=
  (decodeInto SecondPass.envelope data).map fun p =>
    match p.2 with
    | some cause => ⟨.nil, some (.undecodable cause), fresh⟩
    | none =>
      match p.1.toValue fresh with
      | .ok made => ⟨made.1, none, made.2⟩
      | .error err => ⟨.nil, some err, fresh⟩

/-- The values are put behind those made before, until one cannot be made; then they are dropped. -/
def receiveElements (fresh index : Nat) (vs : List Value) : List Envelope → Received (List Value)
  | [] => ⟨vs, none, fresh⟩
  | e :: es =>
    match e.toValue fresh with
    | .error err => ⟨[], some (.element index err), fresh⟩
    | .ok made => receiveElements made.2 (index + 1) (vs ++ [made.1]) es

def receiveAll (fresh : Nat) (data : Bytes) : Option (Received (List Value)) :=
  (decodeInto SecondPass.envelopes data).map fun p =>
    match p.2 with
    | some cause => ⟨[], some (.undecodableList cause), fresh⟩
    | none => receiveElements fresh 0 [] p.1

section

variable {fresh : Nat} {data : Bytes} {item : Item}

/-- The second pass uses up the data. -/
theorem decode_of_ofBytes {α : Type} {t : SecondPass.Target α} {make : Item → Except Mistyped α} (ht : t.Decodes make)
    (h : Item.ofBytes data = .ok item) : ∃ filled, t.decode data = some (filled, []) ∧ filled.result = make item :=
  ht data item [] ⟨_, Item.read_of_ofBytes h⟩

theorem decodeInto_cases {α : Type} {t : SecondPass.Target α} {make : Item → Except Mistyped α} (ht : t.Decodes make)
    (data : Bytes) :
    (∃ a, decodeInto t data = some (a, none) ∧ decodeAs make data = .ok a) ∨
    ∃ a cause, decodeInto t data = some (a, some cause) ∧ decodeAs make data = .error cause := by
  unfold decodeInto decodeAs
  cases hdata : Item.ofBytes data with
  | error m => exact .inr ⟨_, _, rfl, rfl⟩
  | ok item =>
    obtain ⟨⟨a, fault⟩, hdecode, hresult⟩ := decode_of_ofBytes ht hdata
    simp only [hdecode, ← hresult]
    cases fault with
    | none => exact .inl ⟨_, rfl, rfl⟩
    | some m => exact .inr ⟨_, _, rfl, rfl⟩

theorem receive_says (fresh : Nat) (data : Bytes) :
    ∃ r, receive fresh data = some r ∧ r.Says .nil (unmarshal fresh data) := by
  unfold receive
  obtain ⟨e, hinto, he⟩ | ⟨e, cause, hinto, hcause⟩ := decodeInto_cases SecondPass.envelope_decodes data
  · rw [hinto, unmarshal_of_decoded he]
    refine ⟨_, rfl, ?_⟩
    cases hvalue : e.toValue fresh with
    | ok made => simp [Received.Says, hvalue]
    | error err => simp [Received.Says, hvalue]
  · rw [hinto, unmarshal_undecodable_iff.2 hcause]
    exact ⟨_, rfl, rfl, rfl⟩

/-- The values that have been made stand before those of the envelopes that are left. -/
theorem receiveElements_says (es : List Envelope) (fresh index : Nat) (vs : List Value) :
    (receiveElements fresh index vs es).Says [] ((Envelope.toValues fresh index es).map fun p => (vs ++ p.1, p.2)) := by
  induction es generalizing fresh index vs with
  | nil => simp [receiveElements, Envelope.toValues, Received.Says, Except.map]
  | cons e es ih =>
    simp only [receiveElements, Envelope.toValues]
    cases e.toValue fresh with
    | error err => exact ⟨rfl, rfl⟩
    | ok made =>
      have hrest := ih made.2 (index + 1) (vs ++ [made.1])
      cases hvalues : Envelope.toValues made.2 (index + 1) es with
      | error err => simpa [hvalues, Except.map] using hrest
      | ok p => simpa [hvalues, Except.map] using hrest

theorem receiveAll_says (fresh : Nat) (data : Bytes) :
    ∃ r, receiveAll fresh data = some r ∧ r.Says [] (unmarshalAll fresh data) := by
  unfold receiveAll
  obtain ⟨es, hinto, hes⟩ | ⟨es, cause, hinto, hcause⟩ := decodeInto_cases SecondPass.envelopes_decodes data
  · rw [hinto, unmarshalAll_of_decoded hes]
    refine ⟨_, rfl, ?_⟩
    have hall := receiveElements_says es fresh 0 []
    cases hvalues : Envelope.toValues fresh 0 es with
    | error err => simpa [hvalues, Except.map] using hall
    | ok p => simpa [hvalues, Except.map] using hall
  · rw [hinto, unmarshalAll_undecodable_iff.2 hcause]
    exact ⟨_, rfl, rfl, rfl⟩

end

/-- **The two decoders agree on the form of data.** One fails for a reason of form just when the other does, for the
same reason. Data in order is gone through to its end, with nothing left over, whichever of the two targets it is
decoded into; what comes of it is what is made of the item as a whole, and if that is no value, the reason lies in what
the data holds. Gone through so, every data gives what the decoders give: a value alone, or an error beside nil or the
empty list. -/
theorem decoders_agree_on_form (fresh fresh' : Nat) (data : Bytes) :
    (∀ reason ∈ Reason.ofForm, FailsFor reason (unmarshal fresh data) ↔ FailsFor reason (unmarshalAll fresh' data)) ∧
    (∀ item, Item.ofBytes data = .ok item →
      (∃ filled, SecondPass.envelope.decode data = some (filled, []) ∧ filled.result = Envelope.ofItem item) ∧
      (∃ filled, SecondPass.envelopes.decode data = some (filled, []) ∧ filled.result = Envelope.listOfItem item) ∧
      FailsForContents (unmarshal fresh data) ∧ FailsForContents (unmarshalAll fresh' data)) ∧
    (∃ r, receive fresh data = some r ∧ r.Says .nil (unmarshal fresh data)) ∧
    ∃ r, receiveAll fresh' data = some r ∧ r.Says [] (unmarshalAll fresh' data) := by
  refine ⟨fun reason hreason => ?_, fun item h => ⟨?_, ?_, ?_, ?_⟩, receive_says fresh data, receiveAll_says fresh' data⟩
  · rw [unmarshal_failsFor_iff hreason, unmarshalAll_failsFor_iff hreason]
  · exact decode_of_ofBytes SecondPass.envelope_decodes h
  · exact decode_of_ofBytes SecondPass.envelopes_decodes h
  · exact unmarshal_failsForContents h
  · exact unmarshalAll_failsForContents h

/-- A map of unknown length: the kind of a string; for the integer a text of unknown length, of which the second chunk is
not UTF-8; and the bytes, under a tag. -/
def tornMap : Bytes :=
  [0xbf, 0x01, 0x03, 0x02, 0x7f, 0x61, 0x61, 0x61, 0xff, 0xff, 0x03, 0xd9, 0xd9, 0xf7, 0x42, 0x61, 0x62, 0xff]

/-- The kind is in the target before the text is met and the bytes after it; all the same the string that they make is
not handed back. For the other target the map is of the wrong type, and without its break it is truncated for both. -/
theorem decoders_agree_on_form_torn :
    SecondPass.envelope.decode tornMap = some (⟨⟨3, 0, [0x61, 0x62]⟩, some .badText⟩, []) ∧
    (∃ r, receive 0 tornMap = some r ∧ r.error = some (.undecodable (.mistyped .badText)) ∧ r.value = .nil) ∧
    (∃ filled, SecondPass.envelopes.decode tornMap = some (filled, []) ∧ filled.result = .error .wrongType) ∧
    FailsFor .truncated (unmarshalAll 7 (tornMap.take 17)) := by
  have hitem : Item.ofBytes tornMap = .ok (.map [(.unsigned 1, .unsigned 3),
      (.unsigned 2, .text [[0x61], [0xff]]), (.unsigned 3, .tag 55799 (.bytes [0x61, 0x62]))]) := rfl
  have hunmarshal : unmarshal 0 tornMap = .error (.undecodable (.mistyped .badText)) := by decide +kernel
  obtain ⟨-, hcontents, hreceive, -⟩ := decoders_agree_on_form 0 7 tornMap
  obtain ⟨-, hlist, -⟩ := hcontents _ hitem
  rw [hunmarshal] at hreceive
  obtain ⟨hform, -⟩ := decoders_agree_on_form 0 7 (tornMap.take 17)
  exact ⟨by decide +kernel, hreceive, hlist, (hform .truncated (by decide)).1 ⟨_, rfl, rfl⟩⟩

end Dispatch.Wire
