/-
Values over the wire: `marshal` and `unmarshal` for one value, `marshalAll` and `unmarshalAll` for a
list of arguments. A decoded string has storage of its own, so decoding takes the least storage that
is free and hands back the least that is free then.
-/
import Dispatch.Value
import Dispatch.Wire.Envelope

namespace Dispatch.Wire

/-- Why data gives no envelope. -/
inductive Undecodable where
  | malformed (m : Malformed)
  | mistyped (m : Mistyped)
  deriving DecidableEq, Repr

/-- Why data gives no value. -/
inductive TransferError where
  | undecodable (cause : Undecodable)
  /-- A list of values was asked for. -/
  | undecodableList (cause : Undecodable)
  | unknownKind (tag : UInt8)
  /-- A boolean that is neither 0 nor 1. -/
  | corrupt (payload : Int64)
  /-- The value at a place in a list. -/
  | element (index : Nat) (inner : TransferError)
  deriving DecidableEq, Repr

/-- The text of an error; `detail` words what is wrong with the data itself. -/
def TransferError.message (detail : Undecodable → Bytes) : TransferError → Bytes
  | .undecodable cause => Bytes.ofString "wire: unmarshal value: " ++ detail cause
  | .undecodableList cause => Bytes.ofString "wire: unmarshal values: " ++ detail cause
  | .unknownKind tag =>
    Bytes.ofString "wire: kind " ++ Decimal.ofNat tag.toNat ++ Bytes.ofString ": unknown value kind"
  | .corrupt payload =>
    Bytes.ofString "wire: bool payload " ++ Decimal.ofInt payload.toInt ++
      Bytes.ofString ": corrupt value encoding"
  | .element index inner =>
    Bytes.ofString "wire: value " ++ Decimal.ofNat index ++ Bytes.ofString ": " ++ inner.message detail

namespace Envelope

/-- The envelope of a value. -/
def ofValue : Value → Envelope
  | .nil => ⟨Kind.nil.tag, 0, []⟩
  | .bool b => ⟨Kind.bool.tag, if b then 1 else 0, []⟩
  | .fixnum n => ⟨Kind.fixnum.tag, n, []⟩
  | .string _ bs => ⟨Kind.string.tag, 0, bs⟩

/-- The value in an envelope, and the least storage that is free after it. -/
def toValue (fresh : Nat) (e : Envelope) : Except TransferError (Value × Nat) :=
  match Kind.ofTag? e.kind with
  | none => .error (.unknownKind e.kind)
  | some .nil => .ok (.nil, fresh)
  | some .bool =>
    if e.int = 0 then .ok (.bool false, fresh)
    else if e.int = 1 then .ok (.bool true, fresh)
    else .error (.corrupt e.int)
  | some .fixnum => .ok (.fixnum e.int, fresh)
  | some .string => .ok (.string fresh e.bytes, fresh + 1)

/-- The values in a list of envelopes, the first of which has the place `index`. -/
def toValues (fresh : Nat) (index : Nat) : List Envelope → Except TransferError (List Value × Nat)
  | [] => .ok ([], fresh)
  | e :: es =>
    match e.toValue fresh with
    | .error inner => .error (.element index inner)
    | .ok (v, fresh) =>
      match toValues fresh (index + 1) es with
      | .error inner => .error inner
      | .ok (vs, fresh) => .ok (v :: vs, fresh)

end Envelope

/-- The item that the data holds, made into something. -/
def decodeAs {α : Type} (make : Item → Except Mistyped α) (data : Bytes) : Except Undecodable α :=
  match Item.ofBytes data with
  | .error m => .error (.malformed m)
  | .ok item => (make item).mapError .mistyped

/-- The encoding of a value. -/
def marshal (v : Value) : Bytes := (Envelope.ofValue v).write

/-- The encoding of a list of values. -/
def marshalAll (vs : List Value) : Bytes := Envelope.writeAll (vs.map Envelope.ofValue)

/-- The value that the data encodes. -/
def unmarshal (fresh : Nat) (data : Bytes) : Except TransferError (Value × Nat) := do
  let e ← (decodeAs Envelope.ofItem data).mapError .undecodable
  e.toValue fresh

/-- The list of values that the data encodes. -/
def unmarshalAll (fresh : Nat) (data : Bytes) : Except TransferError (List Value × Nat) := do
  let es ← (decodeAs Envelope.listOfItem data).mapError .undecodableList
  Envelope.toValues fresh 0 es

end Dispatch.Wire
