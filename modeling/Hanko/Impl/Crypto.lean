import Hanko.Impl.Protocol

/-!
# Signed bytes (`crypto/ed25519.go`, `envelopeBody` of `broker/broker.go`)

The canonical JSON a signature is made over.
-/

namespace Hanko

open Bytes Json

/-! ## Canonical JSON -/

mutual

/-- `marshalCanonical`: the keys of an object are sorted, and their values
encoded in that order. -/
def marshalCanonical : Json → Bytes
  | .obj kvs =>
    123 :: ([44].intercalate (((canonicalMembers kvs).insertionSort KeyLe).map
      fun kv => marshal (.str kv.1) ++ 58 :: kv.2) ++ [125])
  | .arr xs => 91 :: ([44].intercalate (canonicalItems xs) ++ [93])
  | .null => marshal .null
  | .bool b => marshal (.bool b)
  | .num t => marshal (.num t)
  | .str s => marshal (.str s)

def canonicalItems : List Json → List Bytes
  | [] => []
  | x :: xs => marshalCanonical x :: canonicalItems xs

/-- The keys of an object, with the encodings of their values. -/
def canonicalMembers : List (Bytes × Json) → List (Bytes × Bytes)
  | [] => []
  | (k, v) :: kvs => (k, marshalCanonical v) :: canonicalMembers kvs

end

/-- An error of `json.Unmarshal`. Its text depends on the place of the error
and is not modelled. -/
def unmarshalError : GoError := .text (lit "json: invalid text")

/-- `json.Unmarshal` into an `any`. -/
def unmarshal (bs : Bytes) : Except GoError Json :=
  match unmarshalAny bs with
  | some v => .ok v
  | none => .error unmarshalError

/-- `CanonicalJSON`: a value is marshalled and unmarshalled before it is
encoded. -/
def canonicalJSON (v : Json) : Except GoError Bytes := do
  let m ← unmarshal (marshal v)
  return marshalCanonical m

/-! ## The body of an envelope -/

/-- `json.Unmarshal` into a `map[string]any`. -/
def unmarshalMap (bs : Bytes) : Except GoError (List (Bytes × Json)) := do
  match ← unmarshal bs with
  | .obj m => .ok m
  | _ => .error unmarshalError

/-- `delete(m, k)`. -/
def deleteKey (m : List (Bytes × Json)) (k : Bytes) : List (Bytes × Json) := m.filter fun kv => kv.1 ≠ k

/-- `envelopeBody`: the fields of an envelope other than its signature. -/
def envelopeBody (env : AttestationEnvelope) : Except GoError Json := do
  let raw ← (env.marshal compact).mapError GoError.text
  let m ← unmarshalMap raw
  return .obj (deleteKey m (lit "signature"))

end Hanko
