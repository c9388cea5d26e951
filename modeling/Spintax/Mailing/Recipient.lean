import Spintax.Json.Reader
import Spintax.Variables

namespace Spintax

/-- Somebody who gets a message, with the values for its slots. -/
structure Recipient where
  id : String
  values : Variables
deriving DecidableEq, Repr

namespace Recipient

open Json

structure Draft where
  id : Option String
  values : Option Variables

def variablesReader : Reader Variables :=
  .object "a map" (fun vs name => .ok (Reader.text.map (vs.insert name))) .empty

def idReader (d : Draft) : Reader Draft :=
  Reader.text.map fun id => { d with id := some id }

def valuesReader (d : Draft) : Reader Draft :=
  variablesReader.map fun vs => { d with values := some vs }

def member (d : Draft) (name : String) : Except ReadError (Reader Draft) :=
  if name = "id" then
    if d.id.isSome then .error (.mismatch (.duplicate name)) else .ok (idReader d)
  else if name = "variables" then
    if d.values.isSome then .error (.mismatch (.duplicate name)) else .ok (valuesReader d)
  else .ok (Reader.skip.map fun _ => d)

def field (d : Draft) : Nat → Option (Reader Draft)
  | 0 => some (idReader d)
  | 1 => some (valuesReader d)
  | _ => none

def ofDraft (absent : Mismatch) (d : Draft) : Except ReadError Recipient :=
  match d.id with
  | some id => .ok ⟨id, d.values.getD .empty⟩
  | none => .error (.mismatch absent)

def reader : Reader Recipient :=
  .record "struct Recipient" member field ⟨none, none⟩
    (ofDraft (.missing "id"))
    (ofDraft (.wrongLength 0 "struct Recipient with 2 elements"))

end Recipient

end Spintax
