import Spintax.Json.Writer
import Spintax.Logging.Level

namespace Spintax.Logging

/-- The value of a field. A text is written in quotes, unless it is only shown. -/
inductive Datum where
  | count (n : Nat)
  | text (s : String)
  | shown (s : String)
deriving DecidableEq, Repr

abbrev Fields := List (String × Datum)

structure Span where
  name : String
  level : Level
  target : String
  fields : Fields
deriving DecidableEq, Repr

/-- Something that happens. Its spans come from the outermost one to the innermost one. -/
structure Event where
  level : Level
  target : String
  message : String
  fields : Fields := []
  spans : List Span := []
deriving DecidableEq, Repr

def Datum.describe : Datum → String
  | count n => toString n
  | text s => Json.quote s
  | shown s => s

def Datum.toJson : Datum → Json.Value
  | count n => .ofNat n
  | text s | shown s => .text s

namespace Fields

def describe (fields : Fields) : String :=
  " ".intercalate (fields.map fun (name, d) => name ++ "=" ++ d.describe)

def toJson (fields : Fields) : List (String × Json.Value) :=
  fields.map fun (name, d) => (name, d.toJson)

def names (fields : Fields) : List String :=
  fields.map (·.1)

end Fields

def Span.describe (s : Span) : String :=
  s.name ++ "\x7b" ++ Fields.describe s.fields ++ "\x7d:"

def Span.toJson (s : Span) : Json.Value :=
  .object (Fields.toJson s.fields ++ [("name", .text s.name)])

namespace Event

def fieldNames (e : Event) : List String :=
  "message" :: Fields.names e.fields

def describe (e : Event) (time : String) : String :=
  " ".intercalate ([time, e.level.label] ++
    (if e.spans.isEmpty then [] else [String.join (e.spans.map (·.describe))]) ++
    [e.target ++ ":", e.message] ++
    if e.fields.isEmpty then [] else [Fields.describe e.fields])

def toJson (e : Event) (time : String) : Json.Value :=
  .object ([("timestamp", .text time), ("level", .text e.level.label.trimAscii.toString),
    ("fields", .object (("message", .text e.message) :: Fields.toJson e.fields)),
    ("target", .text e.target)] ++
    match e.spans.getLast? with
    | some s => [("span", s.toJson), ("spans", .list (e.spans.map (·.toJson)))]
    | none => [])

end Event

end Spintax.Logging
