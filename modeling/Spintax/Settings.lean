import Spintax.Cache.Limits
import Spintax.Campaign.Export
import Spintax.Config.Dotenv
import Spintax.Files
import Spintax.Json.Reader
import Spintax.Mailing.Concurrency

namespace Spintax

inductive LogFormat where
  | pretty
  | json
deriving DecidableEq, Repr

def LogFormat.name : LogFormat → String
  | pretty => "pretty"
  | json => "json"

def LogFormat.label : LogFormat → String
  | pretty => "Pretty"
  | json => "Json"

structure Settings where
  capacity : Nat
  maxAgeSeconds : Nat
  concurrency : Concurrency
  policy : Policy
  exportFormat : ExportFormat
  logLevel : String
  logFormat : LogFormat
deriving DecidableEq, Repr

namespace Config.Value

def clamp : Number.Real → Nat
  | .signed false x => if x.isFinite then min x.roundHalfUp (UInt64.size - 1) else UInt64.size - 1
  | .signed true _ => 0
  | .nan => 0

/-- Words count as switches, and numbers may be written as text. -/
def natural? : Value → Option Nat
  | integer n => if 0 ≤ n then some n.toNat else none
  | bool b => some b.toNat
  | real x => some (clamp x)
  | text s =>
    let word := Text.lower s
    if word = "true" || word = "on" || word = "yes" then some 1
    else if word = "false" || word = "off" || word = "no" then some 0
    else Number.word? s.toList
  | _ => none

def realText : Number.Real → String
  | .signed minus x => (if minus then "-" else "") ++ if x.isFinite then x.plain else "inf"
  | .nan => "NaN"

def text? : Value → Option String
  | text s => some s
  | bool b => some (if b then "true" else "false")
  | integer n => some (toString n)
  | real x => some (realText x)
  | _ => none

/-- One of some names, capitals aside. A table with a single entry counts as the
name of its entry. -/
def oneOf? {α : Type} (names : List (String × α)) : Value → Option α
  | text s => names.lookup (Text.lower s)
  | table [(k, _)] => names.lookup (Text.lower k)
  | _ => none

/-- The field of a section, which is a table or the list of its fields. A field that is
missing has its default value. -/
def field? {α : Type} (v : Value) (position : Nat) (name : String) (default : α)
    (read : Value → Option α) : Option α :=
  let read? := fun w : Option Value => w.elim (some default) read
  match v with
  | table es => read? (es.lookup name)
  | list vs => read? vs[position]?
  | _ => none

end Config.Value

namespace Settings

open Config

def standard : Settings where
  capacity := 1024
  maxAgeSeconds := 3600
  concurrency := .standard
  policy := .strict
  exportFormat := .json
  logLevel := "info"
  logFormat := .pretty

def policies : List (String × Policy) :=
  [("strict", .strict), ("lenient", .lenient)]

def exportFormats : List (String × ExportFormat) :=
  [("json", .json), ("csv", .csv)]

def logFormats : List (String × LogFormat) :=
  [("pretty", .pretty), ("json", .json)]

def builtIn : List (String × Value) := [
  ("cache.max_entries", .integer standard.capacity),
  ("cache.max_age_seconds", .integer standard.maxAgeSeconds),
  ("bulk.concurrency", .integer standard.concurrency.usual),
  ("bulk.max_concurrency", .integer standard.concurrency.most),
  ("render.missing_variable", .text "strict"),
  ("tracker.export_format", .text "json"),
  ("logging.level", .text standard.logLevel),
  ("logging.format", .text "pretty")]

def ofValue? (root : Value) : Option Settings := do
  let sectionOf := fun name => (root.entry? name).getD (.table [])
  let cache := sectionOf "cache"
  let bulk := sectionOf "bulk"
  let logging := sectionOf "logging"
  return {
    capacity := ← cache.field? 0 "max_entries" standard.capacity Value.natural?
    maxAgeSeconds := ← cache.field? 1 "max_age_seconds" standard.maxAgeSeconds Value.natural?
    concurrency := {
      usual := ← bulk.field? 0 "concurrency" standard.concurrency.usual Value.natural?
      most := ← bulk.field? 1 "max_concurrency" standard.concurrency.most Value.natural? }
    policy := ← (sectionOf "render").field? 0 "missing_variable" standard.policy
      (Value.oneOf? policies)
    exportFormat := ← (sectionOf "tracker").field? 0 "export_format" standard.exportFormat
      (Value.oneOf? exportFormats)
    logLevel := ← logging.field? 0 "level" standard.logLevel Value.text?
    logFormat := ← logging.field? 1 "format" standard.logFormat (Value.oneOf? logFormats) }

def maxDepth : Nat := 127

/-- The table in a settings file. A file that is not there has no entries. -/
def fileEntries? : Option String → Option (List (String × Value))
  | none => some []
  | some content =>
    match (Json.Reader.any maxDepth).decode content with
    | .ok v =>
      match Value.ofJson v with
      | .table es => some es
      | _ => none
    | .error _ => none

/-- A name, last character first, up to its last step. Steps that stay where they are do not
count, and a step that leads out of a directory has no name. -/
def lastStep? : List Char → Option (List Char)
  | '/' :: cs | '.' :: '/' :: cs => lastStep? cs
  | '.' :: '.' :: '/' :: _ => none
  | cs => some cs

def isJson (name : String) : Bool :=
  let step := (name.toList.reverse.takeWhile (· ≠ '/')).reverse
  ".json".toList.isSuffixOf step && 5 < step.length

def fileName? (layer : String) : Option String :=
  (lastStep? layer.toList.reverse).map fun cs => .ofList cs.reverse ++ ".json"

def fileNames (layer : String) : List String :=
  layer :: (fileName? layer).toList

/-- The content of the file of a layer. A file of another kind that has the very name of the
layer hides the one that would be read. -/
def content? (files : Files) (layer : String) : Option String :=
  if files.isFile layer then if isJson layer then files.text? layer else none
  else (fileName? layer).bind files.text?

def fileLayers (env : Environment) : List String :=
  ["config/default", "config/" ++ (env.get? "RUN_MODE").getD "development"]

/-- Why there are no settings. Positions are bad in front of a list, and variables with a zero
byte in their value. -/
inductive LoadError where
  | malformed
  | badPosition
  | badVariable
deriving DecidableEq, Repr

def environment (env : Environment) (files : Files) : Except LoadError Environment :=
  match (files.text? ".env").map (Dotenv.load? · env) with
  | some (some env) => .ok env
  | some none => .error .badVariable
  | none => .ok env

def addLayer (entries? : Option (List (String × Value))) (root : Value) :
    Except LoadError Value := do
  let some entries := entries? | throw .malformed
  let some root := Value.layer? entries root | throw .badPosition
  return root

/-- What the files and the environment say together, before the built-in values come in. -/
def given (env : Environment) (files : Files) : Except LoadError Value := do
  let root ← (fileLayers env).foldlM
    (fun root layer => addLayer (fileEntries? (content? files layer)) root) (.table [])
  addLayer (some (env.settings "variation__")) root

def load (env : Environment) (files : Files) : Except LoadError Settings := do
  let env ← environment env files
  let top ← given env files
  let root ← addLayer (some builtIn) (.table [])
  let root ← addLayer (some top.entries) root
  let some s := ofValue? root | throw .malformed
  return s

end Settings

end Spintax
