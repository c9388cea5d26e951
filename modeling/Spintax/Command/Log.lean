import Spintax.Error
import Spintax.Files
import Spintax.Logging.Event
import Spintax.Mailing.Job
import Spintax.Settings
import Spintax.Text.Crc32
import Spintax.Text.Length

namespace Spintax.Command.Log

open Logging

/-- The target of the events of the program itself. The parts of the engine have targets that
start in the same way. -/
def program : String := "ara_variation"

def engine (part : String) : String :=
  program ++ "_engine::" ++ part

def begun (s : Settings) : Event where
  level := .info
  target := engine "telemetry"
  message := "Tracing initialized"
  fields := [("level", .shown s.logLevel), ("format", .shown s.logFormat.label)]

def loaded : Event where
  level := .debug
  target := program
  message := "Configuration loaded"

def unusable (file message : String) (e : FileError) : Event where
  level := .error
  target := program
  message
  fields := [("path", .shown file), ("error", .shown e.message)]

def mailing (campaign : String) (request : Option Nat) : Span where
  name := "bulk.process"
  level := .info
  target := engine "bulk::processor"
  fields := [
    ("concurrency", .shown (request.elim "None" fun n => "Some(" ++ toString n ++ ")")),
    ("campaign_id", .shown campaign)]

def resolving (template : String) : Span where
  name := "cache.resolve"
  level := .info
  target := engine "cache"
  fields := [("fingerprint", .count (Text.crc32 template).toNat),
    ("bytes", .count (Text.byteLength template.toList))]

def refused (job : Job) (request : Option Nat) : Refusal → List Event
  | .noWorkers => []
  | .badTemplate fault =>
    let outer := mailing job.campaign request
    [{ level := .debug
       target := engine "cache"
       message := "Template parse failed"
       fields := [("error", .shown fault.message)]
       spans := [outer, resolving job.template] },
     { level := .warn
       target := engine "bulk::processor"
       message := "Rejecting bulk run, template does not parse"
       fields := [("campaign_id", .shown job.campaign), ("error", .shown fault.message)]
       spans := [outer] }]

def failed (e : Error) : Event where
  level := .error
  target := program
  message := "Command failed"
  fields := [("code", .text e.code), ("error", .shown e.message)]

end Spintax.Command.Log
