import Spintax.Cache.Limits
import Spintax.Campaign.Export
import Spintax.Json.Position
import Spintax.Json.Reader
import Spintax.Logging.Directive
import Spintax.Mailing.Concurrency

namespace Spintax

inductive Error where
  | settings (reason : String)
  | cache (e : Cache.LimitsError)
  | template (fault : Fault)
  | mailing (r : Refusal)
  | tracker (e : TrackerError)
  | logging (filter : String) (e : Logging.FilterError)
  | job (e : Json.ReadError)
  | serialization (reason : String)
  | validation (reason : String)
  | medium (reason : String)
deriving DecidableEq, Repr

def Json.ReadError.message : Json.ReadError → String
  | malformed m => m.message
  | mismatch m => m.message

namespace Error

def code : Error → String
  | settings _ => "CONFIG_ERROR"
  | cache _ => "CACHE_ERROR"
  | template _ => "TEMPLATE_ERROR"
  | mailing (.badTemplate _) => "TEMPLATE_ERROR"
  | mailing .noWorkers => "BULK_ERROR"
  | tracker _ => "TRACKER_ERROR"
  | logging .. => "TELEMETRY_ERROR"
  | job _ => "JOB_ERROR"
  | serialization _ => "SERIALIZATION_ERROR"
  | validation _ => "VALIDATION_ERROR"
  | medium _ => "IO_ERROR"

def message : Error → String
  | settings reason => "Configuration error: " ++ reason
  | cache e => "Cache error: " ++ e.message
  | template fault => "Template error: " ++ fault.message
  | mailing r => "Bulk error: " ++ r.message
  | tracker e => "Tracker error: " ++ e.message
  | logging filter e =>
    "Telemetry error: Invalid log filter '" ++ filter ++ "': " ++ e.message
  | job e => "Invalid job file: " ++ e.message
  | serialization reason => "Serialization error: " ++ Json.complaint reason
  | validation reason => "Validation error: " ++ reason
  | medium reason => "I/O error: " ++ reason

def toJson (e : Error) : Json.Value :=
  .object [("error", .object [("code", .text e.code), ("message", .text e.message)])]

end Error

end Spintax
