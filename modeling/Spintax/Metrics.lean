import Spintax.Mailing.Mailer

namespace Spintax

structure Meters where
  cache : Cache.Meter
  tracker : TrackerMeter
  mailer : MailerMeter

namespace Metrics

inductive Kind where
  | counter
  | gauge
  | histogram
deriving DecidableEq, Repr

/-- Series that belong together. The name of a series is that of the family followed
by an ending of its own. Some values are not for the meters to tell. -/
structure Family where
  name : String
  help : String
  kind : Kind
  series : Meters → List (String × Option Nat)

def Kind.name : Kind → String
  | counter => "counter"
  | gauge => "gauge"
  | histogram => "histogram"

def labelled (label value : String) : String :=
  "\x7b" ++ label ++ "=\"" ++ value ++ "\"\x7d"

def bucketEnding (bound : String) : String :=
  "_bucket" ++ labelled "le" bound

namespace Family

def named (name : String) : String :=
  "ara_variation_" ++ name

def single (name help : String) (kind : Kind) (value : Meters → Nat) : Family where
  name := named name
  help
  kind
  series m := [("", some (value m))]

def counters (name help label : String) (values : List (String × (Meters → Nat))) : Family where
  name := named name
  help
  kind := .counter
  series m := values.map fun (v, count) => (labelled label v, some (count m))

/-- How many of some numbers are at most as large as each of some bounds. -/
def sizes (name help : String) (bounds : List Nat) (values : Meters → List Nat) : Family where
  name := named name
  help
  kind := .histogram
  series m :=
    let ns := values m
    let upTo := fun bound => (ns.filter (· ≤ bound)).length
    bounds.map (fun b => (bucketEnding (toString b), some (upTo b))) ++
      [(bucketEnding "+Inf", some ns.length), ("_sum", some (ns.foldr (· + ·) 0)),
        ("_count", some ns.length)]

def durations (name help : String) (bounds : List String) (count : Meters → Nat) : Family where
  name := named name
  help
  kind := .histogram
  series m :=
    (bounds ++ ["+Inf"]).map (fun b => (bucketEnding b, none)) ++
      [("_sum", none), ("_count", some (count m))]

def lines (f : Family) (m : Meters) : List String :=
  ("# HELP " ++ f.name ++ " " ++ f.help) :: ("# TYPE " ++ f.name ++ " " ++ f.kind.name) ::
    (f.series m).map fun s => f.name ++ s.1

end Family

open Family in
def families : List Family := [
  sizes "bulk_run_size" "Recipients processed per bulk run"
    [1, 10, 100, 1000, 10000, 100000, 1000000] (·.mailer.sizes),
  single "bulk_runs_cancelled_total" "Bulk runs cancelled before the input was exhausted" .counter
    (·.mailer.cancelled),
  single "bulk_runs_rejected_total" "Bulk runs rejected before any recipient was scheduled" .counter
    (·.mailer.refused),
  single "bulk_runs_total" "Bulk runs started" .counter (·.mailer.started),
  single "cache_entries" "Templates currently cached" .gauge (·.cache.entries),
  counters "cache_evictions_total" "Template cache entries removed" "reason"
    [("age", (·.cache.outdated)), ("capacity", (·.cache.evicted))],
  counters "cache_lookups_total" "Template cache lookups" "result"
    [("hit", (·.cache.hits)), ("miss", (·.cache.misses))],
  single "cache_single_flight_waits_total" "Callers that waited on an in-flight parse" .counter
    (·.cache.waits),
  durations "render_latency_seconds" "Render latency in seconds"
    ["0.00001", "0.00005", "0.0001", "0.0005", "0.001", "0.005", "0.01", "0.05"]
    (·.mailer.rendered),
  counters "renders_total" "Template renders" "outcome"
    [("invalid_path", (·.mailer.invalidPath)), ("missing_variable", (·.mailer.missingVariable)),
      ("success", (·.mailer.rendered)), ("worker_failed", (·.mailer.lostWorker))],
  counters "template_parses_total" "Template parses performed" "outcome"
    [("error", (·.cache.unparsed)), ("ok", (·.cache.parsed))],
  single "tracked_campaigns" "Campaigns with in-memory variation statistics" .gauge
    (·.tracker.campaigns),
  single "tracked_renders_total" "Renders recorded by the variation tracker" .counter
    (·.tracker.renders)]

end Metrics

namespace Meters

def zero : Meters := ⟨.zero, ⟨0, 0⟩, .zero⟩

def series (m : Meters) : List (String × Nat) :=
  Metrics.families.flatMap fun f =>
    (f.series m).filterMap fun s => s.2.map fun n => (f.name ++ s.1, n)

def schema : List String :=
  Metrics.families.flatMap (·.lines zero)

end Meters

end Spintax
