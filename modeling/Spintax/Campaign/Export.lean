import Spintax.Campaign.Tracker
import Spintax.Csv
import Spintax.Json.Writer
import Spintax.Text.Blank

namespace Spintax

inductive ExportFormat where
  | json
  | csv
deriving DecidableEq, Repr

inductive TrackerError where
  | unknownCampaign (name : String)
  | badFormat (text : String)
deriving DecidableEq, Repr

def TrackerError.message : TrackerError → String
  | unknownCampaign name => s!"Unknown campaign: {name}"
  | badFormat text => s!"Invalid export format: {text} (expected json or csv)"

namespace ExportFormat

def name : ExportFormat → String
  | json => "json"
  | csv => "csv"

/-- The format with the given name, blanks around it and capitals aside. -/
def ofName (text : String) : Except TrackerError ExportFormat :=
  let text := Text.lower (Text.trim text)
  if text = "json" then .ok json
  else if text = "csv" then .ok csv
  else .error (.badFormat text)

end ExportFormat

namespace GroupCounts

def toJson (g : GroupCounts) : Json.Value :=
  .object [("renders", .ofNat g.renders),
    ("alternatives", .object (g.branches.map fun (i, n) => (toString i, .ofNat n)))]

end GroupCounts

namespace Statistics

def toJson (s : Statistics) : Json.Value :=
  .object [("campaign_id", .text s.campaign),
    ("total_renders", .ofNat s.renders),
    ("groups", .object (s.groups.map fun (i, g) => (toString i, g.toJson))),
    ("first_recorded_at", .text s.firstRecordedAt),
    ("captured_at", .text s.capturedAt)]

def sharePlaces : Nat := 4

def header : List String :=
  ["campaign_id", "group", "alternative", "count", "share"]

def rows (s : Statistics) : List (List String) :=
  s.groups.flatMap fun (i, g) => g.branches.map fun (j, n) =>
    [s.campaign, toString i, toString j, toString n, (g.share j).fixed sharePlaces]

def toCsv (s : Statistics) : String :=
  Csv.write (header :: s.rows)

def write (s : Statistics) : ExportFormat → String
  | .json => s.toJson.pretty
  | .csv => s.toCsv

end Statistics

def Tracker.export (t : Tracker) (now : Timestamp) (campaign : String) (format : ExportFormat) :
    Except TrackerError String :=
  match t.snapshot now campaign with
  | some s => .ok (s.write format)
  | none => .error (.unknownCampaign campaign)

end Spintax
