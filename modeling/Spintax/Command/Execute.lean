import Spintax.Command.Arguments
import Spintax.Command.Log
import Spintax.Files
import Spintax.Logging.Filter
import Spintax.Mailing.Delivery
import Spintax.Mailing.Job
import Spintax.Mailing.Roster
import Spintax.Settings
import Spintax.Template.Report
import Spintax.Text.Crc32

namespace Spintax.Command

/-- What a command leaves behind. -/
structure Output where
  exit : UInt32
  out : ByteArray
  err : String

/-- What a command finds around it. The name of the run and the time come from outside,
and so do the random words of each message. -/
structure World where
  env : Config.Environment
  files : Files
  now : Timestamp
  runId : String
  supply : Nat → Supply

namespace Output

def usage : Output where
  exit := 2
  out := .empty
  err := "usage: validate FILE\n" ++
    "       run JOB [--recipients FILE] [--concurrency N] [--export FORMAT]\n"

def badSettings (reason : String) : Output :=
  ⟨1, .empty, "Error: " ++ reason ++ "\n"⟩

def breakdown (reason : String) : Output :=
  ⟨101, .empty, reason ++ "\n"⟩

def ofLoadError : Settings.LoadError → Output
  | .malformed => badSettings "Failed to load configuration"
  | .badPosition => breakdown "A position in a key is in front of a list"
  | .badVariable => breakdown "A variable cannot be set"

def ofFilterError (level : String) : Logging.FilterError → Output
  | .splitCharacter => breakdown Logging.FilterError.splitCharacter.message
  | e => badSettings (Error.logging level e).message

def ofError (log : String) (e : Error) : Output :=
  ⟨1, .empty, log ++ e.toJson.pretty ++ "\n"⟩

def ofReport (r : Report) : Output :=
  ⟨if r.isValid then 0 else 1, (r.toJson.pretty ++ "\n").toUTF8, ""⟩

end Output

/-- Why a command cannot be carried out, and what is logged of it. -/
structure Setback where
  error : Error
  events : List Logging.Event := []

def withFile {α : Type} (file message : String) (r : Except FileError α) : Except Setback α :=
  r.mapError fun e => ⟨.medium e.message, [Log.unusable file message e]⟩

def validate (w : World) (file : String) : Except Setback Output :=
  (withFile file "Failed to read template" (w.files.text file)).map fun text =>
    .ofReport (.ofText text)

def statistics (w : World) (t : Tracker) (campaign : String) (format : ExportFormat) : String :=
  match t.export w.now campaign format with
  | .ok text => text ++ "\n"
  | .error _ => ""

def send (w : World) (shift : Shift) (count : Nat) (format : ExportFormat) : Output :=
  let (summary, medium, shift) := shift.deliverTo w.now (count + 1) .jsonLines .unlimited
  ⟨0, medium.written,
    statistics w shift.mailer.tracker summary.campaign format ++
      (summary.toJson w.runId).pretty ++ "\n"⟩

/-- Render the messages of a job, for its own recipients and then for those in a file. -/
def run (w : World) (s : Settings) (file : String) (recipients : Option String)
    (concurrency : Option Nat) (format : Option ExportFormat) : Except Setback Output := do
  let text ← withFile file "Failed to read job" (w.files.text file)
  let job ← (Job.ofJson text).mapError fun e => ⟨.job e, []⟩
  let limits ← (Cache.Limits.make s.capacity (s.maxAgeSeconds * 1000)).mapError fun e =>
    ⟨.cache e, []⟩
  let others ← match recipients with
    | some name =>
      (withFile name "Failed to open recipients" (w.files.bytes name)).map Roster.ofBytes
    | none => .ok []
  let request := concurrency <|> job.concurrency
  let mailer := Mailer.start (.empty limits Text.crc32) s.policy s.concurrency w.supply
  match mailer.accept 0 job.template request with
  | (.error r, _) => .error ⟨.mailing r, Log.refused job request r⟩
  | (.ok (limit, t), mailer) =>
    let all := (job.recipients ++ others).toArray
    let shift := ⟨mailer, .start job.campaign t limit (all[·]?)⟩
    return send w shift all.size (format.getD s.exportFormat)

/-- The filter of the environment goes before the one in the settings. -/
def logFilter (env : Config.Environment) (s : Settings) :
    Except Logging.FilterError Logging.Filter :=
  match (env.get? "RUST_LOG").map Logging.Filter.ofText with
  | some (.ok filter) => .ok filter
  | some (.error .splitCharacter) => .error .splitCharacter
  | _ => Logging.Filter.ofText s.logLevel

def logLines (filter : Logging.Filter) (format : LogFormat) (now : Timestamp)
    (events : List Logging.Event) : String :=
  let line := fun e : Logging.Event =>
    match format with
    | .pretty => e.describe now
    | .json => (e.toJson now).compact
  String.join ((events.filter filter.admits).map (line · ++ "\n"))

def perform (w : World) (s : Settings) : Invocation → Except Setback Output
  | .validate file => validate w file
  | .run job recipients concurrency format => run w s job recipients concurrency format

def prepare (w : World) : Except Output (Settings × Logging.Filter) := do
  let env ← (Settings.environment w.env w.files).mapError .ofLoadError
  let s ← (Settings.load w.env w.files).mapError .ofLoadError
  let filter ← (logFilter env s).mapError (.ofFilterError s.logLevel)
  return (s, filter)

/-- Carry out a command line. The log comes out if that fails. -/
def execute (w : World) (words : List String) : Output :=
  match Invocation.ofWords? w.env words, prepare w with
  | none, _ => .usage
  | some _, .error o => o
  | some invocation, .ok (s, filter) =>
    match perform w s invocation with
    | .ok o => o
    | .error b =>
      let events := [Log.begun s, Log.loaded] ++ b.events ++ [Log.failed b.error]
      .ofError (logLines filter s.logFormat w.now events) b.error

end Spintax.Command
