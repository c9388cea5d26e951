import Spintax.Mailing.Mailer
import Spintax.Mailing.Progress
import Spintax.Mailing.Recipient

namespace Spintax

/-- How far a scheduled recipient is. A worker that is lost while it renders is
counted as rendering until its loss is noticed. -/
inductive TaskStage where
  | waiting
  | rendering
  | rendered (o : Outcome)
  | leaving (o : Outcome)
  | finished (o : Outcome)
deriving DecidableEq, Repr

/-- A scheduled recipient, with its number in the order of scheduling. -/
structure Task where
  number : Nat
  recipient : Recipient
  stage : TaskStage
deriving DecidableEq, Repr

/-- A mailing under way. The source says who comes at which position, if anybody. -/
structure Run where
  campaign : String
  template : Template
  limit : Nat
  source : Nat → Option Recipient
  taken : Nat
  exhausted : Bool
  cancelled : Bool
  tasks : List Task
  progress : Progress
  yielded : Nat
  closed : Bool

/-- One small step of a mailing. Steps of a task name its number. -/
inductive Step where
  | schedule
  | begin (number : Nat)
  | render (number writer : Nat)
  | leave (number : Nat)
  | finish (number : Nat)
  | lose (number : Nat)
  | yield (number : Nat)
  | cancel
  | close
deriving DecidableEq, Repr

namespace Run

def start (campaign : String) (t : Template) (limit : Nat) (source : Nat → Option Recipient) :
    Run :=
  ⟨campaign, t, limit, source, 0, false, false, [], .zero, 0, false⟩

variable (r : Run)

def task? (number : Nat) : Option Task :=
  r.tasks.find? (·.number = number)

def move (number : Nat) (stage : TaskStage) : Run :=
  { r with tasks := r.tasks.map fun t => if t.number = number then { t with stage } else t }

/-- Take the next recipient from the source. After a cancellation nobody is scheduled
any more. -/
def schedule : Run :=
  match r.source r.taken with
  | none => { r with exhausted := true }
  | some p =>
    if r.cancelled then { r with taken := r.taken + 1, exhausted := true }
    else
      { r with
        taken := r.taken + 1
        tasks := r.tasks ++ [⟨r.progress.scheduled, p, .waiting⟩]
        progress := r.progress.schedule }

/-- The end of a mailing is noted once. -/
def close (m : Mailer) : Run × Mailer :=
  if r.closed then (r, m)
  else
    ({ r with closed := true },
      { m with meter :=
        { m.meter with
          cancelled := m.meter.cancelled + r.cancelled.toNat
          sizes := r.yielded :: m.meter.sizes } })

end Run

/-- A mailing and its mailer. -/
structure Shift where
  mailer : Mailer
  run : Run

namespace Shift

variable (s : Shift) (now : Timestamp)

def taskStep (n : Nat) (t : Task) : Step → Option (Option Outcome × Shift)
  | .begin _ =>
    match t.stage with
    | .waiting =>
      some (none,
        { s with run := { s.run.move n .rendering with progress := s.run.progress.enter } })
    | _ => none
  | .render _ writer =>
    match t.stage with
    | .rendering =>
      let (o, mailer) := s.mailer.render now writer s.run.campaign s.run.template t.recipient.id
        t.recipient.values
      some (none, ⟨mailer, s.run.move n (.rendered o)⟩)
    | _ => none
  | .leave _ =>
    match t.stage with
    | .rendered o =>
      some (none,
        { s with run := { s.run.move n (.leaving o) with progress := s.run.progress.leave } })
    | _ => none
  | .finish _ =>
    match t.stage with
    | .leaving o =>
      let progress := s.run.progress.finish o.isSuccess
      some (none, { s with run := { s.run.move n (.finished o) with progress } })
    | _ => none
  | .lose _ =>
    match t.stage with
    | .waiting =>
      let o := .failed ⟨t.recipient.id, .lostWorker "cancelled"⟩
      some (none,
        ⟨{ s.mailer with meter := s.mailer.meter.count o }, s.run.move n (.leaving o)⟩)
    | _ => none
  | .yield _ =>
    match t.stage with
    | .finished o =>
      let tasks := s.run.tasks.filter (·.number ≠ n)
      some (some o, { s with run := { s.run with tasks, yielded := s.run.yielded + 1 } })
    | _ => none
  | _ => none

/-- Take a step, if it can be taken. A step that yields an outcome tells it. -/
def step (a : Step) : Option (Option Outcome × Shift) :=
  match a with
  | .schedule =>
    if s.run.exhausted || s.run.limit ≤ s.run.tasks.length then none
    else some (none, { s with run := s.run.schedule })
  | .cancel => some (none, { s with run := { s.run with cancelled := true } })
  | .close =>
    if s.run.exhausted && s.run.tasks.isEmpty then
      let (run, mailer) := s.run.close s.mailer
      some (none, ⟨mailer, run⟩)
    else none
  | .begin n | .render n _ | .leave n | .finish n | .lose n | .yield n =>
    match s.run.task? n with
    | some t => s.taskStep now n t a
    | none => none

/-- Take some steps in turn and collect what they yield. One that cannot be taken is
passed over. -/
def perform : List Step → Shift → List Outcome × Shift
  | [], s => ([], s)
  | a :: as, s =>
    match s.step now a with
    | none => perform as s
    | some (o, s) =>
      let (os, s) := perform as s
      (o.toList ++ os, s)

def fill : Nat → Shift → Shift
  | 0, s => s
  | n + 1, s =>
    match s.step now .schedule with
    | some (_, s) => fill n s
    | none => s

def service (n : Nat) : List Step :=
  [.begin n, .render n 0, .leave n, .finish n, .yield n]

/-- Wait for the next outcome. At the end there is none. -/
def pull : Option Outcome × Shift :=
  let s := fill now s.run.limit s
  match s.run.tasks with
  | t :: _ =>
    let (os, s) := perform now (service t.number) s
    (os.head?, s)
  | [] => (none, (perform now [.close] s).2)

def pulls : Nat → Shift → List Outcome × Shift
  | 0, s => ([], s)
  | n + 1, s =>
    match pull s now with
    | (none, s) => ([], s)
    | (some o, s) =>
      let (os, s) := pulls n s
      (o :: os, s)

def cancel : Shift :=
  (perform now [.cancel] s).2

end Shift

end Spintax
