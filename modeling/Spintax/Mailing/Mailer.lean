import Spintax.Cache.Basic
import Spintax.Campaign.Tracker
import Spintax.Mailing.Concurrency
import Spintax.Mailing.Outcome

namespace Spintax

/-- What a mailer tells the operators. The sizes are those of the mailings that came
to their end. -/
structure MailerMeter where
  started : Nat
  refused : Nat
  cancelled : Nat
  sizes : List Nat
  rendered : Nat
  missingVariable : Nat
  invalidPath : Nat
  lostWorker : Nat
deriving DecidableEq, Repr

/-- What the mailings share: parsed templates, statistics, the way to deal with
missing values, and random words for the messages in the order in which they
are rendered. -/
structure Mailer where
  cache : Cache
  tracker : Tracker
  policy : Policy
  concurrency : Concurrency
  supply : Nat → Supply
  served : Nat
  meter : MailerMeter

namespace MailerMeter

def zero : MailerMeter := ⟨0, 0, 0, [], 0, 0, 0, 0⟩

def count (m : MailerMeter) : Outcome → MailerMeter
  | .succeeded _ => { m with rendered := m.rendered + 1 }
  | .failed ⟨_, .render (.missingVariable _)⟩ =>
    { m with missingVariable := m.missingVariable + 1 }
  | .failed ⟨_, .render _⟩ => { m with invalidPath := m.invalidPath + 1 }
  | .failed _ => { m with lostWorker := m.lostWorker + 1 }

end MailerMeter

namespace Mailer

def start (cache : Cache) (policy : Policy) (concurrency : Concurrency)
    (supply : Nat → Supply) : Mailer :=
  ⟨cache, .empty, policy, concurrency, supply, 0, .zero⟩

def refuse (m : Mailer) (r : Refusal) : Except Refusal (Nat × Template) × Mailer :=
  (.error r, { m with meter := { m.meter with refused := m.meter.refused + 1 } })

def accept (m : Mailer) (now : Nat) (text : String) (request : Option Nat) :
    Except Refusal (Nat × Template) × Mailer :=
  match m.concurrency.limit request with
  | .error r => m.refuse r
  | .ok limit =>
    match m.cache.resolve now text with
    | (.error fault, cache) => { m with cache }.refuse (.badTemplate fault)
    | (.ok parse, cache) =>
      (.ok (limit, parse.template),
        { m with cache, meter := { m.meter with started := m.meter.started + 1 } })

/-- Enter a rendered message into the statistics. Nothing is known of other outcomes. -/
def record (m : Mailer) (now : Timestamp) (writer : Nat) (campaign : String) :
    Drawn (Except RenderError Rendered) → Tracker
  | .ok (.ok r, _) => m.tracker.record now writer campaign r.choices
  | _ => m.tracker

def render (m : Mailer) (now : Timestamp) (writer : Nat) (campaign : String) (t : Template)
    (id : String) (vs : Variables) : Outcome × Mailer :=
  let drawn := t.renderRandom m.policy vs (m.supply m.served)
  let outcome := .ofDrawn id drawn
  (outcome,
    { m with
      tracker := m.record now writer campaign drawn
      served := m.served + 1
      meter := m.meter.count outcome })

end Mailer

end Spintax
