import Spintax.Campaign.Statistics

namespace Spintax

structure TrackerMeter where
  renders : Nat
  campaigns : Nat
deriving DecidableEq, Repr

structure Tracker where
  ledgers : List (String × Ledger)
  meter : TrackerMeter
deriving DecidableEq, Repr

namespace Tracker

def empty : Tracker := ⟨[], ⟨0, 0⟩⟩

def place (campaign : String) (l : Ledger) : List (String × Ledger) → List (String × Ledger)
  | [] => [(campaign, l)]
  | e :: es =>
    if campaign = e.1 then (campaign, l) :: es
    else if campaign < e.1 then (campaign, l) :: e :: es
    else e :: place campaign l es

def ledger? (t : Tracker) (campaign : String) : Option Ledger :=
  t.ledgers.lookup campaign

/-- Enter the choices of one message into the books of a campaign, which are
opened if there are none. -/
def record (t : Tracker) (now : Timestamp) (writer : Nat) (campaign : String)
    (choices : List Choice) : Tracker :=
  match t.ledger? campaign with
  | some l =>
    ⟨place campaign (l.enter writer choices) t.ledgers,
      ⟨t.meter.renders + 1, t.meter.campaigns⟩⟩
  | none =>
    let ledgers := place campaign ((Ledger.openAt now).enter writer choices) t.ledgers
    ⟨ledgers, ⟨t.meter.renders + 1, ledgers.length⟩⟩

def snapshot (t : Tracker) (now : Timestamp) (campaign : String) : Option Statistics :=
  (t.ledger? campaign).map fun l => .ofLedger campaign l now

def campaigns (t : Tracker) : List String :=
  t.ledgers.map (·.1)

def reset (t : Tracker) (now : Timestamp) (campaign : String) : Tracker × Option Statistics :=
  match t.snapshot now campaign with
  | some s =>
    let ledgers := t.ledgers.filter (·.1 ≠ campaign)
    (⟨ledgers, ⟨t.meter.renders, ledgers.length⟩⟩, some s)
  | none => (t, none)

end Tracker

end Spintax
