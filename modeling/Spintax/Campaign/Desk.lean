import Spintax.Campaign.Tracker

namespace Spintax

/-- Statistics that are being gathered, with the sum of the shards before the next one. Once the
books of the campaign are closed, the reading goes on with the closed ones. -/
structure Reading where
  campaign : String
  closed : Option Ledger
  next : Nat
  sum : Shard
deriving DecidableEq, Repr

structure Desk where
  tracker : Tracker
  readings : List Reading
deriving DecidableEq, Repr

namespace Reading

def start (campaign : String) (closed : Option Ledger) : Reading :=
  ⟨campaign, closed, 0, .empty⟩

def books (r : Reading) (t : Tracker) : Option Ledger :=
  r.closed.or (t.ledger? r.campaign)

def close (campaign : String) (l : Ledger) (r : Reading) : Reading :=
  if r.campaign = campaign then { r with closed := r.closed.or (some l) } else r

/-- Read the next shard. With the last one the statistics are known. -/
def read (r : Reading) (l : Ledger) (now : Timestamp) : Option Statistics × Reading :=
  match l.shards[r.next]? with
  | some s =>
    let r := { r with next := r.next + 1, sum := r.sum.merge s }
    (if r.next = Ledger.shardCount then some (.ofShard r.campaign r.sum l.openedAt now) else none,
      r)
  | none => (none, r)

end Reading

namespace Desk

def empty : Desk := ⟨.empty, []⟩

/-- What happens at a desk at one moment. Readings are numbered in the order in which they begin. -/
inductive Event where
  | record (now : Timestamp) (writer : Nat) (campaign : String) (choices : List Choice)
  | snapshot (campaign : String)
  | reset (now : Timestamp) (campaign : String)
  | read (now : Timestamp) (reading : Nat)
deriving DecidableEq, Repr

variable (d : Desk)

/-- An event, and the statistics that are answered with it. There are none for a campaign without
books. -/
def step : Event → Option (Option Statistics) × Desk
  | .record now writer campaign choices =>
    (none, { d with tracker := d.tracker.record now writer campaign choices })
  | .snapshot campaign =>
    match d.tracker.ledger? campaign with
    | some _ => (none, { d with readings := d.readings ++ [.start campaign none] })
    | none => (some none, d)
  | .reset now campaign =>
    match d.tracker.ledger? campaign with
    | some l =>
      (none, ⟨(d.tracker.reset now campaign).1,
        d.readings.map (.close campaign l) ++ [.start campaign (some l)]⟩)
    | none => (some none, d)
  | .read now n =>
    match d.readings[n]? with
    | some r =>
      match r.books d.tracker with
      | some l =>
        let (s, r) := r.read l now
        (s.map some, { d with readings := d.readings.set n r })
      | none => (none, d)
    | none => (none, d)

def after : List Event → Desk → Desk
  | [], d => d
  | e :: es, d => after es (d.step e).2

end Desk

end Spintax
