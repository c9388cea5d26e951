import Spintax.Campaign.Ledger
import Spintax.Number.Binary64

namespace Spintax

/-- How often each branch of a group was shown, and how often the group was. -/
structure GroupCounts where
  renders : Nat
  branches : List (Nat × Nat)
deriving DecidableEq, Repr

/-- What is known of a campaign at one moment. Groups ascend, and so do the
branches of each. -/
structure Statistics where
  campaign : String
  renders : Nat
  groups : List (Nat × GroupCounts)
  firstRecordedAt : Timestamp
  capturedAt : Timestamp
deriving DecidableEq, Repr

namespace GroupCounts

/-- Put the count of a branch in front of the counts of later ones. -/
def push (g : GroupCounts) (branch count : Nat) : GroupCounts :=
  ⟨count + g.renders, (branch, count) :: g.branches⟩

def count (g : GroupCounts) (branch : Nat) : Nat :=
  (g.branches.lookup branch).getD 0

def share (g : GroupCounts) (branch : Nat) : Number.Binary64 :=
  if g.renders = 0 then .zero
  else .div (.ofNat (g.count branch)) (.ofNat g.renders)

end GroupCounts

namespace Statistics

/-- Collect consecutive counts of one group. -/
def group : List (Choice × Nat) → List (Nat × GroupCounts)
  | [] => []
  | (c, n) :: es =>
    match group es with
    | (g, counts) :: gs =>
      if g = c.group then (g, counts.push c.branch n) :: gs
      else (c.group, ⟨n, [(c.branch, n)]⟩) :: (g, counts) :: gs
    | [] => [(c.group, ⟨n, [(c.branch, n)]⟩)]

def ofLedger (campaign : String) (l : Ledger) (now : Timestamp) : Statistics where
  campaign
  renders := l.total.messages
  groups := group l.total.tally.entries
  firstRecordedAt := l.openedAt
  capturedAt := now

def ofShard (campaign : String) (s : Shard) (openedAt now : Timestamp) : Statistics where
  campaign
  renders := s.messages
  groups := group s.tally.entries
  firstRecordedAt := openedAt
  capturedAt := now

def group? (s : Statistics) (index : Nat) : Option GroupCounts :=
  s.groups.lookup index

def count (s : Statistics) (group branch : Nat) : Nat :=
  match s.group? group with
  | some g => g.count branch
  | none => 0

end Statistics

end Spintax
