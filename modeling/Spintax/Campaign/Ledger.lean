import Spintax.Campaign.Tally

namespace Spintax

/-- A point in time, in the words of the clock that the caller uses. -/
abbrev Timestamp := String

/-- Whole messages entered by some of the writers. -/
structure Shard where
  messages : Nat
  tally : Tally
deriving DecidableEq, Repr

structure Ledger where
  shards : List Shard
  openedAt : Timestamp
deriving DecidableEq, Repr

namespace Shard

def empty : Shard := ⟨0, .empty⟩

def enter (s : Shard) (choices : List Choice) : Shard :=
  ⟨s.messages + 1, s.tally.addAll choices⟩

def merge (s t : Shard) : Shard :=
  ⟨s.messages + t.messages, s.tally.merge t.tally⟩

end Shard

namespace Ledger

def shardCount : Nat := 16

def openAt (now : Timestamp) : Ledger :=
  ⟨List.replicate shardCount .empty, now⟩

def enter (l : Ledger) (writer : Nat) (choices : List Choice) : Ledger :=
  { l with shards := l.shards.modify (writer % shardCount) (·.enter choices) }

def total (l : Ledger) : Shard :=
  l.shards.foldl .merge .empty

end Ledger

end Spintax
