import Spintax.Cache.Limits
import Spintax.Cache.Stats
import Spintax.Cache.Store
import Spintax.Template.Parser

namespace Spintax

structure Cache where
  limits : Cache.Limits
  fingerprint : String → UInt32
  order : Cache.Order
  store : Cache.Store
  ticks : Nat
  stats : Cache.Stats
  meter : Cache.Meter

namespace Cache

def empty (limits : Limits) (fingerprint : String → UInt32) : Cache :=
  ⟨limits, fingerprint, .asKept, .empty, 0, .zero, .zero⟩

variable (c : Cache)

def size : Nat := c.store.size

def hit : Cache :=
  { c with
    stats := { c.stats with hits := c.stats.hits + 1 }
    meter := { c.meter with hits := c.meter.hits + 1 } }

def miss : Cache :=
  { c with
    stats := { c.stats with misses := c.stats.misses + 1 }
    meter := { c.meter with misses := c.meter.misses + 1 } }

def wait : Cache :=
  { c with
    stats := { c.stats with waits := c.stats.waits + 1 }
    meter := { c.meter with waits := c.meter.waits + 1 } }

def expire (n : Nat) (store : Store) : Cache :=
  { c with
    store
    stats := { c.stats with expirations := c.stats.expirations + n }
    meter := { c.meter with outdated := c.meter.outdated + n, entries := store.size } }

/-- The parse that is kept for `text`. One that is too old goes. -/
def lookup (now : Nat) (text : String) : Option Parse × Cache :=
  let key := c.fingerprint text
  match c.store.find? key text with
  | none => (none, c)
  | some e =>
    if e.isExpired c.limits.maxAge now then
      match c.store.remove? key text with
      | some store => (none, c.expire 1 store)
      | none => (none, c)
    else (some e.parse, { c with store := c.store.touch key text c.ticks, ticks := c.ticks + 1 })

def purge (now : Nat) : Nat × Cache :=
  let old := (c.order.arrange c.store.entries).filter fun e => e.2.isExpired c.limits.maxAge now
  let (n, store) := Store.removeAll old c.store
  (n, if n = 0 then { c with store } else c.expire n store)

/-- Remove everything. What was counted stays counted. -/
def clear : Cache :=
  { c with store := .empty, meter := { c.meter with entries := 0 } }

def evict? : Option Cache :=
  match Entry.oldest? (c.order.arrange c.store.entries) with
  | none => none
  | some (key, e) => (c.store.remove? key e.text).map fun store =>
    { c with
      store
      stats := { c.stats with evictions := c.stats.evictions + 1 }
      meter := { c.meter with evicted := c.meter.evicted + 1 } }

def shrink : Nat → Cache → Cache
  | 0, c => c
  | n + 1, c =>
    match c.evict? with
    | some c => shrink n c
    | none => c

/-- Make room. What is too old goes first. -/
def fit (now : Nat) : Cache :=
  if c.limits.capacity < c.size then
    let c := (c.purge now).2
    shrink (c.size - c.limits.capacity) c
  else c

def tell : Cache :=
  { c with meter := { c.meter with entries := c.size } }

def insert (now : Nat) (text : String) (p : Parse) : Cache :=
  let store := c.store.insert (c.fingerprint text) ⟨text, p, now, c.ticks⟩
  let c' := { c with store, ticks := c.ticks + 1 }
  if store.size = c.store.size then c' else (c'.fit now).tell

/-- Parse a text without keeping the result. Parses are numbered. -/
def parse (text : String) : Except Fault Parse × Cache :=
  let stats := { c.stats with parses := c.stats.parses + 1 }
  match Template.parse text with
  | .ok t =>
    (.ok ⟨c.stats.parses, t⟩,
      { c with stats, meter := { c.meter with parsed := c.meter.parsed + 1 } })
  | .error f =>
    (.error f,
      { c with
        stats := { stats with parseFailures := c.stats.parseFailures + 1 }
        meter := { c.meter with unparsed := c.meter.unparsed + 1 } })

def parseAndKeep (now : Nat) (text : String) : Except Fault Parse × Cache :=
  match c.parse text with
  | (.ok p, c) => (.ok p, c.insert now text p)
  | (.error f, c) => (.error f, c)

def get (now : Nat) (text : String) : Option Parse × Cache :=
  match c.lookup now text with
  | (some p, c) => (some p, c.hit)
  | (none, c) => (none, c.miss)

/-- The parse of `text` for somebody who found none a moment ago. -/
def lead (now : Nat) (text : String) : Except Fault Parse × Cache :=
  match c.lookup now text with
  | (some p, c) => (.ok p, c)
  | (none, c) => c.parseAndKeep now text

/-- The parse of `text`, which is kept from now on. -/
def resolve (now : Nat) (text : String) : Except Fault Parse × Cache :=
  match c.get now text with
  | (some p, c) => (.ok p, c)
  | (none, c) => c.lead now text

end Cache

end Spintax
