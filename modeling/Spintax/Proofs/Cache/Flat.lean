import Spintax.Cache.Session

namespace Spintax.Cache

/-- A parse that is kept for its text since a certain moment. -/
structure Kept where
  text : String
  parse : Parse
  since : Nat

def Kept.isExpired (maxAge now : Nat) (k : Kept) : Bool :=
  maxAge ≤ now - k.since

/-- What was used the longest time ago is the first in `kept`. -/
structure Flat where
  limits : Limits
  kept : List Kept
  stats : Stats

/-- What a step shows: its answer, and what was counted up to then. -/
structure Seen where
  answer : Answer
  stats : Stats
  entries : Nat

namespace Flat

def empty (limits : Limits) : Flat :=
  ⟨limits, [], .zero⟩

variable (f : Flat)

def lookup (now : Nat) (text : String) : Option Parse × Flat :=
  match f.kept.find? (·.text = text) with
  | none => (none, f)
  | some k =>
    let others := f.kept.filter (·.text ≠ text)
    if k.isExpired f.limits.maxAge now then
      (none, { f with
        kept := others
        stats := { f.stats with expirations := f.stats.expirations + 1 } })
    else (some k.parse, { f with kept := others ++ [k] })

def get (now : Nat) (text : String) : Option Parse × Flat :=
  match f.lookup now text with
  | (some p, f) => (some p, { f with stats := { f.stats with hits := f.stats.hits + 1 } })
  | (none, f) => (none, { f with stats := { f.stats with misses := f.stats.misses + 1 } })

def purge (now : Nat) : Nat × Flat :=
  let n := (f.kept.filter (·.isExpired f.limits.maxAge now)).length
  (n, { f with
    kept := f.kept.filter fun k => !k.isExpired f.limits.maxAge now
    stats := { f.stats with expirations := f.stats.expirations + n } })

def evict (n : Nat) : Flat :=
  { f with
    kept := f.kept.drop n
    stats := { f.stats with evictions := f.stats.evictions + n } }

def fit (now : Nat) : Flat :=
  if f.limits.capacity < f.kept.length then
    let f := (f.purge now).2
    f.evict (f.kept.length - f.limits.capacity)
  else f

def insert (now : Nat) (text : String) (p : Parse) : Flat :=
  fit { f with kept := f.kept ++ [⟨text, p, now⟩] } now

def parse (text : String) : Except Fault Parse × Flat :=
  let stats := { f.stats with parses := f.stats.parses + 1 }
  match Template.parse text with
  | .ok t => (.ok ⟨f.stats.parses, t⟩, { f with stats })
  | .error e =>
    (.error e, { f with stats := { stats with parseFailures := stats.parseFailures + 1 } })

def resolve (now : Nat) (text : String) : Except Fault Parse × Flat :=
  match f.get now text with
  | (some p, f) => (.ok p, f)
  | (none, f) =>
    match f.parse text with
    | (.ok p, f) => (.ok p, f.insert now text p)
    | (.error e, f) => (.error e, f)

def step (now : Nat) : Request → Answer × Nat × Flat
  | .get text =>
    let (p, f) := f.get now text
    (.found p, now, f)
  | .resolve text =>
    let (r, f) := f.resolve now text
    (.resolved r, now, f)
  | .purge =>
    let (n, f) := f.purge now
    (.purged n, now, f)
  | .clear => (.done, now, { f with kept := [] })
  | .pass ms => (.done, now + ms, f)

def trace : List Request → Nat → Flat → List Seen
  | [], _, _ => []
  | r :: rs, now, f =>
    let (a, now, f) := f.step now r
    ⟨a, f.stats, f.kept.length⟩ :: trace rs now f

end Flat

/-- What is seen while one request follows the other. At each request the entries of the
store may be in another order. -/
def Session.trace : List (Order × Request) → Session → List Seen
  | [], _ => []
  | (order, r) :: rs, s =>
    let (a, s) := { s with cache := { s.cache with order } }.step r
    ⟨a, s.cache.stats, s.cache.size⟩ :: trace rs s

end Spintax.Cache
