import Spintax.Cache.Basic

namespace Spintax.Cache

abbrev Outcome := Except Fault Parse

/-- How far a caller is. From `leading` to `releasing` it holds the slot of its text. -/
inductive Stage where
  | asking
  | missed
  | waiting (flight : Nat)
  | leading (flight : Nat)
  | parsing (flight : Nat)
  | keeping (flight : Nat) (p : Parse)
  | releasing (flight : Nat) (r : Outcome)
  | publishing (flight : Nat) (r : Outcome)
  | answered (r : Outcome)

structure Caller where
  text : String
  stage : Stage

/-- A cache with its callers, the slots of the texts that are being parsed, and the
outcomes that were published. Flights are numbered. -/
structure Crowd where
  cache : Cache
  callers : List Caller
  slots : List (String × Nat)
  published : List (Nat × Outcome)
  flights : Nat

namespace Crowd

def start (cache : Cache) (texts : List String) : Crowd :=
  ⟨cache, texts.map fun text => ⟨text, .asking⟩, [], [], 0⟩

def move (w : Crowd) (i : Nat) (stage : Stage) : Crowd :=
  { w with callers := w.callers.modify i fun c => { c with stage } }

/-- The next step of caller `i`, which asks for `text`. There is none for one who has
to wait or has an answer. -/
def stepFrom (w : Crowd) (now i : Nat) (text : String) : Stage → Option Crowd
  | .asking =>
    match w.cache.get now text with
    | (some p, cache) => some ({ w with cache }.move i (.answered (.ok p)))
    | (none, cache) => some ({ w with cache }.move i .missed)
  | .missed =>
    match w.slots.lookup text with
    | some flight => some ({ w with cache := w.cache.wait }.move i (.waiting flight))
    | none =>
      some ({ w with slots := (text, w.flights) :: w.slots, flights := w.flights + 1 }.move i
        (.leading w.flights))
  | .waiting flight => (w.published.lookup flight).map fun r => w.move i (.answered r)
  | .leading flight =>
    match w.cache.lookup now text with
    | (some p, cache) => some ({ w with cache }.move i (.releasing flight (.ok p)))
    | (none, cache) => some ({ w with cache }.move i (.parsing flight))
  | .parsing flight =>
    match w.cache.parse text with
    | (.ok p, cache) => some ({ w with cache }.move i (.keeping flight p))
    | (.error f, cache) => some ({ w with cache }.move i (.releasing flight (.error f)))
  | .keeping flight p =>
    some ({ w with cache := w.cache.insert now text p }.move i (.releasing flight (.ok p)))
  | .releasing flight r =>
    some ({ w with slots := w.slots.filter (· ≠ (text, flight)) }.move i (.publishing flight r))
  | .publishing flight r =>
    some ({ w with published := (flight, r) :: w.published }.move i (.answered r))
  | .answered _ => none

def step (w : Crowd) (now i : Nat) : Option Crowd :=
  match w.callers[i]? with
  | some c => w.stepFrom now i c.text c.stage
  | none => none

/-- Let the callers of `schedule` go on in turn. One who cannot is passed over. -/
def run (now : Nat) (schedule : List Nat) (w : Crowd) : Crowd :=
  schedule.foldl (fun w i => (w.step now i).getD w) w

/-- A schedule in which each of `n` callers takes a step before any takes its next. -/
def rounds (n : Nat) : List Nat :=
  (List.replicate 8 (List.range n)).flatten

def answers (w : Crowd) : List Outcome :=
  w.callers.filterMap fun c =>
    match c.stage with
    | .answered r => some r
    | _ => none

end Crowd

end Spintax.Cache
