import Spintax.Json.Writer
import Spintax.Mailing.Run

namespace Spintax

inductive DeliveryError where
  | refused (reason : String)
  | medium (reason : String)
deriving DecidableEq, Repr

def DeliveryError.message : DeliveryError → String
  | refused reason => "Delivery rejected: " ++ reason
  | medium reason => "I/O error: " ++ reason

/-- Where messages go to. A delivery may change the state of the sink, also when it
fails. -/
structure Sink (σ : Type) where
  deliver : Message → σ → Except DeliveryError Unit × σ

/-- Bytes that were written where no more than `room` others fit, if that is limited. -/
structure Medium where
  written : ByteArray
  room : Option Nat

namespace Medium

def unlimited : Medium := ⟨.empty, none⟩

def write (bytes : ByteArray) (m : Medium) : Except DeliveryError Unit × Medium :=
  match m.room with
  | none => (.ok (), ⟨m.written ++ bytes, none⟩)
  | some room =>
    if bytes.size ≤ room then (.ok (), ⟨m.written ++ bytes, some (room - bytes.size)⟩)
    else (.error (.medium "disk full"), ⟨m.written ++ bytes.extract 0 room, some 0⟩)

end Medium

namespace Sink

variable {σ : Type}

def memory : Sink (List Message) where
  deliver m ms := (.ok (), ms ++ [m])

def jsonLines : Sink Medium where
  deliver m medium := medium.write (m.toJson.compact ++ "\n").toUTF8

def refusing (reason? : Message → Option String) (sink : Sink σ) : Sink σ where
  deliver m s :=
    match reason? m with
    | some reason => (.error (.refused reason), s)
    | none => sink.deliver m s

end Sink

/-- What a mailing led to. Failures come in the order in which they were met. -/
structure Summary where
  campaign : String
  succeeded : Nat
  failed : Nat
  deliveryFailures : Nat
  cancelled : Bool
  failures : List Failure
deriving DecidableEq, Repr

namespace Summary

def empty (campaign : String) (cancelled : Bool) : Summary :=
  ⟨campaign, 0, 0, 0, cancelled, []⟩

def total (s : Summary) : Nat :=
  s.succeeded + s.failed + s.deliveryFailures

def push (s : Summary) : Outcome → Except DeliveryError Unit → Summary
  | .succeeded _, .ok () => { s with succeeded := s.succeeded + 1 }
  | .succeeded m, .error e =>
    { s with
      deliveryFailures := s.deliveryFailures + 1
      failures := ⟨m.recipient, .delivery e.message⟩ :: s.failures }
  | .failed f, _ => { s with failed := s.failed + 1, failures := f :: s.failures }

def toJson (s : Summary) (runId : String) : Json.Value :=
  .object [("run_id", .text runId), ("campaign_id", .text s.campaign),
    ("succeeded", .ofNat s.succeeded), ("failed", .ofNat s.failed),
    ("delivery_failures", .ofNat s.deliveryFailures), ("cancelled", .bool s.cancelled),
    ("failures", .list (s.failures.map Failure.toJson))]

end Summary

namespace Sink

variable {σ : Type} (sink : Sink σ)

def offer : Outcome → σ → Except DeliveryError Unit × σ
  | .succeeded m, s => sink.deliver m s
  | .failed _, s => (.ok (), s)

/-- Hand over the messages of some outcomes in turn. What fails stops nothing. -/
def offerAll (campaign : String) (cancelled : Bool) : List Outcome → σ → Summary × σ
  | [], s => (.empty campaign cancelled, s)
  | o :: os, s =>
    let (r, s) := sink.offer o s
    let (summary, s) := offerAll campaign cancelled os s
    (summary.push o r, s)

end Sink

def Shift.deliverTo {σ : Type} (s : Shift) (now : Timestamp) (n : Nat) (sink : Sink σ)
    (state : σ) : Summary × σ × Shift :=
  let (os, s) := s.pulls now n
  let (summary, state) := sink.offerAll s.run.campaign s.run.cancelled os state
  (summary, state, s)

end Spintax
