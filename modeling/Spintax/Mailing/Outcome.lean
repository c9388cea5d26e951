import Spintax.Json.Value
import Spintax.Render

namespace Spintax

structure Message where
  recipient : String
  text : String
  path : Path
deriving DecidableEq, Repr

/-- Why a recipient got no message: it could not be rendered, it could not be
delivered, or the worker that rendered it was lost. -/
inductive Cause where
  | render (e : RenderError)
  | delivery (reason : String)
  | lostWorker (reason : String)
deriving DecidableEq, Repr

structure Failure where
  recipient : String
  cause : Cause
deriving DecidableEq, Repr

/-- What came of one recipient. -/
inductive Outcome where
  | succeeded (m : Message)
  | failed (f : Failure)
deriving DecidableEq, Repr

namespace Cause

def code : Cause → String
  | render e => e.code
  | delivery _ => "delivery_failed"
  | lostWorker _ => "worker_failed"

def message : Cause → String
  | render e => e.message
  | delivery reason => "Delivery failed: " ++ reason
  | lostWorker reason => "Render task failed: " ++ reason

end Cause

namespace Failure

def describe (f : Failure) : String :=
  "Recipient " ++ f.recipient ++ ": " ++ f.cause.message

def toJson (f : Failure) : Json.Value :=
  .object [("recipient_id", .text f.recipient), ("code", .text f.cause.code),
    ("message", .text f.cause.message)]

end Failure

namespace Message

def toJson (m : Message) : Json.Value :=
  .object [("recipient_id", .text m.recipient), ("text", .text m.text),
    ("path", .list (m.path.map .ofNat))]

end Message

namespace Outcome

def recipient : Outcome → String
  | succeeded m => m.recipient
  | failed f => f.recipient

def isSuccess : Outcome → Bool
  | succeeded _ => true
  | failed _ => false

def ofDrawn (id : String) : Drawn (Except RenderError Rendered) → Outcome
  | .ok (.ok r, _) => .succeeded ⟨id, r.text, r.path⟩
  | .ok (.error e, _) => .failed ⟨id, .render e⟩
  | .error e => .failed ⟨id, .lostWorker e.message⟩

end Outcome

end Spintax
