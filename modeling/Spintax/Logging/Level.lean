import Spintax.Number.Numeral
import Spintax.Text.Blank

namespace Spintax.Logging

inductive Level where
  | off
  | error
  | warn
  | info
  | debug
  | trace
deriving DecidableEq, Repr

namespace Level

def all : List Level :=
  [off, error, warn, info, debug, trace]

def name : Level → String
  | off => "off"
  | error => "error"
  | warn => "warn"
  | info => "info"
  | debug => "debug"
  | trace => "trace"

def label : Level → String
  | off => "  OFF"
  | error => "ERROR"
  | warn => " WARN"
  | info => " INFO"
  | debug => "DEBUG"
  | trace => "TRACE"

def rank (l : Level) : Nat :=
  all.idxOf l

def admits (l m : Level) : Bool :=
  m.rank ≤ l.rank

def max (l m : Level) : Level :=
  if l.admits m then l else m

/-- A level by its name, capitals aside, or by its place in the order. -/
def ofText? (cs : List Char) : Option Level :=
  match all.find? fun l => l.name = Text.lower (.ofList cs) with
  | some l => some l
  | none => (Number.word? cs).bind (all[·]?)

end Level

end Spintax.Logging
