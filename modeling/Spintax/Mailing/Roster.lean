import Spintax.Mailing.Recipient
import Spintax.Text.Blank
import Spintax.Text.Lines

namespace Spintax.Roster

def ofLine? (line : String) : Option Recipient :=
  (Recipient.reader.decode (Text.trim line)).toOption

def texts : List (List UInt8) → List String
  | [] => []
  | l :: ls =>
    match Text.ofUtf8? l with
    | some text => text :: texts ls
    | none => []

def ofBytes (bytes : List UInt8) : List Recipient :=
  (texts (Text.lines bytes)).filterMap ofLine?

end Spintax.Roster
