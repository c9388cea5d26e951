import Spintax.Number.Decimal

namespace Spintax.Json

/-- A number as JSON can write it. Integers are kept exactly; any other number
is rounded. -/
inductive Number where
  | integer (n : Int)
  | real (minus : Bool) (x : Number.Binary64)
deriving DecidableEq, Repr

inductive Value where
  | null
  | bool (b : Bool)
  | number (n : Number)
  | text (s : String)
  | list (items : List Value)
  | object (members : List (String × Value))

namespace Number

def describe : Number → String
  | integer n => toString n
  | real minus x => (if minus then "-" else "") ++ x.fractional

end Number

namespace Value

def ofNat (n : Nat) : Value :=
  number (.integer n)

end Value

end Spintax.Json
