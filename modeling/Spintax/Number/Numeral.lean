import Spintax.Number.Binary64

namespace Spintax.Number

def valueOf (digits : List Char) : Nat :=
  digits.foldl (fun n d => n * 10 + (d.toNat - '0'.toNat)) 0

def signAt : List Char → Bool × List Char
  | '-' :: cs => (true, cs)
  | '+' :: cs => (false, cs)
  | cs => (false, cs)

def natural? (cs : List Char) : Option Nat :=
  if cs.isEmpty || !cs.all Char.isDigit then none else some (valueOf cs)

def word? (cs : List Char) : Option Nat := do
  let n ← natural? (if cs.head? = some '+' then cs.drop 1 else cs)
  if n < UInt64.size then some n else none

def integer? (cs : List Char) : Option Int := do
  let (minus, ds) := signAt cs
  let n ← natural? ds
  if minus then if n ≤ 0x8000000000000000 then some (-n) else none
  else if n < 0x8000000000000000 then some n else none

/-- A number of the binary64 format with its sign, or the mark of no number. -/
inductive Real where
  | signed (minus : Bool) (x : Binary64)
  | nan
deriving DecidableEq, Repr

def ofDecimal (digits : List Char) (e : Int) : Binary64 :=
  let significant := digits.dropWhile (· = '0')
  let n := valueOf significant
  if n = 0 || significant.length + e < -400 then .zero
  else if 400 < significant.length + e then .infinity
  else .ofRatio (n * tenTo e.toNat) (tenTo (-e).toNat)

def exponent? : List Char → Option Int
  | [] => some 0
  | c :: cs =>
    if c = 'e' || c = 'E' then
      let (minus, ds) := signAt cs
      (natural? ds).map fun n => if minus then -n else n
    else none

def decimal? (cs : List Char) : Option Binary64 := do
  let whole := cs.takeWhile Char.isDigit
  let rest := cs.dropWhile Char.isDigit
  let rest' := if rest.head? = some '.' then rest.drop 1 else []
  let fraction := rest'.takeWhile Char.isDigit
  let tail := if rest.head? = some '.' then rest'.dropWhile Char.isDigit else rest
  let digits := whole ++ fraction
  if digits.isEmpty then none
  else return ofDecimal digits ((← exponent? tail) - fraction.length)

def real? (cs : List Char) : Option Real :=
  let (minus, ds) := signAt cs
  let word := String.ofList (ds.map Char.toLower)
  if word = "nan" then some .nan
  else if word = "inf" || word = "infinity" then some (.signed minus .infinity)
  else (decimal? ds).map (.signed minus)

end Spintax.Number
