import Spintax.Number.Binary64

namespace Spintax.Number

/-- The number `digits * 10 ^ exp`. -/
structure Decimal where
  digits : Nat
  exp : Int
deriving DecidableEq, Repr

def digitsOf (n : Nat) : List Char :=
  Nat.toDigits 10 n

namespace Decimal

def trim (fuel : Nat) (d : Decimal) : Decimal :=
  match fuel with
  | 0 => d
  | fuel + 1 => if d.digits % 10 = 0 then trim fuel ⟨d.digits / 10, d.exp + 1⟩ else d

end Decimal

namespace Binary64

/-- The least `p` with `x < 10 ^ p`, for a positive `x`. Every such `x` is
above `10 ^ -324`. -/
def magnitude (x : Binary64) : Int :=
  let whole := x.numerator / (1 <<< 1074)
  let leadingZeros := (List.range 324).takeWhile fun k =>
    x.numerator * tenTo (k + 1) < 1 <<< 1074
  if whole = 0 then -(leadingZeros.length : Int) else (digitsOf whole).length

/-- Does the decimal read back as `x`? The two ends of the interval of such
decimals belong to it if the mantissa is even. -/
def readsAs (x : Binary64) (d : Decimal) : Bool :=
  let low := if x.mant = leadingBit && 0 < x.exp then 4 * x.mant - 1 else 4 * x.mant - 2
  let high := 4 * x.mant + 2
  let scaled := (d.digits * tenTo d.exp.toNat) <<< 1076
  let bound := fun b => (b <<< x.exp) * tenTo (-d.exp).toNat
  if x.mant % 2 = 0 then bound low ≤ scaled && scaled ≤ bound high
  else bound low < scaled && scaled < bound high

/-- The two neighbours of `x` on the grid of multiples of `10 ^ exp`. The one that `round`
makes of `x` comes first. -/
def neighbours (round : Nat → Nat → Nat) (x : Binary64) (exp : Int) : List Decimal :=
  let num := x.numerator * tenTo (-exp).toNat
  let den := tenTo exp.toNat <<< 1074
  let q := num / den
  if round num den = q then [⟨q, exp⟩, ⟨q + 1, exp⟩] else [⟨q + 1, exp⟩, ⟨q, exp⟩]

/-- The shortest decimal that reads back as `x`, and the nearest of those. If two are as near
as each other, `round` says which one it is. -/
def shortest (round : Nat → Nat → Nat) (x : Binary64) : Decimal :=
  if x.mant = 0 then ⟨0, 0⟩
  else
    let p := x.magnitude
    let candidates := (List.range 17).flatMap fun n => x.neighbours round (p - (n + 1 : Nat))
    ((candidates.find? x.readsAs).getD ⟨0, 0⟩).trim 20

def fixed (x : Binary64) (places : Nat) : String :=
  let n := roundDiv (x.numerator * tenTo places) (1 <<< 1074)
  let fraction := digitsOf (n % tenTo places)
  toString (n / tenTo places) ++ "." ++
    String.ofList (List.replicate (places - fraction.length) '0' ++ fraction)

/-- Digits with a point where `point` of them are in front of it, filled up with
zeros on either side. -/
def positional (digits : List Char) (point : Int) : List Char :=
  if point ≤ 0 then '0' :: '.' :: (List.replicate (-point).toNat '0' ++ digits)
  else if digits.length ≤ point.toNat then
    digits ++ List.replicate (point.toNat - digits.length) '0'
  else digits.take point.toNat ++ '.' :: digits.drop point.toNat

def plain (x : Binary64) : String :=
  let d := x.shortest roundDivUp
  let digits := digitsOf d.digits
  if d.digits = 0 then "0" else .ofList (positional digits (digits.length + d.exp))

def exponent (e : Int) : String :=
  (if e < 0 then "e" else "e+") ++ toString e

/-- The shortest text that shows a fraction or an exponent. Exponents are
written from `10 ^ 16` and below `10 ^ -5`. -/
def fractional (x : Binary64) : String :=
  let d := x.shortest roundDiv
  let digits := digitsOf d.digits
  let point := digits.length + d.exp
  if d.digits = 0 then "0.0"
  else if 16 < point ∨ point ≤ -5 then
    let fraction := if digits.length = 1 then [] else '.' :: digits.drop 1
    .ofList (digits.take 1 ++ fraction) ++ exponent (point - 1)
  else
    let text := positional digits point
    .ofList (if text.contains '.' then text else text ++ ['.', '0'])

end Binary64

end Spintax.Number
