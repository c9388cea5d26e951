import Spintax.Number.Rounding

namespace Spintax.Number

/-- The number `mant * 2 ^ exp / 2 ^ 1074`. The mantissa is below `2 ^ 53`, and at
least `2 ^ 52` unless the exponent is zero. Exponents above 2045 stand for
infinity. -/
structure Binary64 where
  mant : Nat
  exp : Nat
deriving DecidableEq, Repr

namespace Binary64

def zero : Binary64 := ⟨0, 0⟩

def leadingBit : Nat := 1 <<< 52

def infinity : Binary64 := ⟨leadingBit, 2046⟩

def isFinite (x : Binary64) : Bool :=
  x.exp ≤ 2045

def ofRatio (num den : Nat) : Binary64 :=
  if num = 0 then zero
  else
    let exp := num.log2 + 1021 - den.log2
    let mantAt := fun exp => roundDiv (num <<< 1074) (den <<< exp)
    if mantAt exp < 2 * leadingBit then ⟨mantAt exp, exp⟩
    else if mantAt (exp + 1) < 2 * leadingBit then ⟨mantAt (exp + 1), exp + 1⟩
    else ⟨leadingBit, exp + 2⟩

def ofNat (n : Nat) : Binary64 :=
  ofRatio n 1

def numerator (x : Binary64) : Nat :=
  x.mant <<< x.exp

def mul (x y : Binary64) : Binary64 :=
  ofRatio (x.numerator * y.numerator) (1 <<< 2148)

def div (x y : Binary64) : Binary64 :=
  ofRatio x.numerator y.numerator

def toBits (x : Binary64) : UInt64 :=
  if !x.isFinite then 0x7FF0000000000000
  else if x.mant < leadingBit then .ofNat x.mant
  else .ofNat (((x.exp + 1) <<< 52) + (x.mant - leadingBit))

def roundHalfUp (x : Binary64) : Nat :=
  roundDivUp x.numerator (1 <<< 1074)

end Binary64

end Spintax.Number
