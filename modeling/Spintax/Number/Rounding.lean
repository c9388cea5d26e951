namespace Spintax.Number

def tenTo (k : Nat) : Nat :=
  Nat.pow 10 k

/-- The quotient of two numbers, to the nearest integer; a half goes to the
even neighbour. -/
def roundDiv (num den : Nat) : Nat :=
  let q := num / den
  let r := num % den
  if 2 * r < den then q else if den < 2 * r then q + 1 else q + q % 2

def roundDivUp (num den : Nat) : Nat :=
  (2 * num + den) / (2 * den)

end Spintax.Number
