namespace Spintax

/-- Random words to draw from: `size` of them, of which the first `used` are gone. -/
structure Supply where
  word : Nat → UInt64
  size : Nat
  used : Nat

inductive DrawError where
  | noChoice
  | ranDry
deriving DecidableEq, Repr

def DrawError.message : DrawError → String
  | noChoice => "uniform_index bound must be positive"
  | ranDry => "rng exhausted"

abbrev Drawn (α : Type) := Except DrawError (α × Supply)

namespace Supply

def ofArray (words : Array UInt64) : Supply :=
  ⟨fun i => words.getD i 0, words.size, 0⟩

/-- Go through `words` again and again until `size` words are drawn. -/
def cycle (words : Array UInt64) (size : Nat) : Supply :=
  ⟨fun i => words.getD (i % words.size) 0, if words.isEmpty then 0 else size, 0⟩

def scramble (z : UInt64) : UInt64 :=
  let z := (z ^^^ (z >>> 30)) * 0xBF58476D1CE4E5B9
  let z := (z ^^^ (z >>> 27)) * 0x94D049BB133111EB
  z ^^^ (z >>> 31)

/-- One period of the scrambled multiples of an odd constant, from `seed` on. -/
def splitMix (seed : UInt64) : Supply :=
  ⟨fun i => scramble (seed + .ofNat (i + 1) * 0x9E3779B97F4A7C15), UInt64.size, 0⟩

end Supply

namespace Draw

/-- What is left of the `2 ^ 64` words when they are dealt out in rounds of `bound`. -/
def remainder (bound : UInt64) : UInt64 :=
  (0xFFFFFFFFFFFFFFFF % bound + 1) % bound

/-- The words of the last, incomplete round are refused. -/
def accepts (bound word : UInt64) : Bool :=
  remainder bound = 0 || word < 0 - remainder bound

def accepted (bound : UInt64) (s : Supply) : Drawn UInt64 :=
  if s.used < s.size then
    let word := s.word s.used
    let s' := { s with used := s.used + 1 }
    if accepts bound word then .ok (word, s') else accepted bound s'
  else .error .ranDry
termination_by s.size - s.used

def uniform (bound : UInt64) (s : Supply) : Drawn UInt64 :=
  if bound = 0 then .error .noChoice
  else (accepted bound s).map fun (word, s) => (word % bound, s)

def total (weights : List UInt32) : UInt64 :=
  (weights.map UInt32.toUInt64).foldl (· + ·) 0

/-- Lay the weights end to end and find the one that covers `target`, counting
from `index`. A target beyond all of them goes to the last. -/
def covering (index : Nat) (target : UInt64) : List UInt32 → Nat
  | [] => index - 1
  | w :: ws =>
    if target < w.toUInt64 then index else covering (index + 1) (target - w.toUInt64) ws

def weighted (weights : List UInt32) (s : Supply) : Drawn Nat :=
  (uniform (total weights) s).map fun (target, s) => (covering 0 target weights, s)

def times {α : Type} (draw : Supply → Drawn α) : Nat → Supply → Drawn (List α)
  | 0, s => .ok ([], s)
  | n + 1, s =>
    match draw s with
    | .error e => .error e
    | .ok (a, s) => (times draw n s).map fun (as, s) => (a :: as, s)

end Draw

end Spintax
