namespace Spintax.Text

/-- A set of code points, given by the places where one comes into the set or goes out of it,
in ascending order. -/
structure CharSet where
  turns : List Nat
deriving DecidableEq, Repr

namespace CharSet

def empty : CharSet := ⟨[]⟩

def range (low high : Char) : CharSet := ⟨[low.toNat, high.toNat + 1]⟩

def single (c : Char) : CharSet := range c c

/-- All characters. The numbers of surrogates are none. -/
def all : CharSet := ⟨[0, 0xD800, 0xE000, 0x110000]⟩

def bytes : CharSet := ⟨[0, 0x100]⟩

/-- The places where a combination of two sets changes. `a` and `b` tell whether one is in the
sets in front of the places that are left. -/
def mergeTurns (op : Bool → Bool → Bool) (a b : Bool) : List Nat → List Nat → List Nat
  | [], [] => []
  | x :: xs, [] =>
    let rest := mergeTurns op (!a) b xs []
    if op a b = op (!a) b then rest else x :: rest
  | [], y :: ys =>
    let rest := mergeTurns op a (!b) [] ys
    if op a b = op a (!b) then rest else y :: rest
  | x :: xs, y :: ys =>
    if x < y then
      let rest := mergeTurns op (!a) b xs (y :: ys)
      if op a b = op (!a) b then rest else x :: rest
    else if y < x then
      let rest := mergeTurns op a (!b) (x :: xs) ys
      if op a b = op a (!b) then rest else y :: rest
    else
      let rest := mergeTurns op (!a) (!b) xs ys
      if op a b = op (!a) (!b) then rest else x :: rest
termination_by xs ys => xs.length + ys.length

def combine (op : Bool → Bool → Bool) (s t : CharSet) : CharSet :=
  ⟨mergeTurns op false false s.turns t.turns⟩

def union (s t : CharSet) : CharSet :=
  s.combine (· || ·) t

def inter (s t : CharSet) : CharSet :=
  s.combine (· && ·) t

def diff (s t : CharSet) : CharSet :=
  s.combine (fun a b => a && !b) t

def symmDiff (s t : CharSet) : CharSet :=
  s.combine (· != ·) t

def unions (sets : List CharSet) : CharSet :=
  sets.foldl union empty

def shift (n : Int) (s : CharSet) : CharSet :=
  ⟨s.turns.map fun x : Nat => (x + n).toNat⟩

def contains (s : CharSet) (c : Char) : Bool :=
  (s.turns.takeWhile (· ≤ c.toNat)).length % 2 = 1

def isAscii (s : CharSet) : Bool :=
  s.turns.all (· ≤ 0x80)

def upperLetters : CharSet := range 'A' 'Z'

def lowerLetters : CharSet := range 'a' 'z'

def bothCases (s : CharSet) : CharSet :=
  unions [s, (s.inter upperLetters).shift 32, (s.inter lowerLetters).shift (-32)]

end CharSet

end Spintax.Text
