import Spintax.Number.Numeral

namespace Spintax.Json

structure Position where
  line : Nat
  column : Nat
deriving DecidableEq, Repr

namespace Position

def describe (p : Position) : String :=
  s!" at line {p.line} column {p.column}"

def digitsAtEnd (cs : List Char) : List Char × List Char :=
  ((cs.reverse.dropWhile Char.isDigit).reverse, (cs.reverse.takeWhile Char.isDigit).reverse)

def splitEnd? (complaint : List Char) : Option (List Char × Position) := do
  let (front, column) := digitsAtEnd complaint
  let front ← " column ".toList.isSuffixOf? front
  let (front, line) := digitsAtEnd front
  let front ← " at line ".toList.isSuffixOf? front
  return (front, ⟨← Number.word? line, ← Number.word? column⟩)

end Position

/-- A complaint, with its place in the usual form. No place is on line 0. -/
def complaint (text : String) : String :=
  match Position.splitEnd? text.toList with
  | some (front, p) => .ofList front ++ if p.line = 0 then "" else p.describe
  | none => text

end Spintax.Json
