import Spintax.Entries
import Spintax.Json.Value
import Spintax.Number.Numeral
import Spintax.Text.Blank

namespace Spintax.Config

inductive Value where
  | null
  | bool (b : Bool)
  | integer (n : Int)
  | real (x : Number.Real)
  | text (s : String)
  | list (items : List Value)
  | table (entries : List (String × Value))

namespace Value

mutual

/-- Integers that do not fit into 64 bits with their sign are rounded. -/
def ofJson : Json.Value → Value
  | .null => null
  | .bool b => bool b
  | .number (.integer n) =>
    if n < 0x8000000000000000 then integer n else real (.signed false (.ofNat n.toNat))
  | .number (.real minus x) => real (.signed minus x)
  | .text s => text s
  | .list items => list (ofJsonItems items)
  | .object members => table (ofJsonMembers members)

def ofJsonItems : List Json.Value → List Value
  | [] => []
  | v :: vs => ofJson v :: ofJsonItems vs

def ofJsonMembers : List (String × Json.Value) → List (String × Value)
  | [] => []
  | (k, v) :: ms => (k, ofJson v) :: ofJsonMembers ms

end

def ofText (s : String) : Value :=
  let word := Text.lower s
  if word = "true" then bool true
  else if word = "false" then bool false
  else
    match Number.integer? s.toList, Number.real? s.toList with
    | some n, _ => integer n
    | none, some x => real x
    | none, none => text s

def entries : Value → List (String × Value)
  | table es => es
  | _ => []

def items : Value → List Value
  | list vs => vs
  | _ => []

def entry? (v : Value) (key : String) : Option Value :=
  v.entries.lookup key

/-- The table with a new value for a key. What is no table becomes one. -/
def withEntry (v : Value) (key : String) (w : Value) : Value :=
  table (Entries.set key w v.entries)

/-- How many items a list is assumed to have room for. The true bound is that of the memory. -/
def maxItems : Nat := 0x8000000

/-- The place in a list that `i` stands for, which counts from the end if it is below zero. -/
def position? (v : Value) (i : Int) : Option Nat :=
  let n := if i < 0 then v.items.length + i else i
  if 0 ≤ n && n < maxItems then some n.toNat else none

/-- The list with a new item at a place, filled up with nulls as far as needed. -/
def withItem (v : Value) (n : Nat) (w : Value) : Value :=
  let vs := v.items ++ List.replicate (n + 1 - v.items.length) null
  list (vs.set n w)

/-- A key in small letters. Besides the capitals of ASCII, the Kelvin sign has a small letter
that is an ASCII letter. No key that matters has any other letters. -/
def foldKey (key : String) : String :=
  (Text.lower key).map fun c => if c = '\u212a' then 'k' else c

mutual

/-- Lay `v` over an older value. The entries of a table are laid over those of the old
one, under keys in small letters, and anything else takes its place. -/
def onto : Value → Option Value → Value
  | table es, old => entriesOnto es (old.getD (table []))
  | v, _ => v

def entriesOnto : List (String × Value) → Value → Value
  | [], old => old
  | (k, v) :: es, old =>
    let k := foldKey k
    entriesOnto es (old.withEntry k (v.onto (old.entry? k)))

end

end Value

end Spintax.Config
