import Spintax.Config.Value

namespace Spintax.Config

/-- A step into a table or into a list. Positions below zero count from the end of the list. -/
inductive Segment where
  | name (s : String)
  | index (i : Int)
deriving DecidableEq, Repr

abbrev Key := List Segment

namespace Key

/-- Where a reader of keys is. The characters of a name or a position are kept last first. -/
inductive Place where
  | name (letters : List Char)
  | beforeIndex
  | index (digits : List Char)
  | afterIndex (i : Int)
  | afterBracket

def isNameChar (c : Char) : Bool :=
  c.isAlphanum || c = '_' || c = '-' || c = ' '

def isSpace (c : Char) : Bool :=
  c = ' ' || c = '\t'

def nameOf (letters : List Char) : Segment :=
  .name (.ofList letters.reverse)

def segments? : Place → List Char → Option Key
  | .name letters, [] => if letters.isEmpty then none else some [nameOf letters]
  | .name letters, c :: cs =>
    if isNameChar c then segments? (.name (c :: letters)) cs
    else if letters.isEmpty then none
    else if c = '.' then (segments? (.name []) cs).map (nameOf letters :: ·)
    else if c = '[' then (segments? .beforeIndex cs).map (nameOf letters :: ·)
    else none
  | .beforeIndex, c :: cs =>
    if isSpace c then segments? .beforeIndex cs
    else if c.isDigit || c = '-' then segments? (.index [c]) cs
    else none
  | .index digits, c :: cs =>
    if c.isDigit then segments? (.index (c :: digits)) cs
    else
      match Number.integer? digits.reverse with
      | none => none
      | some i =>
        if isSpace c then segments? (.afterIndex i) cs
        else if c = ']' then (segments? .afterBracket cs).map (.index i :: ·)
        else none
  | .afterIndex i, c :: cs =>
    if isSpace c then segments? (.afterIndex i) cs
    else if c = ']' then (segments? .afterBracket cs).map (.index i :: ·)
    else none
  | .afterBracket, [] => some []
  | .afterBracket, c :: cs =>
    if c = '.' then segments? (.name []) cs
    else if c = '[' then segments? .beforeIndex cs
    else none
  | _, [] => none

/-- Read a key. A text that is none is a name as a whole. -/
def ofText (text : String) : Key :=
  (segments? (.name []) text.toList).getD [.name text]

end Key

namespace Value

/-- Lay `v` over what is found under a key, capitals aside, if the key does not lead in front of
a list. -/
def put? (v : Value) : Key → Value → Option Value
  | [], _ => some v
  | [.name k], root => some (entriesOnto [(k, v)] root)
  | .name k :: key, root =>
    let k := foldKey k
    (v.put? key ((root.entry? k).getD null)).map (root.withEntry k)
  | .index i :: key, root => do
    let n ← root.position? i
    (v.put? key ((root.items[n]?).getD null)).map (root.withItem n)

/-- Lay a whole table over another. Its keys may lead to several levels at once. -/
def layer? (table : List (String × Value)) (root : Value) : Option Value :=
  table.foldlM (fun root e => e.2.put? (Key.ofText e.1) root) root

end Value

end Spintax.Config
