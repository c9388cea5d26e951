import Spintax.Text.CharSet

namespace Spintax.Logging.Pattern

open Text (CharSet)

/-- A place between two characters. Lines end with a line feed, or also with a carriage return
if `returns` says so. Words are made of ASCII letters, digits and underscores. -/
inductive Edge where
  | textStart
  | textEnd
  | lineStart (returns : Bool)
  | lineEnd (returns : Bool)
  | wordEdge
  | noWordEdge
  | wordStart
  | wordEnd
deriving DecidableEq, Repr

inductive Count where
  | optional
  | any
  | some
deriving DecidableEq, Repr

/-- The edges of words of all scripts are known, but nothing can be done with them. -/
inductive Tree where
  | empty
  | char (s : CharSet)
  | edge (e : Edge)
  | wideEdge
  | seq (first second : Tree)
  | choice (first second : Tree)
  | repetition (count : Count) (greedy : Bool) (t : Tree)
deriving DecidableEq, Repr

namespace Tree

def isNullable : Tree → Bool
  | char _ => false
  | seq s t => s.isNullable && t.isNullable
  | choice s t => s.isNullable || t.isNullable
  | repetition .some _ t => t.isNullable
  | _ => true

def hasWideEdge : Tree → Bool
  | wideEdge => true
  | seq s t | choice s t => s.hasWideEdge || t.hasWideEdge
  | repetition _ _ t => t.hasWideEdge
  | _ => false

end Tree

end Spintax.Logging.Pattern
