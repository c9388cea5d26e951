import Spintax.Logging.Pattern.Tree

namespace Spintax.Logging.Pattern

open Text (CharSet)

structure Options where
  caseless : Bool := false
  unicode : Bool := true
  spaced : Bool := false
  linewise : Bool := false
  dotAll : Bool := false
  reluctant : Bool := false
  returns : Bool := false
deriving DecidableEq, Repr

namespace Options

def switch (o : Options) (letter : Char) (on : Bool) : Options :=
  if letter = 'i' then { o with caseless := on }
  else if letter = 'u' then { o with unicode := on }
  else if letter = 'x' then { o with spaced := on }
  else if letter = 'm' then { o with linewise := on }
  else if letter = 's' then { o with dotAll := on }
  else if letter = 'U' then { o with reluctant := on }
  else if letter = 'R' then { o with returns := on }
  else o

def isLetter (c : Char) : Bool :=
  ['i', 'm', 's', 'U', 'u', 'R', 'x'].contains c

/-- Take in the other case of each letter if case does not matter. The cases of letters beyond
ASCII are not known, so that only a set without any character can be folded then. -/
def fold? (o : Options) (s : CharSet) : Option CharSet :=
  if !o.caseless || s = .empty then some s else if o.unicode then none else some s.bothCases

def domain (o : Options) : CharSet :=
  if o.unicode then .all else .bytes

def dot? (o : Options) : Option CharSet :=
  if !o.unicode then none
  else if o.dotAll then some .all
  else if o.returns then some (CharSet.all.diff (.unions [.single '\n', .single '\r']))
  else some (CharSet.all.diff (.single '\n'))

/-- What a character stands for. Bytes that are no characters must not be matched. -/
def charSet? (o : Options) (c : Char) (byte : Bool) : Option CharSet :=
  if !o.unicode && byte && '\u0080' ≤ c then none else o.fold? (.single c)

def itemSet? (o : Options) (low high : Char) : Option CharSet :=
  if high < low || (!o.unicode && '\u0080' ≤ high) then none
  else some ((CharSet.range low high).inter .all)

/-- What a letter such as that of digits stands for. Without Unicode it is an ASCII class, and
with Unicode nothing is known of it. -/
def shorthand? (o : Options) (s : CharSet) (negated : Bool) : Option CharSet :=
  if o.unicode || negated then none else some s

def edge (o : Options) (sign : Char) : Tree :=
  if sign = '^' then .edge (if o.linewise then .lineStart o.returns else .textStart)
  else if sign = '$' then .edge (if o.linewise then .lineEnd o.returns else .textEnd)
  else if sign = 'A' then .edge .textStart
  else if sign = 'z' then .edge .textEnd
  else if o.unicode then .wideEdge
  else if sign = 'B' then .edge .noWordEdge
  else if sign = '<' then .edge .wordStart
  else if sign = '>' then .edge .wordEnd
  else .edge .wordEdge

end Options

inductive Join where
  | inter
  | diff
  | symmDiff
deriving DecidableEq, Repr

def Join.apply : Join → CharSet → CharSet → CharSet
  | inter => .inter
  | diff => .diff
  | symmDiff => .symmDiff

def Join.ofSign? (c : Char) : Option Join :=
  [('&', inter), ('-', diff), ('~', symmDiff)].lookup c

structure Part where
  set : CharSet
  depth : Nat
deriving DecidableEq, Repr

/-- A class that is still open. The items behind the last join are not joined yet. -/
structure Bracket where
  negated : Bool
  items : List Part
  left : Option (Join × Part)
deriving DecidableEq, Repr

def depthOver (depths : List Nat) : Nat :=
  depths.foldl max 0 + if 2 ≤ depths.length then 1 else 0

namespace Bracket

def start : Bracket := ⟨false, [], none⟩

def add (b : Bracket) (p : Part) : Bracket :=
  { b with items := p :: b.items }

def part? (o : Options) (b : Bracket) : Option Part :=
  let right : Part := ⟨.unions (b.items.map (·.set)), depthOver (b.items.map (·.depth))⟩
  match b.left with
  | none => some right
  | some (join, left) => do
    let s := join.apply (← o.fold? left.set) (← o.fold? right.set)
    return ⟨s, max left.depth right.depth + 1⟩

def join? (o : Options) (b : Bracket) (j : Join) : Option Bracket :=
  (b.part? o).map fun p => ⟨b.negated, [], some (j, p)⟩

/-- The class at its closing bracket. Without Unicode it has to stay within ASCII. -/
def close? (o : Options) (b : Bracket) : Option Part := do
  let p ← b.part? o
  let s ← o.fold? p.set
  let s := if b.negated then o.domain.diff s else s
  if o.unicode || s.isAscii then some ⟨s, p.depth + 1⟩ else none

end Bracket

def namedClasses : List (String × CharSet) :=
  let digit := CharSet.range '0' '9'
  let letter := CharSet.upperLetters.union .lowerLetters
  let blank := CharSet.unions [.single ' ', .single '\t']
  [("alnum", letter.union digit), ("alpha", letter), ("ascii", .range '\x00' '\x7f'),
    ("blank", blank), ("cntrl", .union (.range '\x00' '\x1f') (.single '\x7f')),
    ("digit", digit), ("graph", .range '!' '~'), ("lower", .lowerLetters),
    ("print", .range ' ' '~'),
    ("punct", .unions [.range '!' '/', .range ':' '@', .range '[' '\x60', .range '\x7b' '~']),
    ("space", .union blank (.range '\n' '\r')), ("upper", .upperLetters),
    ("word", .unions [letter, digit, .single '_']),
    ("xdigit", .unions [digit, .range 'A' 'F', .range 'a' 'f'])]

def classOf (name : String) : CharSet :=
  (namedClasses.lookup name).getD .empty

end Spintax.Logging.Pattern
