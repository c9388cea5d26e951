import Spintax.Logging.Pattern.Reader

namespace Spintax.Logging.Pattern

open Text (CharSet)

/-- A state of a search. A fork goes on with both of its states, the preferred one first. -/
inductive State where
  | char (s : CharSet) (next : Nat)
  | edge (e : Edge) (next : Nat)
  | fork (first second : Nat)
  | halt
deriving DecidableEq, Repr

abbrev Automaton := Array State

namespace Tree

/-- Add the states of a tree that go on with the state `next`, and tell the number of the first
one. A round of a repetition that turns out empty ends it there and then, which takes a second
fork for what need not be repeated at all. -/
def build (next : Nat) (a : Automaton) : Tree → Nat × Automaton
  | empty => (next, a)
  | wideEdge => (a.size, a.push (.char .empty next))
  | char s => (a.size, a.push (.char s next))
  | edge e => (a.size, a.push (.edge e next))
  | seq s t =>
    let (n, a) := t.build next a
    s.build n a
  | choice s t =>
    let (n, a) := t.build next a
    let (m, a) := s.build next a
    (a.size, a.push (.fork m n))
  | repetition count greedy t =>
    let fork := fun n => if greedy then State.fork n next else State.fork next n
    let again := a.size
    match count with
    | .optional =>
      let (n, a) := t.build next a
      (a.size, a.push (fork n))
    | .some =>
      let (n, a) := t.build again (a.push .halt)
      (n, a.setIfInBounds again (fork n))
    | .any =>
      let (n, a) := t.build again (a.push .halt)
      let a := a.setIfInBounds again (fork n)
      if t.isNullable then (a.size, a.push (fork n)) else (again, a)

end Tree

inductive Before where
  | nothing
  | lineFeed
  | return
  | word
  | other
deriving DecidableEq, Repr

def isWordChar (c : Char) : Bool :=
  c.isAlphanum || c = '_'

def Before.ofChar (c : Char) : Before :=
  if c = '\n' then lineFeed else if c = '\r' then .return else if isWordChar c then word else other

/-- Is an edge at a place, by what is around it? No line ends between a carriage return and a line
feed. -/
def Edge.isAt (b : Before) (next : Option Char) : Edge → Bool
  | textStart => b = .nothing
  | textEnd => next.isNone
  | lineStart returns =>
    b = .nothing || b = .lineFeed || (returns && b = .return && next ≠ some '\n')
  | lineEnd returns =>
    next.isNone || (next = some '\n' && !(returns && b = .return)) ||
      (returns && next = some '\r')
  | wordEdge => (b = .word) != next.any isWordChar
  | noWordEdge => (b = .word) == next.any isWordChar
  | wordStart => b ≠ .word && next.any isWordChar
  | wordEnd => b = .word && !next.any isWordChar

namespace Automaton

/-- All states that are reached through forks and open edges, in the order in which they are
found. `found` has them last first, and no more than `fuel` states are looked at. -/
def follow (a : Automaton) (isOpen : Edge → Bool) : Nat → List Nat → List Nat → List Nat
  | 0, _, found => found.reverse
  | _, [], found => found.reverse
  | fuel + 1, n :: rest, found =>
    if found.contains n then a.follow isOpen fuel rest found
    else
      match a[n]? with
      | some (.fork m m') => a.follow isOpen fuel (m :: m' :: rest) (n :: found)
      | some (.edge e m) =>
        a.follow isOpen fuel (if isOpen e then m :: rest else rest) (n :: found)
      | _ => a.follow isOpen fuel rest (n :: found)

/-- The states reached from some states. Each state is looked at once for each way into it, and
there are at most two ways out of a state. -/
def reach (a : Automaton) (isOpen : Edge → Bool) (states : List Nat) : List Nat :=
  a.follow isOpen (states.length + 2 * a.size) states []

def isHalt (a : Automaton) (n : Nat) : Bool :=
  a[n]? = some .halt

def next? (a : Automaton) (c : Char) (n : Nat) : Option Nat :=
  match a[n]? with
  | some (.char s m) => if s.contains c then some m else none
  | _ => none

end Automaton

/-- A search in the middle of a text: the states that it goes on from, whether a match may still
start, and what it has just gone past. -/
structure Search where
  states : List Nat
  starting : Bool
  before : Before

namespace Search

variable (a : Automaton) (first : Nat)

def start : Search :=
  ⟨[], true, .nothing⟩

/-- All states that the search is in, in front of `next`. Matches that start later are less
preferred. -/
def reached (s : Search) (next : Option Char) : List Nat :=
  a.reach (·.isAt s.before next) (s.states ++ if s.starting then [first] else [])

/-- The first of the characters beyond ASCII. They take up several bytes. -/
def wide : Char := '\u0080'

def matchesWithin : Bool :=
  (reached a first ⟨[], true, .other⟩ (some wide)).any a.isHalt

/-- Take in a character. What is less preferred than a match is given up. -/
def step (s : Search) (c : Char) : Search :=
  let states := s.reached a first (some c)
  ⟨(states.takeWhile (!a.isHalt ·)).filterMap (a.next? c),
    s.starting && !states.any a.isHalt && (c < wide || !matchesWithin a first),
    .ofChar c⟩

def finish (s : Search) : Bool :=
  (s.reached a first none).any a.isHalt

end Search

def Tree.isMatch (t : Tree) (text : List Char) : Bool :=
  let (first, a) := t.build 0 #[.halt]
  (text.foldl (Search.step a first) .start).finish a first

end Spintax.Logging.Pattern
