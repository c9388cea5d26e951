import Spintax.Logging.Pattern.Bracket
import Spintax.Text.Alphanumeric
import Spintax.Text.Blank

namespace Spintax.Logging.Pattern

open Text (CharSet)

inductive Atom where
  | char (c : Char) (byte : Bool)
  | shorthand (s : CharSet) (negated : Bool)
  | edge (sign : Char)
deriving DecidableEq, Repr

/-- Where an atom stands: by itself, in a class, or at the upper end of a range of a class. -/
inductive Slot where
  | outside
  | inside
  | upper (low : Atom)
deriving DecidableEq, Repr

/-- How the next character is taken. The letters of names and options are kept last first. -/
inductive Mode where
  | plain
  | pass
  | remark (next : Mode)
  | escape (slot : Slot)
  | digits (slot : Slot) (left value : Nat) (byte : Bool)
  | groupStart
  | question
  | nameStart
  | name (letters : List Char)
  | options (letters : List Char) (on : Bool) (options : Options)
  | classStart
  | classHead (empty : Bool)
  | items
  | afterAtom (a : Atom)
  | upperEnd (low : Atom)
  | skip (n : Nat)

/-- A part of a pattern, how deep it is nested, and whether it may be repeated. -/
structure Piece where
  tree : Tree
  depth : Nat
  repeatable : Bool
deriving DecidableEq, Repr

namespace Piece

def ofTree (t : Tree) : Piece := ⟨t, 0, true⟩

def options : Piece := ⟨.empty, 0, false⟩

def ofRow (pieces : List Piece) : Piece :=
  ⟨pieces.foldl (fun t p => .seq p.tree t) .empty, depthOver (pieces.map (·.depth)), true⟩

def ofBranches (last : Piece) (others : List Piece) : Piece :=
  ⟨others.foldl (fun t p => .choice p.tree t) last.tree,
    depthOver (last.depth :: others.map (·.depth)), true⟩

def deeper (p : Piece) : Piece :=
  { p with depth := p.depth + 1 }

end Piece

/-- A group that is still open: the row of pieces that is being read, and the earlier branches.
Everything is kept last first. -/
structure Group where
  row : List Piece
  branches : List Piece
deriving DecidableEq, Repr

namespace Group

def empty : Group := ⟨[], []⟩

def add (g : Group) (p : Piece) : Group :=
  { g with row := p :: g.row }

def branch (g : Group) : Group :=
  ⟨[], .ofRow g.row :: g.branches⟩

def toPiece (g : Group) : Piece :=
  .ofBranches (.ofRow g.row) g.branches

end Group

/-- A reader of patterns, with the group that it is in, the groups around that one and the
options to go back to behind each of them, the open classes, and the names of groups. -/
structure Reading where
  mode : Mode
  options : Options
  group : Group
  outer : List (Options × Group)
  classes : List Bracket
  names : List (List Char)

namespace Reading

def start : Reading := ⟨.plain, {}, .empty, [], [], []⟩

def maxDepth : Nat := 250

def add (r : Reading) (p : Piece) : Reading :=
  { r with mode := .plain, group := r.group.add p }

def openGroup (r : Reading) (options : Options) : Reading :=
  { r with mode := .plain, options, group := .empty, outer := (r.options, r.group) :: r.outer }

def closeGroup? (r : Reading) : Option Reading :=
  match r.outer with
  | [] => none
  | (options, group) :: outer =>
    some ({ r with options, group, outer }.add r.group.toPiece.deeper)

def openClass (r : Reading) : Reading :=
  { r with mode := .classStart, classes := .start :: r.classes }

/-- Change the innermost class, and go on with its next item. -/
def inClass? (r : Reading) (f : Bracket → Option Bracket) : Option Reading :=
  match r.classes with
  | [] => none
  | b :: classes => (f b).map fun b => { r with mode := .items, classes := b :: classes }

def addItem? (r : Reading) (s : Option CharSet) : Option Reading :=
  r.inClass? fun b => s.map fun s => b.add ⟨s, 0⟩

def closeClass? (r : Reading) : Option Reading :=
  match r.classes with
  | [] => none
  | [b] => (b.close? r.options).map fun p =>
    { r with classes := [] }.add ⟨.char p.set, p.depth, true⟩
  | b :: b' :: classes => (b.close? r.options).map fun p =>
    { r with mode := .items, classes := b'.add p :: classes }

def tree? (r : Reading) : Atom → Option Tree
  | .char c byte => (r.options.charSet? c byte).map .char
  | .shorthand s negated => (r.options.shorthand? s negated).map .char
  | .edge sign => some (r.options.edge sign)

def set? (r : Reading) : Atom → Option CharSet
  | .char c _ => r.options.itemSet? c c
  | .shorthand s negated => r.options.shorthand? s negated
  | .edge _ => none

def rangeSet? (r : Reading) : Atom → Atom → Option CharSet
  | .char low _, .char high _ => r.options.itemSet? low high
  | _, _ => none

/-- Take in an atom. Within a class it may be the lower end of a range. -/
def place? (r : Reading) (a : Atom) : Slot → Option Reading
  | .outside => (r.tree? a).map fun t => r.add (.ofTree t)
  | .inside => some { r with mode := .afterAtom a }
  | .upper low => r.addItem? (r.rangeSet? low a)

def digitCount? (c : Char) : Option Nat :=
  if c = 'x' then some 2 else if c = 'u' then some 4 else if c = 'U' then some 8 else none

def letterEscape? (c : Char) : Option Atom :=
  match [('d', "digit"), ('s', "space"), ('w', "word")].lookup c.toLower with
  | some name => some (.shorthand (classOf name) c.isUpper)
  | none =>
    if ['A', 'z', 'b', 'B', '<', '>'].contains c then some (.edge c)
    else [('a', '\x07'), ('f', '\x0c'), ('n', '\n'), ('r', '\r'), ('t', '\t'), ('v', '\x0b')]
      |>.lookup c |>.map (.char · false)

def escape? (r : Reading) (slot : Slot) (c : Char) : Option Reading :=
  match digitCount? c with
  | some n => some { r with mode := .digits slot n 0 (c = 'x') }
  | none =>
    match letterEscape? c with
    | some a => r.place? a slot
    | none => if c < '\u0080' && !c.isAlphanum then r.place? (.char c false) slot else none

def charOf? (n : Nat) : Option Char :=
  if n < 0xD800 || (0xE000 ≤ n && n < 0x110000) then some (.ofNat n) else none

def hexValue? (c : Char) : Option Nat :=
  if c.isDigit then some (c.toNat - '0'.toNat)
  else if 'a' ≤ c.toLower && c.toLower ≤ 'f' then some (c.toLower.toNat - 'a'.toNat + 10)
  else none

def digit? (r : Reading) (slot : Slot) (left value : Nat) (byte : Bool) (c : Char) :
    Option Reading := do
  let value := value * 16 + (← hexValue? c)
  if 1 < left then some { r with mode := .digits slot (left - 1) value byte }
  else r.place? (.char (← charOf? value) byte) slot

def countOf? (c : Char) : Option Count :=
  [('?', .optional), ('*', .any), ('+', .some)].lookup c

/-- Repeat the last piece. A question mark right behind the sign turns its greed around. -/
def repeat? (r : Reading) (count : Count) (turned : Bool) : Option Reading :=
  match r.group.row with
  | [] => none
  | p :: row =>
    if p.repeatable then
      let t := .repetition count (turned == r.options.reluctant) p.tree
      some { r with
        mode := if turned then .pass else .plain
        group := { r.group with row := { p with tree := t }.deeper :: row } }
    else none

def plain? (r : Reading) (c : Char) (cs : List Char) : Option Reading :=
  match countOf? c with
  | some count => r.repeat? count (cs.head? = some '?')
  | none =>
    if c = '(' then some { r with mode := .groupStart }
    else if c = ')' then r.closeGroup?
    else if c = '|' then some { r with group := r.group.branch }
    else if c = '[' then some r.openClass
    else if c = '{' then none
    else if c = '\\' then some { r with mode := .escape .outside }
    else if c = '.' then r.options.dot?.map fun s => r.add (.ofTree (.char s))
    else if c = '^' || c = '$' then r.place? (.edge c) .outside
    else r.place? (.char c false) .outside

/-- A class by its name at the head of a text, after its opening bracket: its name, whether it
is negated, and its length. -/
def namedClass? : List Char → Option (String × Bool × Nat)
  | ':' :: cs =>
    let negated := cs.head? == some '^'
    let cs := if negated then cs.drop 1 else cs
    let name := cs.takeWhile (· ≠ ':')
    if (namedClasses.lookup (.ofList name)).isSome &&
        [':', ']'].isPrefixOf (cs.drop name.length) then
      some (.ofList name, negated, negated.toNat + name.length + 3)
    else none
  | _ => none

def item? (r : Reading) (c : Char) (cs : List Char) : Option Reading :=
  if c = '[' then
    match namedClass? cs with
    | some (name, negated, n) =>
      let s := classOf name
      (r.addItem? (some (if negated then r.options.domain.diff s else s))).map
        ({ · with mode := .skip n })
    | none => some r.openClass
  else if c = ']' then r.closeClass?
  else
    match (Join.ofSign? c).filter fun _ => cs.head? = some c with
    | some j => (r.inClass? (·.join? r.options j)).map ({ · with mode := .skip 1 })
    | none =>
      if c = '\\' then some { r with mode := .escape .inside }
      else some { r with mode := .afterAtom (.char c false) }

/-- Take in the first character of a class that is not a sign of negation. Hyphens stand for
themselves there, and so does a closing bracket. -/
def head? (r : Reading) (empty : Bool) (c : Char) (cs : List Char) : Option Reading :=
  if c = '-' then
    (r.addItem? (r.set? (.char c false))).map ({ · with mode := .classHead false })
  else if empty && c = ']' then r.addItem? (r.set? (.char c false))
  else item? { r with mode := .items } c cs

/-- What is next behind blanks in a spaced pattern. A number sign is left out as if it were a
blank, although a remark goes on behind it. -/
def peek? (r : Reading) (cs : List Char) : Option Char :=
  if !r.options.spaced then cs.head?
  else
    let rest := cs.dropWhile Text.isBlank
    let rest := if rest.head? = some '#' then (rest.drop 1).dropWhile Text.isBlank else rest
    rest.head?.or cs.head?

/-- Take in what comes after an atom in a class. A hyphen makes a range unless it is the last
character of the class or the first of two. -/
def afterAtom? (r : Reading) (a : Atom) (c : Char) (cs : List Char) : Option Reading :=
  if c = '-' && r.peek? cs ≠ some ']' && r.peek? cs ≠ some '-' then
    some { r with mode := .upperEnd a }
  else (r.addItem? (r.set? a)).bind (·.item? c cs)

def isNameChar (first : Bool) (c : Char) : Bool :=
  c = '_' || if first then Text.isAlphabetic c
    else c = '.' || c = '[' || c = ']' || Text.isAlphanumeric c

def nameChar? (r : Reading) (letters : List Char) (c : Char) : Option Reading :=
  if c = '>' then
    if letters.isEmpty || r.names.contains letters then none
    else some (openGroup { r with names := letters :: r.names } r.options)
  else if isNameChar letters.isEmpty c then some { r with mode := .name (c :: letters) }
  else none

def option? (r : Reading) (letters : List Char) (on : Bool) (options : Options) (c : Char) :
    Option Reading :=
  if c = ')' || c = ':' then
    if letters.head? = some '-' then none
    else if c = ':' then some (r.openGroup options)
    else if letters.isEmpty then none
    else some ({ r with options }.add .options)
  else if letters.contains c then none
  else if c = '-' then some { r with mode := .options (c :: letters) false options }
  else if Options.isLetter c then
    some { r with mode := .options (c :: letters) on (options.switch c on) }
  else none

def question? (r : Reading) (c : Char) (cs : List Char) : Option Reading :=
  if c = '<' then
    if cs.head? = some '=' || cs.head? = some '!' then none else some { r with mode := .name [] }
  else if c = 'P' then some { r with mode := .nameStart }
  else r.option? [] true r.options c

def isSpaced (r : Reading) : Bool :=
  r.options.spaced &&
    match r.mode with
    | .plain | .digits .. | .groupStart | .classStart | .classHead _ | .items | .afterAtom _
    | .upperEnd _ => true
    | _ => false

def step? (r : Reading) (c : Char) (cs : List Char) : Option Reading :=
  if r.isSpaced && Text.isBlank c then some r
  else if r.isSpaced && c = '#' then some { r with mode := .remark r.mode }
  else
    match r.mode with
    | .plain => r.plain? c cs
    | .pass => some { r with mode := .plain }
    | .remark next => some (if c = '\n' then { r with mode := next } else r)
    | .escape slot => r.escape? slot c
    | .digits slot left value byte => r.digit? slot left value byte c
    | .groupStart =>
      if c = '?' then some { r with mode := .question }
      else (r.openGroup r.options).plain? c cs
    | .question => r.question? c cs
    | .nameStart => if c = '<' then some { r with mode := .name [] } else none
    | .name letters => r.nameChar? letters c
    | .options letters on options => r.option? letters on options c
    | .classStart =>
      if c = '^' then
        (r.inClass? fun b => some { b with negated := true }).map
          ({ · with mode := .classHead true })
      else r.head? true c cs
    | .classHead empty => r.head? empty c cs
    | .items => r.item? c cs
    | .afterAtom a => r.afterAtom? a c cs
    | .upperEnd low =>
      if c = '\\' then some { r with mode := .escape (.upper low) }
      else r.place? (.char c false) (.upper low)
    | .skip n => some { r with mode := if n ≤ 1 then .items else .skip (n - 1) }

def read? (r : Reading) : List Char → Option Reading
  | [] => some r
  | c :: cs => (r.step? c cs).bind (·.read? cs)

/-- The pattern as a whole, if everything in it is closed and nothing is nested too deep. -/
def finish? (r : Reading) : Option Tree :=
  let p := r.group.toPiece
  match r.outer, r.mode with
  | [], .plain | [], .remark .plain => if p.depth ≤ maxDepth then some p.tree else none
  | _, _ => none

end Reading

def read? (cs : List Char) : Option Tree :=
  (Reading.start.read? cs).bind (·.finish?)

end Spintax.Logging.Pattern
