import Spintax.Config.Environment
import Spintax.Text.Alphanumeric

namespace Spintax.Config.Dotenv

inductive Place where
  | open
  | escape
  | strong
  | strongEscape
  | weak
  | weakEscape
  | blank
  | comment
deriving DecidableEq, Repr

namespace Place

def enter (c : Char) : Place :=
  if c = '\\' then escape else if c = '"' then weak else if c = '\'' then strong else .open

def next (c : Char) : Place → Place
  | .open => if Text.isBlank c && c ≠ '\n' && c ≠ '\r' then blank else enter c
  | escape => .open
  | strong => if c = '\\' then strongEscape else if c = '\'' then .open else strong
  | strongEscape => strong
  | weak => if c = '\\' then weakEscape else if c = '"' then .open else weak
  | weakEscape => weak
  | blank => if c = '#' then comment else enter c
  | comment => comment

end Place

/-- The start of a text up to the place where a comment begins, and the place where it ends. -/
def uncommented (place : Place) : List Char → List Char × Place
  | [] => ([], place)
  | c :: cs =>
    match place.next c with
    | .comment => ([], .comment)
    | place =>
      let (ds, place) := uncommented place cs
      (c :: ds, place)

def rawLines : List Char → List (List Char)
  | [] => []
  | c :: cs =>
    if c = '\n' then ['\n'] :: rawLines cs
    else
      match rawLines cs with
      | [] => [[c]]
      | l :: ls => (c :: l) :: ls

def isRemark (cs : List Char) : Bool :=
  (cs.dropWhile Text.isBlank).head? = some '#'

/-- Join lines as long as something is open at their end. A line that stays open at the
end of the file is an error, and nothing comes after it. -/
def logicalLines (pending : List Char) (place : Place) :
    List (List Char) → List (Option (List Char))
  | [] => if place = .open then [] else [none]
  | l :: ls =>
    if isRemark (pending ++ l) then logicalLines [] .open ls
    else
      let (body, place) := uncommented place l
      match place with
      | .open | .comment => some (pending ++ body) :: logicalLines [] .open ls
      | place => logicalLines (pending ++ body) place ls

/-- How a reader of values takes the next character. `name` is that of the variable
being named, last character first. -/
inductive Mode where
  | plain
  | variable (name : List Char)
  | braced (name : List Char)
deriving DecidableEq, Repr

/-- A reader of values: what it has written, last character first, and the quotes it is in. -/
structure Reading where
  written : List Char
  mode : Mode
  strong : Bool
  weak : Bool
  escaped : Bool
  ended : Bool

namespace Reading

def start : Reading := ⟨[], .plain, false, false, false, false⟩

def write (r : Reading) (c : Char) : Reading :=
  { r with written := c :: r.written }

def substitute (r : Reading) (value : String → String) (name : List Char) : Reading :=
  { r with written := (value (.ofList name.reverse)).toList.reverse ++ r.written, mode := .plain }

def unescape? (c : Char) : Option Char :=
  if c = 'n' then some '\n'
  else if c = '\\' || c = '\'' || c = '"' || c = '$' || c = ' ' then some c
  else none

/-- Take in a character that stands neither in a name nor in strong quotes. -/
def plain (r : Reading) (c : Char) : Reading :=
  if c = '$' then { r with mode := .variable [] }
  else if r.weak then
    if c = '"' then { r with weak := false }
    else if c = '\\' then { r with escaped := true }
    else r.write c
  else if c = '\'' then { r with strong := true }
  else if c = '"' then { r with weak := true }
  else if c = '\\' then { r with escaped := true }
  else if c = ' ' || c = '\t' then { r with ended := true }
  else r.write c

def named (r : Reading) (value : String → String) (c : Char) : Reading :=
  match r.mode with
  | .plain => r
  | .variable name =>
    if Text.isAlphanumeric c then { r with mode := .variable (c :: name) }
    else if c = '{' && name.isEmpty then { r with mode := .braced [] }
    else
      let r := r.substitute value name
      if c = '$' then { r with mode := .variable [] } else r.write c
  | .braced name =>
    if c = '}' then r.substitute value name else { r with mode := .braced (c :: name) }

/-- After the end of a value only blanks and a comment may follow. -/
def read (value : String → String) : Reading → List Char → Option Reading
  | r, [] => some r
  | r, c :: cs =>
    if r.ended then
      if c = ' ' || c = '\t' then read value r cs else if c = '#' then some r else none
    else if r.escaped then
      match unescape? c with
      | some d => read value { r.write d with escaped := false } cs
      | none => none
    else if r.strong then
      read value (if c = '\'' then { r with strong := false } else r.write c) cs
    else if r.mode = .plain then read value (r.plain c) cs
    else read value (r.named value c) cs

def finish (value : String → String) (r : Reading) : Option String :=
  if r.strong || r.weak then none
  else
    match r.mode with
    | .braced _ => none
    | .variable name => some (.ofList (r.substitute value name).written.reverse)
    | .plain => some (.ofList (r.substitute value []).written.reverse)

end Reading

def skipBlank (cs : List Char) : List Char :=
  cs.dropWhile Text.isBlank

def isKeyChar (c : Char) : Bool :=
  c.isAlphanum || c = '_' || c = '.'

def keyAt? (cs : List Char) : Option (String × List Char) :=
  match cs with
  | c :: _ =>
    if c.isAlpha || c = '_' then some (.ofList (cs.takeWhile isKeyChar), cs.dropWhile isKeyChar)
    else none
  | [] => none

def equalAt? (cs : List Char) : Option (List Char) :=
  match skipBlank cs with
  | '=' :: cs => some (skipBlank cs)
  | _ => none

/-- The name in a line, and what is after the equals sign. The word `export` in front of
the name has no meaning. -/
def assignment? (cs : List Char) : Option (String × List Char) := do
  let (key, rest) ← keyAt? cs
  match equalAt? rest with
  | some rest => return (key, rest)
  | none =>
    if key = "export" then
      let (key, rest) ← keyAt? (skipBlank rest)
      return (key, ← equalAt? rest)
    else none

/-- The value of a variable for the sake of substitution: that of the process, or else
the one that an earlier line gives. -/
def valueIn (env given : Environment) (name : String) : String :=
  ((env.fetch? name).orElse fun _ => given.get? name).getD ""

def lineValue? (env given : Environment) (cs : List Char) : Option (Option (String × String)) :=
  let cs := skipBlank (Text.dropBlankEnd cs)
  if cs.isEmpty || cs.head? = some '#' then some none
  else do
    let (key, rest) ← assignment? cs
    if rest.isEmpty || rest.head? = some '#' then return some (key, "")
    let r ← Reading.start.read (valueIn env given) rest
    return some (key, ← r.finish (valueIn env given))

/-- Set a variable that has no value yet, unless the value has a zero byte in it. -/
def fill? (env : Environment) (name value : String) : Option Environment :=
  if (env.get? name).isNone && value.contains '\x00' then none else some (env.fill name value)

def addLines? (given env : Environment) : List (Option (List Char)) → Option Environment
  | [] => some env
  | none :: _ => some env
  | some l :: ls =>
    match lineValue? env given l with
    | none => some env
    | some none => addLines? given env ls
    | some (some (key, value)) =>
      (fill? env key value).bind fun env => addLines? ((key, value) :: given) env ls

/-- The environment with the variables that a file adds to it, if they can be set. -/
def load? (text : String) (env : Environment) : Option Environment :=
  let cs := text.toList
  let cs := if cs.head? = some '\ufeff' then cs.drop 1 else cs
  addLines? [] env (logicalLines [] .open (rawLines cs))

end Spintax.Config.Dotenv
