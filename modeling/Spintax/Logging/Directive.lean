import Spintax.Logging.Level
import Spintax.Logging.Pattern.Reader

namespace Spintax.Logging

inductive FilterError where
  | badLevel
  | badDirective
  | badPattern
  | wideEdges
  | splitCharacter
deriving DecidableEq, Repr

def FilterError.message : FilterError → String
  | badLevel =>
    "error parsing level filter: expected one of \"off\", \"error\", \"warn\", \"info\", " ++
      "\"debug\", \"trace\", or a number 0-5"
  | badDirective => "invalid filter directive"
  | badPattern => "invalid field filter: error building NFA"
  | wideEdges =>
    "invalid field filter: unsupported regex feature for DFAs: cannot build DFAs for regexes " ++
      "with Unicode word boundaries; switch to ASCII word boundaries, or heuristically enable " ++
      "Unicode word boundaries or use a different regex engine"
  | splitCharacter => "a directive is cut within a character"

/-- What the value of a field has to be. No field has a switch, a number below zero or a
fraction as its value, so that it does not matter which one is asked for. -/
inductive Sample where
  | count (n : Nat)
  | other
  | pattern (text : List Char) (t : Pattern.Tree)
deriving DecidableEq, Repr

structure Field where
  name : String
  sample : Option Sample
deriving DecidableEq, Repr

/-- A directive without a level lets everything through. -/
structure Directive where
  level : Level := .trace
  target : Option String := none
  span : Option String := none
  field : Option Field := none
deriving DecidableEq, Repr

namespace Directive

/-- The part of a directive that a reader is in, with the place where it starts. -/
inductive Part where
  | start
  | head
  | span (first : Nat)
  | field (first : Nat)
  | afterField
  | afterSpan
  | level (first : Nat)
deriving DecidableEq, Repr

def mayStart (c : Char) : Bool :=
  c = '-' || c = ':' || c = '_' || Text.isAlphanumeric c

def dropBytes (n : Nat) : List Char → Except FilterError (List Char)
  | [] => if n = 0 then .ok [] else .error .splitCharacter
  | c :: cs =>
    if n = 0 then .ok (c :: cs)
    else if c.utf8Size ≤ n then dropBytes (n - c.utf8Size) cs
    else .error .splitCharacter

def takeBytes (n : Nat) : List Char → Except FilterError (List Char)
  | [] => if n = 0 then .ok [] else .error .splitCharacter
  | c :: cs =>
    if n = 0 then .ok []
    else if c.utf8Size ≤ n then (takeBytes (n - c.utf8Size) cs).map (c :: ·)
    else .error .splitCharacter

def slice (first last : Nat) (cs : List Char) : Except FilterError (List Char) := do
  takeBytes (last - first) (← dropBytes first cs)

def sliceText (first last : Nat) (cs : List Char) : Except FilterError String := do
  return .ofList (← slice first last cs)

/-- What is neither a switch nor a number is a pattern. -/
def readSample (cs : List Char) : Except FilterError Sample :=
  if ["true", "false"].contains (String.ofList cs) then .ok .other
  else
    match Number.word? cs with
    | some n => .ok (.count n)
    | none =>
      if (Number.integer? cs).isSome || (Number.real? cs).isSome then .ok .other
      else
        match Pattern.read? cs with
        | none => .error .badPattern
        | some t => if t.hasWideEdge then .error .wideEdges else .ok (.pattern cs t)

/-- The name of a field ends at its first equals sign, and its value at the second one. -/
def readField (cs : List Char) : Except FilterError Field := do
  let name := cs.takeWhile (· ≠ '=')
  if cs.isEmpty then throw .badDirective
  else if name.length = cs.length then return ⟨.ofList name, none⟩
  else
    let value := (cs.drop (name.length + 1)).takeWhile (· ≠ '=')
    return ⟨.ofList name, ← readSample value⟩

def readLevel (cs : List Char) : Except FilterError Level :=
  if cs.isEmpty then .ok .trace
  else
    match Level.ofText? cs with
    | some l => .ok l
    | none => .error .badLevel

/-- Take in the character `c`, which is the byte `i` of the directive without the blanks
around it. The bytes of `text`, which has these blanks, are taken for the parts. -/
def step (text : List Char) (i : Nat) (c : Char) (d : Directive) :
    Part → Except FilterError (Directive × Part)
  | .start =>
    if c = '[' then .ok (d, .span (i + 1))
    else if mayStart c then .ok (d, .head)
    else .error .badDirective
  | .head => do
    if c = '=' then return ({ d with target := ← sliceText 0 i text }, .level (i + 1))
    else if c = '[' then return ({ d with target := ← sliceText 0 i text }, .span (i + 1))
    else return (d, .head)
  | .span first => do
    if c = ']' then return ({ d with span := ← sliceText first i text }, .afterSpan)
    else if c = '{' then
      let name ← sliceText first i text
      return ({ d with span := if name.isEmpty then none else name }, .field (i + 1))
    else return (d, .span first)
  | .field first => do
    if c = '}' then
      return ({ d with field := ← readField (← slice first i text) }, .afterField)
    else return (d, .field first)
  | .afterField => if c = ']' then .ok (d, .afterSpan) else .error .badDirective
  | .afterSpan => if c = '=' then .ok (d, .level (i + 1)) else .error .badDirective
  | .level first => .ok (d, .level first)

/-- Read what is left of a directive from the byte `i` on. A directive that is one word is a
level if it can be. -/
def readFrom (text : List Char) (d : Directive) (part : Part) (i : Nat) :
    List Char → Except FilterError Directive
  | [] =>
    match part with
    | .head =>
      match Level.ofText? text with
      | some level => .ok { d with level }
      | none => .ok { d with target := some (.ofList text) }
    | .afterSpan => .ok d
    | .level first => do return { d with level := ← readLevel (← dropBytes first text) }
    | _ => .error .badDirective
  | c :: cs => do
    let (d, part) ← step text i c d part
    readFrom text d part (i + c.utf8Size) cs

/-- Blanks around a directive do not count as its characters, but they do shift the text
that is taken for its parts. -/
def ofText (cs : List Char) : Except FilterError Directive :=
  readFrom cs {} .start 0 (Text.trimChars cs)

end Directive

end Spintax.Logging
