import Spintax.Json.Value

namespace Spintax.Json

def hexDigit (n : Nat) : Char :=
  if n < 10 then .ofNat ('0'.toNat + n) else .ofNat ('a'.toNat + (n - 10))

/-- A character inside quotes. Quotes, backslashes and control characters are
escaped, and nothing else is. -/
def escape (c : Char) : List Char :=
  if c = '"' then ['\\', '"']
  else if c = '\\' then ['\\', '\\']
  else if c = '\n' then ['\\', 'n']
  else if c = '\r' then ['\\', 'r']
  else if c = '\t' then ['\\', 't']
  else if c = '\x08' then ['\\', 'b']
  else if c = '\x0c' then ['\\', 'f']
  else if c < ' ' then
    ['\\', 'u', '0', '0', hexDigit (c.toNat / 16), hexDigit (c.toNat % 16)]
  else [c]

def quote (s : String) : String :=
  .ofList ('"' :: (s.toList.flatMap escape ++ ['"']))

namespace Value

mutual

def compact : Value → String
  | null => "null"
  | bool b => if b then "true" else "false"
  | number n => n.describe
  | text s => quote s
  | list vs => "[" ++ compactItems vs ++ "]"
  | object ms => "\x7b" ++ compactMembers ms ++ "\x7d"

def compactItems : List Value → String
  | [] => ""
  | [v] => v.compact
  | v :: vs => v.compact ++ "," ++ compactItems vs

def compactMembers : List (String × Value) → String
  | [] => ""
  | [(k, v)] => quote k ++ ":" ++ v.compact
  | (k, v) :: ms => quote k ++ ":" ++ v.compact ++ "," ++ compactMembers ms

end

def newLine (depth : Nat) : String :=
  .ofList ('\n' :: List.replicate (2 * depth) ' ')

mutual

/-- Text with one item or member on a line, inside `depth` brackets. -/
def prettyAt (depth : Nat) : Value → String
  | null => "null"
  | bool b => if b then "true" else "false"
  | number n => n.describe
  | text s => quote s
  | list [] => "[]"
  | list (v :: vs) =>
    "[" ++ newLine (depth + 1) ++ v.prettyAt (depth + 1) ++ prettyItems (depth + 1) vs ++
      newLine depth ++ "]"
  | object [] => "\x7b\x7d"
  | object ((k, v) :: ms) =>
    "\x7b" ++ newLine (depth + 1) ++ quote k ++ ": " ++ v.prettyAt (depth + 1) ++
      prettyMembers (depth + 1) ms ++ newLine depth ++ "\x7d"

def prettyItems (depth : Nat) : List Value → String
  | [] => ""
  | v :: vs => "," ++ newLine depth ++ v.prettyAt depth ++ prettyItems depth vs

def prettyMembers (depth : Nat) : List (String × Value) → String
  | [] => ""
  | (k, v) :: ms =>
    "," ++ newLine depth ++ quote k ++ ": " ++ v.prettyAt depth ++ prettyMembers depth ms

end

def pretty (v : Value) : String :=
  v.prettyAt 0

end Value

end Spintax.Json
