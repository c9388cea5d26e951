import Spintax.Text.Printable

namespace Spintax.Text

def numericEscape (c : Char) : List Char :=
  ['\\', 'u', '{'] ++ Nat.toDigits 16 c.toNat ++ ['}']

def escape (c : Char) : List Char :=
  if c = '\x00' then ['\\', '0']
  else if c = '\t' then ['\\', 't']
  else if c = '\r' then ['\\', 'r']
  else if c = '\n' then ['\\', 'n']
  else if c = '"' || c = '\\' then ['\\', c]
  else if isPrintable c then [c]
  else numericEscape c

def quoted (s : String) : String :=
  .ofList ('"' :: (s.toList.flatMap escape ++ ['"']))

end Spintax.Text
