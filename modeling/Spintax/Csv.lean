namespace Spintax.Csv

def needsQuotes (c : Char) : Bool :=
  c = ',' || c = '"' || c = '\n' || c = '\r'

/-- Write a field. Between quotes, a quote is written twice. -/
def field (cs : List Char) : List Char :=
  if cs.any needsQuotes then
    '"' :: (cs.flatMap (fun c => if c = '"' then ['"', '"'] else [c]) ++ ['"'])
  else cs

def record : List (List Char) → List Char
  | [] => ['\n']
  | [cs] => field cs ++ ['\n']
  | cs :: css => field cs ++ ',' :: record css

def write (rows : List (List String)) : String :=
  .ofList (rows.flatMap fun row => record (row.map String.toList))

end Spintax.Csv
