namespace Spintax.Text

variable {α : Type} [DecidableEq α]

/-- The pieces of `xs` that end with `stop`, without it. What follows the last `stop`
is a piece unless it is empty. -/
def pieces (stop : α) : List α → List (List α)
  | [] => []
  | x :: xs =>
    if x = stop then [] :: pieces stop xs
    else
      match pieces stop xs with
      | [] => [[x]]
      | p :: ps => (x :: p) :: ps

def lines (bytes : List UInt8) : List (List UInt8) :=
  pieces 10 bytes

def ofUtf8? (bytes : List UInt8) : Option String :=
  String.fromUTF8? ⟨bytes.toArray⟩

end Spintax.Text
