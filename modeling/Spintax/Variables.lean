import Spintax.Entries

namespace Spintax

/-- Values for the slots of a template, each name once, in the order in which
the names were first given. -/
structure Variables where
  entries : List (String × String)
deriving DecidableEq, Repr

namespace Variables

def empty : Variables := ⟨[]⟩

def get? (vs : Variables) (name : String) : Option String :=
  vs.entries.lookup name

/-- Give `name` a value; the last value given is the one that counts. -/
def insert (vs : Variables) (name value : String) : Variables :=
  ⟨Entries.set name value vs.entries⟩

def ofList (entries : List (String × String)) : Variables :=
  entries.foldl (fun vs e => vs.insert e.1 e.2) empty

end Variables

end Spintax
