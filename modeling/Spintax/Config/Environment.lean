import Spintax.Config.Key
import Spintax.Text.Lines

namespace Spintax.Config

abbrev Environment := List (String × String)

namespace Environment

def get? (env : Environment) (name : String) : Option String :=
  env.lookup name

/-- What comes after a name and an equals sign in the block of a process. An equals sign in the
name is one in the value of a variable. -/
def fetch? (env : Environment) (name : String) : Option String :=
  if name.isEmpty then none
  else
    env.findSome? fun (k, v) =>
      ((name.toList ++ ['=']).isPrefixOf? (k.toList ++ '=' :: v.toList)).map .ofList

def fill (env : Environment) (name value : String) : Environment :=
  if (env.get? name).isSome then env else env ++ [(name, value)]

def ofEntry (cs : List Char) : String × String :=
  (.ofList (cs.takeWhile (· ≠ '=')), .ofList ((cs.dropWhile (· ≠ '=')).drop 1))

/-- The variables in the block of a process, where a zero byte ends each entry. -/
def ofBlock (bytes : List UInt8) : Environment :=
  (Text.pieces 0 bytes).filterMap fun entry => (Text.ofUtf8? entry).map fun s => ofEntry s.toList

def dotted : List Char → List Char
  | '_' :: '_' :: cs => '.' :: dotted cs
  | c :: cs => c :: dotted cs
  | [] => []

/-- The settings whose variables start with `start`, capitals aside. -/
def settings (start : String) (env : Environment) : List (String × Value) :=
  env.filterMap fun (name, value) =>
    (start.toList.isPrefixOf? (Text.lower name).toList).map fun key =>
      (.ofList (dotted key), .ofText value)

end Environment

end Spintax.Config
