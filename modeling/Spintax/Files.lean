import Spintax.Text.Length

namespace Spintax

inductive FileError where
  | absent
  | directory
  | notDirectory
  | longName
  | notText
  | other (reason : String)
deriving DecidableEq, Repr

def FileError.message : FileError → String
  | absent => "No such file or directory (os error 2)"
  | directory => "Is a directory (os error 21)"
  | notDirectory => "Not a directory (os error 20)"
  | longName => "File name too long (os error 36)"
  | notText => "stream did not contain valid UTF-8"
  | other reason => reason

abbrev Files := String → Except FileError ByteArray

namespace Files

def isFile (files : Files) (name : String) : Bool :=
  match files name with
  | .ok _ => true
  | .error _ => false

def text (files : Files) (name : String) : Except FileError String := do
  match String.fromUTF8? (← files name) with
  | some text => return text
  | none => throw .notText

def text? (files : Files) (name : String) : Option String :=
  (files.text name).toOption

/-- The bytes in a file that can be opened. A directory has none. -/
def bytes (files : Files) (name : String) : Except FileError (List UInt8) :=
  match files name with
  | .ok bytes => .ok bytes.toList
  | .error .directory => .ok []
  | .error e => .error e

end Files

/-- A directory, as the files in it and in the directories below. -/
abbrev Directory := List (List String × String)

namespace Directory

/-- A place that names lead to. The steps to a place below a directory are kept last first.
Nothing is known about the places beside or above the directory. -/
inductive Place where
  | below (steps : List String)
  | elsewhere
deriving DecidableEq, Repr

def fileAt? (d : Directory) : Place → Option String
  | .below steps => d.lookup steps.reverse
  | .elsewhere => none

def maxStep : Nat := 255

def maxName : Nat := 4095

def enter (d : Directory) (step : String) (p : Place) : Except FileError Place :=
  if maxStep < Text.byteLength step.toList then .error .longName
  else
    match p with
    | .below steps =>
      let path := (step :: steps).reverse
      if d.any fun (k, _) => path.isPrefixOf k then .ok (.below (step :: steps))
      else .error .absent
    | .elsewhere => .error .absent

/-- Two points lead out of a directory, and one point or no name at all stays in it. -/
def go (d : Directory) (p : Place) (step : String) : Except FileError Place :=
  if (d.fileAt? p).isSome then .error .notDirectory
  else if step = "" || step = "." then .ok p
  else if step = ".." then
    match p with
    | .below (_ :: steps) => .ok (.below steps)
    | _ => .ok .elsewhere
  else d.enter step p

def files (d : Directory) : Files := fun name => do
  if name.isEmpty then throw .absent
  else if maxName < Text.byteLength name.toList then throw .longName
  else
    let start := if name.startsWith "/" then .elsewhere else .below []
    match d.fileAt? (← (name.splitOn "/").foldlM d.go start) with
    | some content => return content.toUTF8
    | none => throw .directory

def ofNames (contents : List (String × String)) : Directory :=
  contents.map fun (name, content) => (name.splitOn "/", content)

end Directory

end Spintax
