import Spintax.Campaign.Export
import Spintax.Config.Environment

namespace Spintax.Command

inductive Invocation where
  | validate (file : String)
  | run (job : String) (recipients : Option String) (concurrency : Option Nat)
      (format : Option ExportFormat)
deriving DecidableEq, Repr

inductive Flag where
  | recipients
  | concurrency
  | format
deriving DecidableEq, Repr

/-- A word is a file, or an option that may have its value attached to it. -/
inductive Word where
  | file (name : String)
  | flag (f : Flag) (value : Option String)
  | separator
  | unknown
deriving DecidableEq, Repr

def flags : List (String × Flag) :=
  [("recipients", .recipients), ("concurrency", .concurrency), ("export", .format)]

namespace Word

def ofLong (cs : List Char) : Word :=
  let value := cs.dropWhile (· ≠ '=')
  match flags.lookup (.ofList (cs.takeWhile (· ≠ '='))) with
  | some f => flag f (if value.isEmpty then none else some (.ofList (value.drop 1)))
  | none => unknown

/-- What is attached to a short option. An equals sign in front of it may be left out. -/
def attached : List Char → Option String
  | [] => none
  | '=' :: cs => some (.ofList cs)
  | cs => some (.ofList cs)

def ofText (text : String) : Word :=
  match text.toList with
  | ['-', '-'] => separator
  | '-' :: '-' :: cs => ofLong cs
  | '-' :: 'c' :: cs => flag .concurrency (attached cs)
  | '-' :: _ :: _ => unknown
  | _ => file text

end Word

/-- The files and the values of the options among some words. -/
structure Given where
  files : List String
  values : List (Flag × String)
deriving DecidableEq, Repr

namespace Given

def addFile (g : Given) (name : String) : Given :=
  { g with files := g.files ++ [name] }

/-- Give an option its value, unless it has one. -/
def addValue? (g : Given) (f : Flag) (value : String) : Option Given :=
  if (g.values.lookup f).isSome then none else some { g with values := (f, value) :: g.values }

/-- Sort words. The value of an option may be the next word if that looks like a file. -/
def ofWords? (g : Given) : List String → Option Given
  | [] => some g
  | w :: ws =>
    match Word.ofText w with
    | .file name => (g.addFile name).ofWords? ws
    | .separator => some { g with files := g.files ++ ws }
    | .unknown => none
    | .flag f (some value) => (g.addValue? f value).bind fun g => g.ofWords? ws
    | .flag f none =>
      match ws with
      | [] => none
      | v :: ws =>
        if Word.ofText v = .file v then (g.addValue? f v).bind fun g => g.ofWords? ws else none

end Given

namespace Invocation

def format? (g : Given) (env : Config.Environment) : Option (Option ExportFormat) :=
  match (g.values.lookup .format).orElse fun _ => env.get? "VARIATION_EXPORT_FORMAT" with
  | none => some none
  | some text => (ExportFormat.ofName text).toOption.map some

def concurrency? (g : Given) : Option (Option Nat) :=
  match g.values.lookup .concurrency with
  | none => some none
  | some text => (Number.word? text.toList).map some

def fileName? (name : String) : Option String :=
  if name.isEmpty then none else some name

def recipients? (g : Given) : Option (Option String) :=
  match g.values.lookup .recipients with
  | none => some none
  | some name => (fileName? name).map some

def ofGiven? (g : Given) (env : Config.Environment) : Option Invocation := do
  match g.files with
  | [job] =>
    return run (← fileName? job) (← recipients? g) (← concurrency? g) (← format? g env)
  | _ => none

def ofWords? (env : Config.Environment) : List String → Option Invocation
  | "validate" :: ws => do
    let g ← Given.ofWords? ⟨[], []⟩ ws
    match g.files, g.values with
    | [file], [] => return validate (← fileName? file)
    | _, _ => none
  | "run" :: ws => do ofGiven? (← Given.ofWords? ⟨[], []⟩ ws) env
  | _ => none

def files : Invocation → List String
  | validate file => [file]
  | run job recipients _ _ => job :: recipients.toList

end Invocation

end Spintax.Command
