import Std.Time.Format
import Spintax.Command.Execute
import Spintax.Command.RunId

namespace Spintax.Program

open Command

def errorNumber (code : UInt32) : UInt32 :=
  if code < 0x80000000 then code else 0 - code

def fileErrorOf (e : IO.Error) : FileError :=
  match e with
  | .noFileOrDirectory .. => .absent
  | .inappropriateType _ code _ => if errorNumber code = 20 then .notDirectory else .directory
  | .invalidArgument _ code _ => if errorNumber code = 36 then .longName else .other (toString e)
  | .permissionDenied .. => .other "Permission denied (os error 13)"
  | e => .other (toString e)

def readFile (name : String) : IO (String × Except FileError ByteArray) := do
  match ← (IO.FS.readBinFile name).toBaseIO with
  | .ok bytes => return (name, .ok bytes)
  | .error e => return (name, .error (fileErrorOf e))

def filesOf (contents : List (String × Except FileError ByteArray)) : Files := fun name =>
  (contents.lookup name).getD (.error .absent)

/-- Read all files that may matter. The mode of running can be named in one of them. -/
def readFiles (env : Config.Environment) (words : List String) : IO Files := do
  let first ← readFile ".env"
  let layers := ((Settings.environment env (filesOf [first])).map Settings.fileLayers).toOption
  let named := ((Invocation.ofWords? env words).map Invocation.files).getD []
  let names := (layers.getD []).flatMap Settings.fileNames ++ named
  return filesOf (first :: (← names.mapM readFile))

def readEnvironment : IO Config.Environment := do
  return .ofBlock (← IO.FS.readBinFile "/proc/self/environ").toList

def timestamp : IO Timestamp := do
  let now := Std.Time.DateTime.ofTimestampWithZone (← Std.Time.Timestamp.now) .UTC
  return now.toPlainDateTime.format "uuuu-MM-dd'T'HH:mm:ss.SSSSSSSSS'Z'"

/-- Random words for each message, all of them from one random seed. -/
def supplies (seed : UInt64) (i : Nat) : Supply :=
  .splitMix (Supply.scramble (seed + .ofNat i))

end Spintax.Program

open Spintax Program in
def main (words : List String) : IO UInt32 := do
  let env ← readEnvironment
  let random ← IO.getRandomBytes 24
  let world := {
    env
    files := ← readFiles env words
    now := ← timestamp
    runId := Command.runId (random.toList.take 16)
    supply := supplies (Command.wordOf (random.toList.drop 16)) }
  let output := Command.execute world words
  (← IO.getStdout).write output.out
  (← IO.getStderr).putStr output.err
  return output.exit
