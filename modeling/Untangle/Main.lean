import Untangle.CommandLine.Run
import Untangle.Tree.Json

/-!
# The program

The command line over the real world. The syntax tree of the source is read from the JSON file that
the variable `UNTANGLE_TREE` names, as the parser wrote it.
-/

namespace Untangle.CommandLine

partial def readAll (stream : IO.FS.Stream) (done : ByteArray) : IO ByteArray := do
  let chunk ← stream.read 65536
  if chunk.isEmpty then return done else readAll stream (done ++ chunk)

/-- The number of an error of the system, which may come with its sign turned. -/
def errorNumber (code : UInt32) : UInt32 :=
  if code < 4096 then code else 0 - code

/-- The bytes of a file, or why it cannot be read. -/
def readBytes (path : String) : IO (Except ReadError ByteArray) := do
  try
    return .ok (← IO.FS.readBinFile path)
  catch
    | .noFileOrDirectory _ _ _ => return .error .missing
    | .inappropriateType _ code _ =>
      return .error (if errorNumber code = 20 then .notDirectory else .directory)
    | error@(.invalidArgument _ code _) =>
      if errorNumber code = 36 then return .error .nameTooLong else throw error
    | error => throw error

def Breakdown.message : Breakdown → String
  | .undecodable => "the source is not UTF-8 text"
  | .nullInPath => "the path holds a null character"
  | .fault cause => faultText cause

/-- The answer of the parser, read from the file with the syntax tree. -/
def readTree : IO Pipeline.ParserAnswer := do
  match ← IO.getEnv "UNTANGLE_TREE" with
  | none => return .refused "no syntax tree: UNTANGLE_TREE is not set" none none
  | some path =>
    match Data.ofJson? (← IO.FS.readFile path) with
    | some data => return .ofData data
    | none => return .refused "the syntax tree is not JSON" none none

def realWorld : World IO where
  standardInput := do readAll (← IO.getStdin) ByteArray.empty
  fileBytes := readBytes
  parse _ := readTree
  -- A text beyond this is refused at once, before the machine runs out of memory.
  memory := .upTo 68719476736

end Untangle.CommandLine

def main (args : List String) : IO UInt32 := do
  let noColor ← IO.getEnv "NO_COLOR"
  let color ← IO.getEnv "JSDEOB_COLOR"
  let logLevel ← IO.getEnv "JSDEOB_LOG_LEVEL"
  let env : Untangle.CommandLine.Environment := { noColor, color, logLevel }
  match ← Untangle.CommandLine.run Untangle.CommandLine.realWorld env args with
  | .finished outcome =>
    IO.print outcome.stdout
    IO.eprint outcome.stderr
    return outcome.exit.toUInt32
  | .broken cause =>
    IO.eprintln cause.message
    return 1
