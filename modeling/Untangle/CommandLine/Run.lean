import Untangle.CommandLine.Arguments
import Untangle.CommandLine.Environment
import Untangle.CommandLine.FileTree
import Untangle.Pipeline.Prettify

/-!
# Running the program

One run of the command line: read the arguments, read the source, prettify it, and report. What a
run needs from outside (files, standard input, the parser) is a `World` over any monad, so that a
run is the same function whether the world is real or given.

Section 6 of the specification has the arguments and the exit codes, section 7 what is printed when
a run fails.
-/

namespace Untangle.CommandLine

structure World (m : Type → Type) where
  /-- The bytes of standard input. -/
  standardInput : m ByteArray
  /-- The bytes of a file. -/
  fileBytes : String → m (Except ReadError ByteArray)
  /-- The answer of the parser for a source text. -/
  parse : String → m Pipeline.ParserAnswer
  /-- The memory for the texts that the run makes. -/
  memory : Text.Memory

structure Outcome where
  exit : Nat
  stdout : String := ""
  stderr : String := ""
  deriving DecidableEq, Repr

/-- What breaks a run off before it can report anything. -/
inductive Breakdown where
  /-- The source is no UTF-8 text. -/
  | undecodable
  /-- The path has a character that no path can have. -/
  | nullInPath
  /-- The error that was found in the source cannot be shown. -/
  | fault (cause : Fault)
  deriving Repr

/-- The end of a run: an outcome, or what broke it off. -/
inductive Result where
  | finished (outcome : Outcome)
  | broken (cause : Breakdown)
  deriving Repr

/-- A text with every line end written as one newline. -/
def unifyLineEnds : List Char → List Char
  | [] => []
  | '\r' :: '\n' :: rest => '\n' :: unifyLineEnds rest
  | '\r' :: rest => '\n' :: unifyLineEnds rest
  | c :: rest => c :: unifyLineEnds rest

def decode? (bytes : ByteArray) : Option String :=
  (String.fromUTF8? bytes).map fun s => String.ofList (unifyLineEnds s.toList)

def usageLine : String :=
  "usage: jsdeob [-h] [--ecma3] [--ecma5] [--ecma6] [--ecma7] [--indent N] [file]\n"

def helpText : String :=
  usageLine ++
  "\nDeobfuscate/prettify JavaScript code.\n" ++
  "\npositional arguments:\n" ++
  "  file        JavaScript source file; standard input when omitted or '-'\n" ++
  "\noptions:\n" ++
  "  -h, --help  show this help message and exit\n" ++
  "  --ecma3     parse as ECMAScript 3\n" ++
  "  --ecma5     parse as ECMAScript 5\n" ++
  "  --ecma6     parse as ECMAScript 6\n" ++
  "  --ecma7     parse as ECMAScript 7\n" ++
  "  --indent N  indentation width of the output (default: 2)\n"

def failed (message : String) : Outcome :=
  { exit := 1, stderr := s!"jsdeob: error: {message}\n" }

def Halt.outcome : Halt → Outcome
  | .help => { exit := 0, stdout := helpText }
  | .usage message => { exit := 1, stderr := usageLine ++ (failed message).stderr }

/-- The wording of a failure other than a refused source. -/
def faultText : Fault → String
  | .noEntry key => Text.quoted key
  | .tooLarge => "cannot fit 'int' into an index-sized integer"
  | .noMemory => ""
  | fault => fault.message?.getD "malformed syntax tree"

def failureText (memory : Text.Memory) (env : Environment) : Failure → Except Fault String
  | .source error => return (← error.render memory env.useColor) ++ "\n"
  | .options error => return (failed error.message).stderr
  | .fault fault => return (failed (faultText fault)).stderr

/-- Where the source comes from: a file, or standard input. A name after a separator is always that
of a file, even the dash. -/
def sourceFile (args : List String) (arguments : Arguments) : Option String :=
  match arguments.file with
  | some "-" => if args.contains "--" then some "-" else none
  | file => file

/-- Prettifies a source text and reports. -/
def report (memory : Text.Memory) (env : Environment) (arguments : Arguments)
    (file : Option String) (answer : Pipeline.ParserAnswer) (source : String) : Result :=
  let version : Value := .int (arguments.version.getD .es6).number
  let action : Pipeline.PipelineM Pipeline.Output := do
    let options ← (Options.check version arguments.indent (.bool false)).mapError Failure.options
    Pipeline.prettify memory Reshape.Registry.builtin options answer source
      (.str (file.getD "<stdin>"))
  let (result, records) := action.run.run []
  let log := if env.debugs then String.join (records.map fun r => r.line ++ "\n") else ""
  match result with
  | .ok (.code text) => .finished { exit := 0, stdout := text ++ "\n", stderr := log }
  | .ok (.tree v) => .finished { exit := 0, stdout := v.display ++ "\n", stderr := log }
  | .error failure =>
    match failureText memory env failure with
    | .ok text => .finished { exit := 1, stderr := log ++ text }
    | .error cause => .broken (.fault cause)

/-- The bytes of the source, or the end of the run when it cannot be read. -/
def readSource {m : Type → Type} [Monad m] (world : World m) (file : Option String) :
    m (Except Result ByteArray) :=
  match file with
  | none => Except.ok <$> world.standardInput
  | some path =>
    if path.toList.contains '\x00' then return .error (.broken .nullInPath)
    else
      let path := normalPath path
      Except.mapError (fun e => .finished (failed ("could not read file: " ++ e.message path))) <$>
        world.fileBytes path

def run {m : Type → Type} [Monad m] (world : World m) (env : Environment) (args : List String) :
    m Result := do
  match Arguments.ofList args with
  | .error halt => return .finished halt.outcome
  | .ok arguments =>
    let file := sourceFile args arguments
    match ← readSource world file with
    | .error result => return result
    | .ok bytes =>
      match decode? bytes with
      | none => return .broken .undecodable
      | some source =>
        return report world.memory env arguments file (← world.parse source) source

end Untangle.CommandLine
