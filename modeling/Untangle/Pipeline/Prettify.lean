import Untangle.Grammar.Feature
import Untangle.Pipeline.Options
import Untangle.Print.Generate
import Untangle.Reshape.Builtin
import Untangle.Tree.Data

/-!
# The pipeline

From a source text to the prettified text: the parser's answer is read as a tree and held to the
grammar version, the rules reshape it, and the result is printed. The parser itself is outside of
this library; the pipeline takes its answer.

Each stage leaves a record of what it did. Records are kept when a later stage fails.

Section 6 of the specification composes the stages, section 8 says what is logged.

* `parse` reads the answer of the parser.
* `prettify` runs all stages.
-/

namespace Untangle.Pipeline

/-- What the parser answers for a source text: the tree, or a refusal with its place. -/
inductive ParserAnswer where
  | tree (data : Data)
  | refused (message : String) (line column : Option Int)

/-- The answer of the parser from plain data: a refusal is an object with an `$error` entry,
anything else is a tree. -/
def ParserAnswer.ofData (data : Data) : ParserAnswer :=
  match data.get? "$error" with
  | some error =>
    let text := match error.get? "message" with
      | some (.str s) => s
      | _ => ""
    let number := fun (key : String) => match error.get? key with
      | some (.int i) => some i
      | _ => none
    .refused text (number "line") (number "column")
  | none => .tree data

structure Record where
  logger : String
  message : String
  deriving DecidableEq, Repr

def Record.line (r : Record) : String :=
  s!"DEBUG:{r.logger}:{r.message}"

/-- A computation that leaves records, which are kept when it fails. -/
abbrev PipelineM := ExceptT Failure (StateM (List Record))

def record (logger message : String) : PipelineM Unit :=
  modifyThe (List Record) (· ++ [⟨logger, message⟩])

def versionOf (given : Value) : Except Fault Version :=
  match Version.ofValue? given with
  | some version => .ok version
  | none => .error (.unsupportedVersion given.plainText)

/-- The error for a refused source; without a line there is no place, and a column is at least one
when it is missing or zero. -/
def refusedSource (message source : String) (file : Value) (line column : Option Int) :
    SourceError :=
  let column := match column with
    | none | some 0 => 1
    | some column => column
  let location := line.map fun line =>
    ({ file, line := .int line, column := .int column } : Location)
  { message, location, source := some source }

/-- Reads the answer of the parser as a tree and holds it to the version. -/
def parse (answer : ParserAnswer) (version : Version) (versionGiven : Value)
    (source : String) (file : Value) : PipelineM Value :=
  match answer with
  | .refused message line column => throw (.source (refusedSource message source file line column))
  | .tree data => do
    let tree ← Failure.ofFault (Value.ofData data)
    let grammar := s!"ECMAScript {versionGiven.plainText}"
    record "jsdeob.frontend.parser" s!"Parsed {file.plainText} as {grammar}"
    Grammar.holdTo version tree (some source) file
    return tree

/-- The uses of rules as a summary, in order of the names' code points. -/
def summary (hits : Reshape.Hits) : String :=
  let sorted := hits.mergeSort fun a b => a.1 ≤ b.1
  let uses := sorted.map fun (name, n) => s!"{name}={n}"
  s!"Applied {hits.total} rule(s): " ++ ", ".intercalate uses

def runRules (registry : Reshape.Registry) (tree : Value) : PipelineM Value := do
  record "jsdeob.passes.base" "Running PrettifyPass"
  let (result, hits) := Reshape.run registry tree
  let result ← Failure.ofFault result
  if !hits.isEmpty then record "jsdeob.passes.rewriter" (summary hits)
  return result

/-- What a call gives: the reshaped tree or its text. -/
inductive Output where
  | tree (v : Value)
  | code (text : String)

/-- Runs all stages over a source text for which the parser has given its answer. -/
def prettify (memory : Text.Memory) (registry : Reshape.Registry) (options : Options)
    (answer : ParserAnswer) (source : String) (file : Value) : PipelineM Output := do
  let tree ← parse answer options.version options.versionGiven source file
  let tree ← runRules registry tree
  if options.outputTree.truthy then return .tree tree
  else return .code (← Failure.ofFault (Print.generate memory tree options.indent))

def outcome {α : Type} (action : PipelineM α) : Except Failure α :=
  (action.run.run []).1

end Untangle.Pipeline
