import Untangle.CommandLine.Integer
import Untangle.Grammar.Version
import Untangle.Text.Quoted

/-!
# Arguments

The arguments of the command line. Every argument is first told apart as a value or an option; then
they are taken from left to right, and an error or a request for help ends the run where it is
reached. What nothing takes is reported at the end.

* `classify` tells options from values; long options may be cut short where that leaves one meaning.
* `Arguments.ofList` reads all arguments.
-/

namespace Untangle.CommandLine

/-- What the arguments ask for. The width is kept as a value; a separator given as the width leaves
no width at all. -/
structure Arguments where
  file : Option String := none
  version : Option Version := none
  indent : Value := .int 2

/-- Why the arguments end the run. -/
inductive Halt where
  | help
  | usage (message : String)
  deriving DecidableEq, Repr

inductive Flag where
  | help
  | version (v : Version)
  | indent
  deriving DecidableEq, Repr

def flagTable : List (String × Flag) := [
  ("-h", .help), ("--help", .help),
  ("--ecma3", .version .es3), ("--ecma5", .version .es5),
  ("--ecma6", .version .es6), ("--ecma7", .version .es7),
  ("--indent", .indent)]

def Flag.label : Flag → String
  | .help => "-h/--help"
  | .version v => s!"--ecma{v.number}"
  | .indent => "--indent"

/-- An argument, told apart. An option may have a text attached to it; `short` marks one that was
spelled with a single dash. -/
inductive Word where
  | value (text : String)
  | separator
  | flag (f : Flag) (short : Bool) (attached : Option String)
  | unknown (text : String)
  deriving DecidableEq, Repr

def Word.isOption : Word → Bool
  | .flag _ _ _ | .unknown _ => true
  | .value _ | .separator => false

/-- The argument as it was given, for those that can be left over. -/
def Word.text : Word → String
  | .value text | .unknown text => text
  | .separator => "--"
  | .flag f _ _ => f.label

/-- A text up to its first equals sign, and what follows the sign. -/
def splitEquals (cs : List Char) : String × Option String :=
  let name := String.ofList (cs.takeWhile (· != '='))
  match cs.dropWhile (· != '=') with
  | [] => (name, none)
  | _ :: rest => (name, some (String.ofList rest))

/-- The options whose spelling a long option starts. -/
def longMatches (name : String) : List (String × Flag) :=
  flagTable.filter fun entry => name.toList.isPrefixOf entry.1.toList

/-- Whether a text is a negative number: a dash and digits, perhaps with a point before the last of
them. A line end after it does not count. -/
def isNegativeNumber (cs : List Char) : Bool :=
  let cs := if cs.getLast? == some '\n' then cs.dropLast else cs
  match cs with
  | '-' :: rest =>
    let whole := rest.takeWhile Text.isDecimal
    match rest.dropWhile Text.isDecimal with
    | [] => !whole.isEmpty
    | '.' :: fraction => !fraction.isEmpty && fraction.all Text.isDecimal
    | _ => false
  | _ => false

/-- An argument that starts with a dash and is no option: a value if it is a negative number or
holds a blank. -/
def unmatched (arg : String) : Word :=
  if isNegativeNumber arg.toList || arg.toList.contains ' ' then .value arg else .unknown arg

/-- A long option that is not spelled out. -/
def classifyLong (arg : String) : Except Halt Word :=
  let (name, attached) := splitEquals arg.toList
  match longMatches name with
  | [] => .ok (unmatched arg)
  | [(_, flag)] => .ok (.flag flag false attached)
  | several =>
    let spellings := ", ".intercalate (several.map Prod.fst)
    .error (.usage s!"ambiguous option: {arg} could match {spellings}")

/-- An option with a single dash, whose text may follow directly. -/
def classifyShort (arg : String) : Word :=
  match flagTable.lookup (String.ofList (arg.toList.take 2)) with
  | some flag => .flag flag true (some (String.ofList (arg.toList.drop 2)))
  | none => unmatched arg

def isShort (name : String) : Bool :=
  (name.toList.drop 1).head? != some '-'

def classify (arg : String) : Except Halt Word :=
  match flagTable.lookup arg with
  | some flag => .ok (.flag flag (isShort arg) none)
  | none =>
    match arg.toList with
    | '-' :: second :: _ =>
      let (name, attached) := splitEquals arg.toList
      match attached, flagTable.lookup name with
      | some attached, some flag => .ok (.flag flag (isShort name) (some attached))
      | _, _ => if second == '-' then classifyLong arg else .ok (classifyShort arg)
    | _ => .ok (.value arg)

/-- Tells all arguments apart; after the first separator everything is a value. -/
def classifyAll : List String → Except Halt (List Word)
  | [] => .ok []
  | "--" :: rest => .ok (.separator :: rest.map .value)
  | arg :: rest => do return (← classify arg) :: (← classifyAll rest)

/-- How far the arguments are taken: whether a file name is still awaited, and what nothing took. -/
structure Progress where
  arguments : Arguments := {}
  awaitsFile : Bool := true
  extras : List String := []

/-- The refusal of a text attached to an option that takes none. -/
def ignored {α : Type} (flag : Flag) (attached : String) : Except Halt α :=
  .error (.usage s!"argument {flag.label}: ignored explicit argument {Text.quoted attached}")

/-- The indentation width that a text stands for. -/
def width (text : String) : Except Halt Value :=
  match integer? text with
  | none => .error (.usage s!"argument --indent: invalid indent width: {Text.quoted text}")
  | some n =>
    if n < 0 then
      .error (.usage s!"argument --indent: indent width must be non-negative: {Text.quoted text}")
    else .ok (.int n)

/-- A width attached to its option; the separator counts as no value there. -/
def attachedWidth (text : String) : Except Halt Value :=
  if text = "--" then .ok (.list []) else width text

/-- Help was asked for. A text attached to the short form must ask for it again, letter by
letter. -/
def helpHalt {α : Type} (short : Bool) (attached : Option String) : Except Halt α :=
  match attached with
  | none => .error .help
  | some text =>
    let rest := text.toList.dropWhile (· == 'h')
    if !short || text.isEmpty then ignored .help text
    else if rest.isEmpty then .error .help
    else ignored .help (String.ofList rest)

/-- Takes the arguments after the last option: a file name if one is awaited, with the separator
before or after it. -/
def takeRest (p : Progress) (words : List Word) : Progress :=
  let leaveOver := fun (p : Progress) (words : List Word) =>
    { p with extras := p.extras ++ words.map Word.text }
  let named := fun (name : String) =>
    { p with arguments := { p.arguments with file := some name }, awaitsFile := false }
  if p.awaitsFile then
    match words with
    | .separator :: .value name :: rest => leaveOver (named name) rest
    | .separator :: rest => leaveOver p rest
    | .value name :: .separator :: rest => leaveOver (named name) rest
    | .value name :: rest => leaveOver (named name) rest
    | rest => leaveOver p rest
  else leaveOver p words

/-- Takes a value that stands before an option: the file name if it is awaited. -/
def takeValue (p : Progress) (text : String) : Progress :=
  if p.awaitsFile then
    { p with arguments := { p.arguments with file := some text }, awaitsFile := false }
  else { p with extras := p.extras ++ [text] }

def take (p : Progress) : List Word → Except Halt Progress
  | [] => .ok p
  | .value text :: rest =>
    if rest.any Word.isOption then take (takeValue p text) rest
    else .ok (takeRest p (.value text :: rest))
  | .separator :: rest => .ok (takeRest p (.separator :: rest))
  | .unknown text :: rest => take { p with extras := p.extras ++ [text] } rest
  | .flag .help short attached :: _ => helpHalt short attached
  | .flag (.version v) _ (some attached) :: _ => ignored (.version v) attached
  | .flag (.version v) _ none :: rest =>
    take { p with arguments := { p.arguments with version := some v } } rest
  | .flag .indent _ (some attached) :: rest => do
    let indent ← attachedWidth attached
    take { p with arguments := { p.arguments with indent } } rest
  | .flag .indent _ none :: .value text :: rest => do
    let indent ← width text
    take { p with arguments := { p.arguments with indent } } rest
  | .flag .indent _ none :: _ => .error (.usage "argument --indent: expected one argument")

def Arguments.ofList (args : List String) : Except Halt Arguments := do
  let progress ← take {} (← classifyAll args)
  if progress.extras.isEmpty then return progress.arguments
  else throw (.usage ("unrecognized arguments: " ++ " ".intercalate progress.extras))

end Untangle.CommandLine
