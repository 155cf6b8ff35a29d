import Untangle.Diagnostic.SourceError
import Untangle.Grammar.Version

/-!
# Options

The options of a call: the grammar version, the indentation width and whether the tree is wanted in
place of the text. They are checked when they are set, the version first.

Names, ranges and defaults are those of sections 6 and 9 of the specification.

* `Options.ofEntries` takes known names only.
* `Options.override` changes some options and refuses unknown names after the known ones are
  checked.
-/

namespace Untangle

/-- Checked options. The version and the choice of output are kept as they were given. -/
structure Options where
  version : Version := .es6
  versionGiven : Value := .int 6
  indent : Nat := 4
  outputTree : Value := .bool false

namespace Options

/-- The version that an option value stands for; a truth value stands for none. -/
def versionOf? : Value → Option Version
  | .bool _ => none
  | v => Version.ofValue? v

/-- The width that an option value stands for: an integer that is not negative. -/
def widthOf? : Value → Option Nat
  | .int (.ofNat n) => some n
  | _ => none

def check (version indent outputTree : Value) : Except OptionError Options :=
  match versionOf? version with
  | none => .error (.version version)
  | some v =>
    match widthOf? indent with
    | none => .error (.indent indent)
    | some width => .ok { version := v, versionGiven := version, indent := width, outputTree }

def names : List String := ["ecma_version", "indent", "output_ast"]

/-- Options with some values replaced; other names are left aside. -/
def update (base : Options) (entries : Fields) : Except OptionError Options :=
  check ((entries.lookup "ecma_version").getD base.versionGiven)
    ((entries.lookup "indent").getD (.int base.indent))
    ((entries.lookup "output_ast").getD base.outputTree)

/-- The names among the entries that are no options, in order of their code points. -/
def unknownNames (entries : Fields) : List String :=
  ((entries.map Prod.fst).filter fun name => !names.contains name).mergeSort fun a b => a ≤ b

/-- Options from named values; an unknown name is no option value at all. -/
def ofEntries (entries : Fields) : Except Failure Options :=
  if (unknownNames entries).isEmpty then (update {} entries).mapError .options
  else .error (.fault .wrongKind)

/-- Options with some values replaced by name. Unknown names are refused once the known ones are
found to be right. -/
def override (base : Options) (entries : Fields) : Except Failure Options := do
  let options ← (update base entries).mapError .options
  match unknownNames entries with
  | [] => return options
  | unknown => throw (.options (.unknown unknown))

end Options

end Untangle
