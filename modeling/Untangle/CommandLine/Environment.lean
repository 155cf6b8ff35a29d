/-!
# Environment

The variables that a run looks at: whether diagnostics are coloured, and how much is logged.

Sections 7 and 8 of the specification name the variables.
-/

namespace Untangle.CommandLine

structure Environment where
  noColor : Option String := none
  color : Option String := none
  logLevel : Option String := none
  deriving DecidableEq, Repr

def colorOff : List String := ["0", "false", "no", "never"]

/-- Whether diagnostics are coloured: unless `NO_COLOR` is set to some text, or the colour variable
says no. Only ASCII letters matter, since the words that say no hold no others. -/
def Environment.useColor (env : Environment) : Bool :=
  if env.noColor.any fun s => !s.isEmpty then false
  else !colorOff.contains (String.ofList ((env.color.getD "").toList.map Char.toLower))

/-- A letter as a capital, where that is an ASCII letter. Two letters outside of ASCII have such a
capital. -/
def capital (c : Char) : Char :=
  if c == 'ı' then 'I' else if c == 'ſ' then 'S' else c.toUpper

def levelTable : List (String × Nat) := [
  ("CRITICAL", 50), ("FATAL", 50), ("ERROR", 40), ("WARNING", 30), ("WARN", 30), ("INFO", 20),
  ("DEBUG", 10), ("NOTSET", 0)]

def defaultLevel : Nat := 30

/-- The log level that the environment names in any case of letters, or the default. -/
def Environment.level (env : Environment) : Nat :=
  match env.logLevel with
  | none => defaultLevel
  | some name =>
    (levelTable.lookup (String.ofList (name.toList.map capital))).getD defaultLevel

def Environment.debugs (env : Environment) : Bool :=
  env.level ≤ 10

end Untangle.CommandLine
