import Untangle.Number.Shortest
import Untangle.Text.Quoted
import Untangle.Tree.Value

/-!
# Display of tree values

How a value is shown in messages. Texts are quoted, a sequence of one member keeps its comma, a node
is its tag with its fields as named arguments.
-/

namespace Untangle.Value

def displayScalar : Value → String
  | .null => "None"
  | .bool true => "True"
  | .bool false => "False"
  | .int i => toString i
  | .float x => x.text
  | .str s => Text.quoted s
  | .sealed label => label
  | _ => ""

/-- Texts between two brackets, with commas. -/
def bracketed (opening closing : String) (parts : List String) : String :=
  opening ++ ", ".intercalate parts ++ closing

mutual

def display : Value → String
  | .seq [v] => "(" ++ display v ++ ",)"
  | .seq items => bracketed "(" ")" (displayItems items)
  | .list items => bracketed "[" "]" (displayItems items)
  | .object entries => bracketed "\x7b" "\x7d" (displayEntries entries)
  | .node (.str tag) fields => tag ++ bracketed "(" ")" (displayFields fields)
  | .node tag fields => display tag ++ bracketed "(" ")" (displayFields fields)
  | scalar => displayScalar scalar

def displayItems : List Value → List String
  | [] => []
  | v :: rest => display v :: displayItems rest

/-- The entries of an object, each with its key quoted. -/
def displayEntries : Fields → List String
  | [] => []
  | (name, v) :: rest => (Text.quoted name ++ ": " ++ display v) :: displayEntries rest

/-- The fields of a node, each with its name. -/
def displayFields : Fields → List String
  | [] => []
  | (name, v) :: rest => (name ++ "=" ++ display v) :: displayFields rest

end

/-- A value inserted into running text: a text stands for itself, anything else is shown. -/
def plainText : Value → String
  | .str s => s
  | v => v.display

end Untangle.Value
