import Untangle.Reshape.Engine

/-!
# Elementary rules

Small rules from which registries can be put together by hand: keeping, dropping, doubling or
wrapping a node, replacing it by two empty statements, and spelling a name in capitals.
-/

namespace Untangle.Reshape.Rule

def same : Rule where
  name := "same"
  run _ n := return [n]

/-- Spells the name of the node in ASCII capitals. -/
def upper : Rule where
  name := "upper"
  run _ n := do
    match ← n.field "name" with
    | .str s => return [n.withField "name" (.str s.toUpper)]
    | other => throw (other.textFault "upper")

/-- Puts two empty statements in the place of the node. -/
def split : Rule where
  name := "split"
  run _ _ := return [.tagged "EmptyStatement" [], .tagged "EmptyStatement" []]

def drop : Rule where
  name := "drop"
  run _ _ := return []

def twice : Rule where
  name := "twice"
  run _ n := return [n, n]

def wrap : Rule where
  name := "wrap"
  run e n := return [← e.enclose [n]]

def elementary : List Rule := [same, upper, split, drop, twice, wrap]

end Untangle.Reshape.Rule
