import Untangle.Text.Quoted
import Untangle.Text.Split

/-!
# Files and paths

A tree of directories and files, and the way a path leads through it.

* `normalPath` is the plain form of a path, the one that is shown and looked up.
* `FileTree.read` walks the parts of a path in order and stops at the first one that leads nowhere,
  so the error tells what was met there and not what stands further on.
-/

namespace Untangle.CommandLine

inductive ReadError where
  | missing
  | notDirectory
  | directory
  | nameTooLong
  deriving DecidableEq, Repr

def ReadError.message (e : ReadError) (path : String) : String :=
  let cause := match e with
    | .missing => "[Errno 2] No such file or directory"
    | .notDirectory => "[Errno 20] Not a directory"
    | .directory => "[Errno 21] Is a directory"
    | .nameTooLong => "[Errno 36] File name too long"
  cause ++ ": " ++ Text.quoted path

/-- The parts of a path between slashes that say something. -/
def pathParts (cs : List Char) : List (List Char) :=
  (Text.splitAt '/' cs).filter fun part => !part.isEmpty && part != ['.']

/-- A path in its plain form: no empty parts, no dots for the same place, no slash at the end. Two
slashes at the start are kept; any other number of them is one. -/
def normalPath (path : String) : String :=
  let cs := path.toList
  let slashes := (cs.takeWhile (· == '/')).length
  let root := if slashes = 2 then "//" else if slashes = 0 then "" else "/"
  let plain := root ++ "/".intercalate ((pathParts cs).map String.ofList)
  if plain.isEmpty then "." else plain

/-- The most bytes that the name of one file may have. -/
def nameLimit : Nat := 255

/-- The number of bytes from which on a path is refused as a whole. -/
def pathLimit : Nat := 4096

/-- A file with its bytes, or a directory with its entries. -/
inductive FileTree where
  | file (bytes : ByteArray)
  | directory (entries : List (String × FileTree))

namespace FileTree

def entry? (tree : FileTree) (name : String) : Option FileTree :=
  match tree with
  | .file _ => none
  | .directory entries => entries.lookup name

/-- A directory with a tree at one name; a tree already there is replaced. -/
def withEntry (tree : FileTree) (name : String) (t : FileTree) : FileTree :=
  match tree with
  | .file _ => .directory [(name, t)]
  | .directory entries => .directory ((name, t) :: entries.filter fun e => e.1 != name)

/-- A tree with another one put at a place. Directories on the way are made where they are missing,
and an empty directory put where one stands already leaves it as it is. -/
def put : FileTree → List String → FileTree → FileTree
  | .directory entries, [], .directory [] => .directory entries
  | _, [], t => t
  | tree, name :: rest, t =>
    tree.withEntry name (put ((tree.entry? name).getD (.directory [])) rest t)

/-- Goes from a place to the one that a part of a path names. A place is a tree with the directories
above it, the nearest first; above the uppermost one stands itself. -/
def step (place : List FileTree) (name : String) : Except ReadError (List FileTree) :=
  match place with
  | .directory entries :: above =>
    if name = ".." then .ok (if above.isEmpty then place else above)
    else if nameLimit < name.utf8ByteSize then .error .nameTooLong
    else match entries.lookup name with
      | some t => .ok (t :: place)
      | none => .error .missing
  | _ => .error .notDirectory

/-- The place to which a path leads. A path that starts with a slash starts at the uppermost
directory, any other one at the working directory, which is given by its names. -/
def locate (root : FileTree) (working : List String) (path : String) :
    Except ReadError (List FileTree) := do
  if pathLimit ≤ path.utf8ByteSize then .error .nameTooLong
  let start ← if path.toList.head? = some '/' then pure [root] else working.foldlM step [root]
  ((pathParts path.toList).map String.ofList).foldlM step start

def read (root : FileTree) (working : List String) (path : String) :
    Except ReadError ByteArray := do
  match ← locate root working path with
  | .file bytes :: _ => .ok bytes
  | _ => .error .directory

end FileTree

end Untangle.CommandLine
