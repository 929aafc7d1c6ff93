import Graft.Text.Basic

/-!
# Files and folders

The disk as a value: a tree of named files and folders, and the folder that a
command is run in. A path leads from that folder, or from the root when it
starts with a slash, step by step through the tree; `.` stays in a folder and
`..` goes back to the one around it.
-/

namespace Graft.Files

/-- A file or a folder. -/
inductive Node where
  /-- A file, with its text when what it holds is text at all. -/
  | file (content : Option Text)
  /-- A folder, with its entries by name. -/
  | folder (entries : List (Text × Node))
  deriving Inhabited

namespace Node

/-- Whether a node is a folder. -/
def isFolder : Node → Bool
  | .folder _ => true
  | .file _ => false

/-- The entries of a folder; a file has none. -/
def entries : Node → List (Text × Node)
  | .folder es => es
  | .file _ => []

/-- The entry of a folder with a name. -/
def child? (n : Node) (name : Text) : Option Node := n.entries.lookup name

/-- The node at the end of a way through folders by name. -/
def descend? : Node → List Text → Option Node
  | n, [] => some n
  | n, name :: names => (n.child? name).bind fun child => child.descend? names

/-- The text of a file. -/
def content? : Node → Option Text
  | .file content => content
  | .folder _ => none

/-- Entries with one of them set; a new one comes last. -/
def setEntry (name : Text) (child : Node) : List (Text × Node) → List (Text × Node)
  | [] => [(name, child)]
  | (n, v) :: rest =>
    if name == n then (name, child) :: rest else (n, v) :: setEntry name child rest

/-- A tree with a node put at the end of a way through folders, which are made
where they are missing. -/
def put : Node → List Text → Node → Node
  | _, [], leaf => leaf
  | n, name :: names, leaf =>
    .folder (setEntry name (put ((n.child? name).getD (.folder [])) names leaf) n.entries)

end Node

/-- Why a path leads nowhere, or to something that cannot be read. -/
inductive Fault where
  | absent
  | notFolder
  | isFolder
  | notText
  deriving DecidableEq, Repr

/-- The wording of a fault. -/
def Fault.reason : Fault → Text
  | .absent => "No such file or directory (os error 2)"
  | .notFolder => "Not a directory (os error 20)"
  | .isFolder => "Is a directory (os error 21)"
  | .notText => "stream did not contain valid UTF-8"

/-- A node with its name, and the folders that it is in, the nearest first. The
root comes last. -/
structure Trail where
  here : Text × Node
  around : List (Text × Node)

/-- One step of a way. -/
def Trail.step (t : Trail) (name : Text) : Except Fault Trail :=
  if !t.here.2.isFolder then .error .notFolder
  else if name = [] ∨ name = ['.'] then .ok t
  else if name = ['.', '.'] then
    match t.around with
    | outer :: rest => .ok ⟨outer, rest⟩
    | [] => .ok t
  else
    match t.here.2.child? name with
    | some child => .ok ⟨(name, child), t.here :: t.around⟩
    | none => .error .absent

/-- A disk, and the way from its root to the folder that a command is run in. -/
structure Disk where
  root : Node
  here : List Text := []

namespace Disk

/-- The root of a disk. -/
def top (d : Disk) : Trail := ⟨([], d.root), []⟩

/-- Where a path leads. -/
def follow (d : Disk) (path : Text) : Except Fault Trail :=
  match path with
  | [] => .error .absent
  | '/' :: rest => (Text.splitOn '/' rest).foldlM Trail.step d.top
  | _ => (d.here ++ Text.splitOn '/' path).foldlM Trail.step d.top

/-- The node that a path leads to. -/
def find? (d : Disk) (path : Text) : Option Node :=
  match d.follow path with
  | .ok t => some t.here.2
  | .error _ => none

/-- Whether a path leads to a folder. -/
def isFolder (d : Disk) (path : Text) : Bool := (d.find? path).any Node.isFolder

/-- Whether a path leads to a file. -/
def isFile (d : Disk) (path : Text) : Bool := (d.find? path).any fun n => !n.isFolder

/-- The text of a file. -/
def read (d : Disk) (path : Text) : Except Fault Text := do
  let t ← d.follow path
  match t.here.2 with
  | .folder _ => .error .isFolder
  | .file none => .error .notText
  | .file (some content) => .ok content

/-- A path as seen from a folder, from the one around it, and so on. -/
def upward : Nat → Text → List Text
  | 0, path => [path]
  | n + 1, path => path :: upward n ("../" ++ path)

/-- The nearest file that a path leads to from the folder that a command is run
in or from one of those around it, by the path that leads there. -/
def nearestFile? (d : Disk) (path : Text) : Option Text :=
  match path with
  | '/' :: _ => if d.isFile path then some path else none
  | _ => (upward d.here.length path).find? d.isFile

/-- A disk with a node put where a path leads, which takes no step back. -/
def put (d : Disk) (path : Text) (n : Node) : Disk :=
  let names := match path with
    | '/' :: rest => Text.splitOn '/' rest
    | _ => d.here ++ Text.splitOn '/' path
  { d with root := d.root.put names n }

end Disk

end Graft.Files
