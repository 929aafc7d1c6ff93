import Graft.Files.Ignore
import Graft.Java.Identifier

/-!
# Finding source files

The source files that paths name: a file as it is, and of a folder all source
files in it and in the folders below it that are not ignored. Each file comes
once, in the order of the paths.
-/

namespace Graft.Files

mutual

/-- The source files at or below an entry of the first of some folders. -/
def sourcesAt (user : List IgnoreRule) (folders : List RuleSet) (name path : Text) :
    Node → List Text
  | .file _ => if Java.isSourcePath path then [path] else []
  | .folder entries =>
    sourcesIn user (.ofFolder name (.folder entries) :: folders) path entries

/-- The source files at or below some entries of the first of some folders. -/
def sourcesIn (user : List IgnoreRule) (folders : List RuleSet) (path : Text) :
    List (Text × Node) → List Text
  | [] => []
  | (name, n) :: rest =>
    let below := Path.join path name
    let here :=
      if RuleSet.ignores user folders name below n.isFolder then []
      else sourcesAt user folders name below n
    here ++ sourcesIn user folders path rest

end

/-- The source files of a folder, by the path that leads to it. -/
def sourcesOf (user : List IgnoreRule) (path : Text) (t : Trail) : List Text :=
  let outer := t.around.map fun (name, n) => RuleSet.ofFolder name n
  sourcesAt user outer t.here.1 path t.here.2

namespace Disk

/-- The source files that one path names; the path itself when
it leads nowhere. -/
def sourcesOfPath (d : Disk) (user : List IgnoreRule) (path : Text) : Except Text (List Text) :=
  match d.follow path with
  | .error _ => .error path
  | .ok t => .ok (if t.here.2.isFolder then sourcesOf user path t else [path])

/-- The source files that paths name, or the first path that leads nowhere. -/
def sources (d : Disk) (user : List IgnoreRule) (paths : List Text) : Except Text (List Text) := do
  let found ← paths.mapM (d.sourcesOfPath user)
  pure (Path.sortDistinct found.flatten)

/-- The entries of the folder that a path leads to. -/
def list (d : Disk) (path : Text) : Except Fault (List (Text × Node)) := do
  let t ← d.follow path
  match t.here.2 with
  | .folder entries => .ok entries
  | .file _ => .error .notFolder

/-- The names, without their endings, of the source files in the folder of a
file, sorted; a fault when the folder cannot be listed. -/
def siblings (d : Disk) (path : Text) : Except Fault (List Text) := do
  let folder := Path.folder path
  let entries ← d.list folder
  let names := entries.filterMap fun (name, n) =>
    if !n.isFolder && Java.isSourcePath (Path.join folder name) then some (Path.stem name) else none
  pure (Text.sortDistinct names)

end Disk

end Graft.Files
