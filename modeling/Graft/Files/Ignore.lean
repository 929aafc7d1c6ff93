import Graft.Files.Glob
import Graft.Files.Path
import Graft.Text.Class

/-!
# Ignore files

A folder can say which files below it are not to be looked at: `.ignore` always,
and in a repository (below a folder that has a `.git`) also `.gitignore` and
`.git/info/exclude`, and last of all a file of the user. Of the rules of a file
the last one that covers a path decides, of several files the one in the nearest
folder. A decision of `.ignore` files goes before one of the others. Folders
above the repository have no say.
-/

namespace Graft.Files

/-- A line of an ignore file. -/
structure IgnoreRule where
  pattern : List Glob
  /-- Whether what it covers is kept rather than ignored. -/
  keeps : Bool
  /-- Whether it covers only folders. -/
  onlyFolders : Bool

/-- What is decided about a path. -/
inductive Verdict where
  | ignored
  | kept
  deriving DecidableEq, Repr

namespace IgnoreRule

/-- The pattern of a line, whose signs at the front have been read. One without
a slash covers names in every folder, and two stars at the end cover only what
is below a folder. -/
def spelledOut (anchored : Bool) (line : Text) : Text :=
  let line :=
    if anchored || line.elem '/' || line == "**" then line
    else ("**/" : Text) ++ line
  if (Text.beforeTail? "/**" line).isSome then line ++ "/*" else line

/-- A line without the slash at its end, and whether it had one. A backslash in
front of that slash goes too. -/
def cutSlash (line : Text) : Text × Bool :=
  match line.reverse with
  | '/' :: '\\' :: rest => (rest.reverse, true)
  | '/' :: rest => (rest.reverse, true)
  | _ => (line, false)

/-- Reads a line. Empty lines, comments, and lines with broken
patterns are no rules. -/
def ofLine? (line : Text) : Option IgnoreRule :=
  if line.head? = some '#' then none
  else
    let line := if (Text.beforeTail? "\\ " line).isSome then line else Text.trimEnd line
    match line with
    | [] => none
    | _ =>
      let (keeps, anchored, line) := match line with
        | '\\' :: '!' :: rest => (false, false, '!' :: rest)
        | '\\' :: '#' :: rest => (false, false, '#' :: rest)
        | '!' :: '/' :: rest => (true, true, rest)
        | '!' :: rest => (true, false, rest)
        | '/' :: rest => (false, true, rest)
        | _ => (false, false, line)
      let (line, onlyFolders) := cutSlash line
      (Glob.read? (spelledOut anchored line)).map fun pattern => { pattern, keeps, onlyFolders }

/-- The rules of an ignore file. -/
def ofText (content : Text) : List IgnoreRule :=
  let content := match content with
    | '\ufeff' :: rest => rest
    | _ => content
  (Text.lines content).filterMap ofLine?

/-- Whether a rule covers a path below the folder that the rule is for. -/
def covers (r : IgnoreRule) (path : Text) (isFolder : Bool) : Bool :=
  (!r.onlyFolders || isFolder) && Glob.covers r.pattern path

/-- What rules decide about a path: the last one that covers it does. -/
def verdict? (rules : List IgnoreRule) (path : Text) (isFolder : Bool) : Option Verdict :=
  (rules.reverse.find? fun r => r.covers path isFolder).map fun r =>
    if r.keeps then .kept else .ignored

end IgnoreRule

/-- The rules of a folder, and the name of the folder. -/
structure RuleSet where
  name : Text
  /-- The rules of `.ignore`. -/
  always : List IgnoreRule
  /-- The rules of `.gitignore`. -/
  shared : List IgnoreRule
  /-- The rules of `.git/info/exclude`. -/
  personal : List IgnoreRule
  /-- Whether the folder is the top of a repository. -/
  isRepository : Bool

namespace RuleSet

/-- The rules in a file below a folder. -/
def rulesAt (folder : Node) (names : List Text) : List IgnoreRule :=
  match (folder.descend? names).bind Node.content? with
  | some content => IgnoreRule.ofText content
  | none => []

/-- The rules of a folder. -/
def ofFolder (name : Text) (folder : Node) : RuleSet where
  name := name
  always := rulesAt folder [".ignore".toList]
  shared := rulesAt folder [".gitignore".toList]
  personal := rulesAt folder [".git".toList, "info".toList, "exclude".toList]
  isRepository := (folder.child? ".git").isSome

/-- What the rules of folders decide about a path below the first of them; each
folder is in the next one. -/
def verdictBy? (select : RuleSet → List IgnoreRule) (isFolder : Bool) :
    List RuleSet → Text → Option Verdict
  | [], _ => none
  | s :: outer, path =>
    (IgnoreRule.verdict? (select s) path isFolder).or
      (verdictBy? select isFolder outer (s.name ++ '/' :: path))

/-- The folders up to the top of the repository that they are in; none when
there is no repository. -/
def withinRepository : List RuleSet → List RuleSet
  | [] => []
  | s :: outer =>
    if s.isRepository then [s]
    else match withinRepository outer with
      | [] => []
      | upTo => s :: upTo

/-- Whether an entry of the first of some folders is ignored. The user's own
rules come last and see the path as it is spelled. -/
def ignores (user : List IgnoreRule) (folders : List RuleSet) (name path : Text)
    (isFolder : Bool) : Bool :=
  let repository := withinRepository folders
  let own := if repository.isEmpty then none
    else IgnoreRule.verdict? user (Path.withoutDot path) isFolder
  let verdict :=
    (verdictBy? always isFolder folders name)
      |>.or (verdictBy? shared isFolder repository name)
      |>.or (verdictBy? personal isFolder repository name)
      |>.or own
  verdict == some .ignored

end RuleSet

end Graft.Files
