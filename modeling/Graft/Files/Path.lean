import Graft.Files.Tree
import Graft.Text.Order

/-!
# Paths

A path is kept as it is spelled, but two spellings are the same path when they
take the same steps: slashes that follow each other count as one, and a dot
counts only at the front. Paths are ordered by their steps.
-/

namespace Graft.Files

/-- A step of a path. -/
inductive Step where
  | root
  | here
  | up
  | into (name : Text)
  deriving DecidableEq, Repr

namespace Step

/-- The step that a piece between two slashes stands for, if it
stands for one. -/
def ofPiece? (piece : Text) : Option Step :=
  if piece = [] ∨ piece = ['.'] then none
  else if piece = ['.', '.'] then some .up
  else some (.into piece)

/-- A step as it is spelled. -/
def spelling : Step → Text
  | .root => []
  | .here => ['.']
  | .up => ['.', '.']
  | .into name => name

/-- The place of a kind of step in the order of steps. -/
def rank : Step → Nat
  | .root => 0
  | .here => 1
  | .up => 2
  | .into _ => 3

/-- Whether a step comes strictly before another one. -/
def before : Step → Step → Bool
  | .into a, .into b => Text.before a b
  | a, b => a.rank < b.rank

end Step

namespace Path

/-- The steps that a path takes. -/
def steps (path : Text) : List Step :=
  let pieces := Text.splitOn '/' path
  let first : List Step := match pieces with
    | [] :: _ :: _ => [.root]
    | ['.'] :: _ => [.here]
    | _ => []
  first ++ pieces.filterMap Step.ofPiece?

/-- Whether steps come strictly before others. -/
def stepsBefore : List Step → List Step → Bool
  | _, [] => false
  | [], _ :: _ => true
  | a :: as, b :: bs => if a = b then stepsBefore as bs else a.before b

/-- Puts a path among sorted ones, in place of another spelling of it. -/
def insertDistinct (path : Text) : List Text → List Text
  | [] => [path]
  | p :: rest =>
    if steps path = steps p then path :: rest
    else if stepsBefore (steps path) (steps p) then path :: p :: rest
    else p :: insertDistinct path rest

/-- The paths of a list in their order, each of them once, in the spelling
that comes first. -/
def sortDistinct (paths : List Text) : List Text := paths.foldr insertDistinct []

/-- The path of an entry of a folder. -/
def join (folder name : Text) : Text :=
  if folder.getLast? = some '/' then folder ++ name else folder ++ '/' :: name

/-- Steps as they are spelled. -/
def spell : List Step → Text
  | [] => []
  | [.root] => ['/']
  | taken => Text.join ['/'] (taken.map Step.spelling)

/-- The folder that the last step of a path is taken in. -/
def folder (path : Text) : Text :=
  match (steps path).dropLast with
  | [] => ['.']
  | before => spell before

/-- A path without a dot and a slash at its front. -/
def withoutDot : Text → Text
  | '.' :: '/' :: rest => rest
  | path => path

/-- The steps from the end of one way to the end of another. -/
def between : List Step → List Step → List Step
  | a :: start, b :: goal =>
    if a = b then between start goal else (a :: start).map (fun _ => .up) ++ b :: goal
  | start, goal => start.map (fun _ => .up) ++ goal

/-- A path as it is shown to someone in a folder: from there when that takes
fewer steps than from the root. The names lead from the root to the folder. -/
def shown (names : List Text) (path : Text) : Text :=
  let way := Step.root :: names.map Step.into
  let goal := (steps path).filter (· ≠ .here)
  let goal := if goal.head? = some .root then goal else way ++ goal
  let short := between way goal
  spell (if short.length < goal.length then short else goal)

/-- A file name without what follows its last dot. A dot at the front
belongs to the name. -/
def stem (name : Text) : Text :=
  match Text.cutAtLast? '.' name with
  | some ([], _) => name
  | some (before, _) => before
  | none => name

end Path

end Graft.Files
