import Graft.Entity.Vocabulary
import Graft.Settings.Basic
import Graft.SourceError

/-!
# Marks of a declaration

The annotations of one declaration, looked up by qualified name. Only
annotations whose simple name fits are resolved, so that the others never
count as ambiguous.
-/

namespace Graft.Entity

open Java

/-- The annotations of a declaration, with what is needed to
say what they are. -/
structure Marks where
  uses : List AnnotationUse
  scope : Scope
  settings : AnnotationSettings

namespace Marks

/-- The first annotation in a list that has a qualified name in a scope. -/
def findIn (scope : Scope) (qualified : Text) :
    List AnnotationUse → Except AmbiguousImport (Option AnnotationUse)
  | [] => .ok none
  | u :: rest =>
    if u.simpleName == Text.lastSegment qualified then do
      let name ← scope.resolveName u.name
      if name == qualified then pure (some u) else findIn scope qualified rest
    else findIn scope qualified rest

/-- The annotation of a qualified name. -/
def find? (m : Marks) (qualified : Text) : Except AmbiguousImport (Option AnnotationUse) :=
  findIn m.scope qualified m.uses

/-- The annotation of a shape. -/
def use? {α : Type} (m : Marks) (shape : Shape α) : Except AmbiguousImport (Option AnnotationUse) :=
  m.find? (m.settings.qualified shape.name)

/-- Whether there is an annotation of a shape. -/
def has {α : Type} (m : Marks) (shape : Shape α) : Except AmbiguousImport Bool :=
  (m.use? shape).map Option.isSome

/-- What the annotation of a shape says, if there is one. -/
def read? {α : Type} (m : Marks) (shape : Shape α) : Except ArgumentError (Option α) :=
  match m.use? shape with
  | .error e => .error (.ambiguous e)
  | .ok none => .ok none
  | .ok (some u) => (shape.read (.ofUse m.scope u)).map some

/-- The first annotation in a list that has one of some qualified
names, as written. -/
def spellingIn (scope : Scope) (recognised : List Text) :
    List AnnotationUse → Except AmbiguousImport (Option Text)
  | [] => .ok none
  | u :: rest =>
    if recognised.any (Text.lastSegment · == u.simpleName) then do
      let name ← scope.resolveName u.name
      if recognised.contains name then pure (some u.name) else spellingIn scope recognised rest
    else spellingIn scope recognised rest

/-- The first annotation that marks a field as not null, as written. -/
def notNullSpelling? (m : Marks) : Except AmbiguousImport (Option Text) :=
  spellingIn m.scope m.settings.notNullNames m.uses

end Marks

/-- An error in the arguments of an annotation, at a place. -/
def ArgumentError.at (location : Location) (simpleName : Text) : ArgumentError → SourceError
  | .missing reason => .missingArguments location simpleName reason
  | .invalid key reason =>
    .invalidValue location simpleName ("argument '" ++ key ++ "' " ++ reason)
  | .ambiguous e => .ambiguousType location e

end Graft.Entity
