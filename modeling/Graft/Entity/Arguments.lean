import Graft.Java.Scope
import Graft.Java.Syntax

/-!
# Arguments of annotations

Typed access to the arguments that an annotation is given. A value
without a name counts as the argument `value`; of two arguments with one
name the first counts.
-/

namespace Graft.Entity

open Java

/-- Why the arguments of an annotation cannot be used. -/
inductive ArgumentError where
  /-- Something is lacking. -/
  | missing (reason : Text)
  /-- The argument has a value of another kind, or one that cannot be read. -/
  | invalid (key reason : Text)
  /-- A class name could come from several imports. -/
  | ambiguous (name : AmbiguousImport)
  deriving DecidableEq, Repr

/-- The arguments of an annotation, with the scope in which class names in them
are looked up. -/
structure Given where
  values : List (Text × ElementValue)
  scope : Scope

/-- The arguments of an annotation in a scope. -/
def Given.ofUse (scope : Scope) (u : AnnotationUse) : Given :=
  { scope
    values := match u.arguments with
      | .marker => []
      | .single value => [("value", value)]
      | .named pairs => pairs }

/-- A value as messages name it. -/
def describe : ElementValue → Text
  | .string s => "string \"" ++ s ++ "\""
  | .integer n => "integer " ++ Text.ofInt n
  | .boolean b => if b then "boolean true" else "boolean false"
  | .classLiteral t => "class literal " ++ t ++ ".class"
  | .array _ => "an array"
  | .annotated u => "annotation @" ++ u.name
  | .expression e => "expression '" ++ e ++ "'"

namespace Given

/-- The value of an argument. -/
def value? (g : Given) (key : Text) : Option ElementValue := g.values.lookup key

/-- The error for an argument whose value is of another kind than
the one wanted. -/
def unexpected (key : Text) (wanted : Text) (v : ElementValue) : ArgumentError :=
  .invalid key (wanted ++ ", got " ++ describe v)

/-- A text argument. -/
def text? (g : Given) (key : Text) : Except ArgumentError (Option Text) :=
  match g.value? key with
  | none => .ok none
  | some (.string s) => .ok (some s)
  | some v => .error (unexpected key "must be a string literal" v)

/-- An argument that is true or false. -/
def boolean? (g : Given) (key : Text) : Except ArgumentError (Option Bool) :=
  match g.value? key with
  | none => .ok none
  | some (.boolean b) => .ok (some b)
  | some v => .error (unexpected key "must be true or false" v)

/-- An argument that is true or false, or else what it means to leave it out. -/
def boolean (g : Given) (key : Text) (absent : Bool) : Except ArgumentError Bool :=
  (g.boolean? key).map fun b => b.getD absent

/-- An integer argument. -/
def integer? (g : Given) (key : Text) : Except ArgumentError (Option Int) :=
  match g.value? key with
  | none => .ok none
  | some (.integer n) => .ok (some n)
  | some v => .error (unexpected key "must be an integer literal" v)

/-- The qualified name of a class given as an argument. -/
def class? (g : Given) (key : Text) : Except ArgumentError (Option Text) :=
  match g.value? key with
  | none => .ok none
  | some (.classLiteral written) =>
    match g.scope.resolve written with
    | .ok t => .ok (some t.qualifiedName)
    | .error e => .error (.ambiguous e)
  | some v => .error (unexpected key "must be a class literal" v)

end Given

/-- How an annotation is read: its simple name, and what its arguments say. -/
structure Shape (α : Type) where
  name : Text
  read : Given → Except ArgumentError α

/-- The values of an argument that takes a list of annotations of one shape; a
single one counts as a list of one. -/
def Given.nested {α : Type} (g : Given) (shape : Shape α) (key : Text) :
    Except ArgumentError (List α) :=
  match g.value? key with
  | none => .ok []
  | some (.array items) => items.mapM element
  | some v => [v].mapM element
where
  /-- Reads one of the annotations. -/
  element : ElementValue → Except ArgumentError α
    | .annotated u =>
      if u.simpleName == shape.name then shape.read (.ofUse g.scope u) else mismatch (.annotated u)
    | v => mismatch v
  /-- The error for anything else in the list. -/
  mismatch (v : ElementValue) : Except ArgumentError α :=
    .error (Given.unexpected key ("must contain @" ++ shape.name ++ " annotations") v)

end Graft.Entity
