import Graft.Java.Syntax
import Graft.Java.TypeExpr
import Graft.Text.Order

/-!
# Scopes

What a name in a source file stands for, as far as the file itself and the names
of its neighbours can tell: there is no class path. A scope turns names and type
expressions into qualified ones.
-/

namespace Graft.Java

/-- A type with qualified names. -/
structure TypeRef where
  qualifiedName : Text
  isPrimitive : Bool
  /-- The type as written. -/
  spelling : Text
  arguments : List TypeRef
  deriving Inhabited

namespace TypeRef

/-- A primitive type. -/
def primitive (name : Text) : TypeRef := ⟨name, true, name, []⟩

/-- A type that is not primitive. -/
def reference (qualifiedName spelling : Text) (arguments : List TypeRef) : TypeRef :=
  ⟨qualifiedName, false, spelling, arguments⟩

/-- The last part of the qualified name. -/
def simpleName (t : TypeRef) : Text := Text.lastSegment t.qualifiedName

/-- Whether the type is an array. -/
def isArray (t : TypeRef) : Bool := (Text.beforeTail? "[]" t.qualifiedName).isSome

/-- The first type argument. -/
def firstArgument? (t : TypeRef) : Option TypeRef := t.arguments.head?

end TypeRef

/-- The primitive types, and the word for no type. -/
def primitiveNames : List Text := List.map String.toList
  ["boolean", "byte", "short", "char", "int", "long", "float", "double", "void"]

/-- The qualified names of the types that need no import. -/
def importlessTypes : List Text := List.map String.toList [
  "java.lang.String", "java.lang.Object", "java.lang.Boolean", "java.lang.Byte", "java.lang.Short",
  "java.lang.Character", "java.lang.Integer", "java.lang.Long", "java.lang.Float",
  "java.lang.Double", "java.lang.Number", "java.util.Date", "java.util.List",
  "java.util.ArrayList", "java.util.Map", "java.util.HashMap", "java.util.Set",
  "java.util.HashSet", "java.util.Collection"]

/-- A name that two or more wildcard imports could supply. -/
structure AmbiguousImport where
  identifier : Text
  /-- The packages of the wildcard imports, in order. -/
  candidates : List Text
  deriving DecidableEq, Repr

/-- The wording for an ambiguous name. -/
def AmbiguousImport.message (e : AmbiguousImport) : Text :=
  "'" ++ e.identifier ++ "' is ambiguous between wildcard imports " ++
    Text.join ", ".toList e.candidates

/-- What names of a source file are looked up in. -/
structure Scope where
  package : Text
  imports : List Import := []
  /-- The type whose members are read. -/
  enclosing : Option Text := none
  /-- The types declared directly inside the enclosing type. -/
  nested : List Text := []
  /-- The types in other files of the package. -/
  siblings : List Text := []

namespace Scope

/-- The paths of the imports of single types. -/
def singleImports (s : Scope) : List Text :=
  (s.imports.filter fun i => !i.isStatic && !i.isWildcard).map Import.path

/-- The packages of the wildcard imports, in order and each once. -/
def wildcardPackages (s : Scope) : List Text :=
  Text.sortDistinct ((s.imports.filter fun i => !i.isStatic && i.isWildcard).map Import.path)

/-- A name as a member of the scope's package. -/
def qualify (s : Scope) (name : Text) : Text :=
  if s.package.isEmpty then name else s.package ++ '.' :: name

/-- What a name stands for by the wildcard imports: they cannot tell when there
are two of them. -/
def resolveByWildcard (s : Scope) (name : Text) : Except AmbiguousImport Text :=
  match s.wildcardPackages with
  | [] => .ok (s.qualify name)
  | [package] => .ok (package ++ '.' :: name)
  | candidates => .error ⟨name, candidates⟩

/-- What a name stands for inside the enclosing type: the type itself or one
declared in it. -/
def resolveInside? (s : Scope) (name : Text) : Option Text :=
  match s.enclosing with
  | some enclosing =>
    if enclosing == name then some (s.qualify enclosing)
    else if s.nested.contains name then some (s.qualify enclosing ++ '.' :: name)
    else none
  | none => none

/-- What a name without dots stands for: an import of that name, the enclosing
type, a type declared in it, a sibling, a type that needs no import, and else
what the wildcard imports say. -/
def resolveSimple (s : Scope) (name : Text) : Except AmbiguousImport Text :=
  match s.singleImports.find? (Text.lastSegment · == name) with
  | some path => .ok path
  | none =>
    match s.resolveInside? name with
    | some qualified => .ok qualified
    | none =>
      if s.siblings.contains name then .ok (s.qualify name)
      else match importlessTypes.find? (Text.lastSegment · == name) with
        | some qualified => .ok qualified
        | none => s.resolveByWildcard name

/-- What a possibly dotted name stands for. A name that starts with a
small letter and has a dot is qualified already; of any other, the first
part is looked up. -/
def resolveName (s : Scope) (name : Text) : Except AmbiguousImport Text :=
  let name := Text.compact name
  match Text.cutAt? "." name with
  | none => s.resolveSimple name
  | some (first, rest) =>
    match first with
    | c :: _ => if Char.isSmall c then .ok name else withRest rest first
    | [] => withRest rest first
where
  /-- The first part looked up, with the other parts behind it. -/
  withRest (rest first : Text) : Except AmbiguousImport Text :=
    (s.resolveSimple first).map fun qualified => qualified ++ '.' :: rest

mutual

/-- What a type expression stands for. -/
def resolveExpr (s : Scope) : TypeExpr → Except AmbiguousImport TypeRef
  | .array element spelling => do
    let element ← s.resolveExpr element
    pure (.reference (element.qualifiedName ++ "[]") spelling element.arguments)
  | .wildcard spelling => .ok (.reference "?" spelling [])
  | .bounded word bound spelling => do
    let bound ← s.resolveExpr bound
    pure (.reference ("? " ++ word ++ " " ++ bound.qualifiedName) spelling [bound])
  | .named name arguments spelling => do
    let arguments ← s.resolveExprs arguments
    if primitiveNames.contains name then pure (.primitive name)
    else
      let qualified ← s.resolveName name
      pure (.reference qualified spelling arguments)

/-- What the expressions of a list stand for, from left to right. -/
def resolveExprs (s : Scope) : List TypeExpr → Except AmbiguousImport (List TypeRef)
  | [] => .ok []
  | e :: rest => do
    let t ← s.resolveExpr e
    let ts ← s.resolveExprs rest
    pure (t :: ts)

end

/-- What the text of a type stands for. -/
def resolve (s : Scope) (text : Text) : Except AmbiguousImport TypeRef :=
  s.resolveExpr (.read text)

end Scope

end Graft.Java
