import Graft.Text.Class

/-!
# The declarations of a source file

What is kept of a Java source file: its package, its imports and the members of
its types, down to names, spelled types, modifiers and annotations. Spans say
where everything stands, in positions of the source text.
-/

namespace Graft.Java

/-- A stretch of source text between two positions, with the number of the line
it starts on. -/
structure Span where
  start : Nat
  stop : Nat
  line : Nat
  deriving DecidableEq, Repr, Inhabited

/-- The text that a span covers. -/
def Span.text (s : Span) (source : Text) : Text := source.slice s.start s.stop

/-- An import declaration: its dotted path without the words and
signs around it. -/
structure Import where
  path : Text
  isStatic : Bool
  isWildcard : Bool
  span : Span
  deriving DecidableEq, Repr, Inhabited

mutual

/-- A value given to an argument of an annotation. -/
inductive ElementValue where
  | string (value : Text)
  | integer (value : Int)
  | boolean (value : Bool)
  /-- A class literal; the type as written. -/
  | classLiteral (type : Text)
  | array (items : List ElementValue)
  | annotated (a : AnnotationUse)
  /-- Any other expression, as written. -/
  | expression (text : Text)

/-- The arguments of an annotation. -/
inductive Arguments where
  /-- No arguments. -/
  | marker
  /-- One value without a name. -/
  | single (value : ElementValue)
  /-- Named values. -/
  | named (pairs : List (Text × ElementValue))

/-- An annotation: its name as written, simple or dotted, and its arguments. -/
inductive AnnotationUse where
  | mk (name : Text) (arguments : Arguments) (span : Span)

end

instance : Inhabited AnnotationUse := ⟨.mk [] .marker default⟩

instance : Inhabited ElementValue := ⟨.boolean false⟩

namespace AnnotationUse

/-- The name as written. -/
def name : AnnotationUse → Text
  | .mk name _ _ => name

/-- The arguments. -/
def arguments : AnnotationUse → Arguments
  | .mk _ arguments _ => arguments

/-- Where the annotation stands. -/
def span : AnnotationUse → Span
  | .mk _ _ span => span

/-- The last part of the written name. -/
def simpleName (a : AnnotationUse) : Text := Text.lastSegment a.name

end AnnotationUse

/-- The keywords and annotations in front of a declaration. -/
structure Modifiers where
  keywords : List Text := []
  annotations : List AnnotationUse := []
  deriving Inhabited

namespace Modifiers

/-- Whether a keyword is among the modifiers. -/
def has (m : Modifiers) (keyword : Text) : Bool := m.keywords.contains keyword

/-- Whether the declaration is static. -/
def isStatic (m : Modifiers) : Bool := m.has "static"

/-- Whether the declaration is transient. -/
def isTransient (m : Modifiers) : Bool := m.has "transient"

/-- Whether the declaration is private. -/
def isPrivate (m : Modifiers) : Bool := m.has "private"

end Modifiers

/-- A variable of a field declaration, with the array brackets
behind its name. -/
structure Declarator where
  name : Text
  dimensions : Text
  deriving DecidableEq, Repr, Inhabited

/-- A field declaration; it may declare several variables. -/
structure FieldDecl where
  modifiers : Modifiers
  typeText : Text
  declarators : List Declarator
  span : Span
  doc : Option Span
  deriving Inhabited

/-- The whole type of one variable of a field declaration. -/
def FieldDecl.typeOf (f : FieldDecl) (d : Declarator) : Text := f.typeText ++ d.dimensions

/-- A parameter: its type as written, with `...` for variable
arity, and its name. -/
structure Parameter where
  typeText : Text
  name : Text
  deriving DecidableEq, Repr, Inhabited

/-- A method declaration. -/
structure MethodDecl where
  name : Text
  modifiers : Modifiers
  returnType : Text
  parameters : List Parameter
  span : Span
  doc : Option Span
  deriving Inhabited

/-- A constructor declaration. -/
structure ConstructorDecl where
  name : Text
  modifiers : Modifiers
  parameters : List Parameter
  span : Span
  doc : Option Span
  deriving Inhabited

/-- The kinds of type declarations. -/
inductive TypeKind where
  | classType
  | interfaceType
  | enumType
  | recordType
  | annotationType
  deriving DecidableEq, Repr, Inhabited

/-- The word for a kind of type. -/
def TypeKind.name : TypeKind → Text
  | .classType => "class"
  | .interfaceType => "interface"
  | .enumType => "enum"
  | .recordType => "record"
  | .annotationType => "annotation"

mutual

/-- A type declaration with its members; the body span includes both braces. -/
inductive TypeDecl where
  | mk (name : Text) (kind : TypeKind) (modifiers : Modifiers) (members : List Declaration)
      (span body : Span) (doc : Option Span)

/-- A member of a type. -/
inductive Declaration where
  | field (d : FieldDecl)
  | method (d : MethodDecl)
  | constructor (d : ConstructorDecl)
  | nested (t : TypeDecl)

end

instance : Inhabited TypeDecl := ⟨.mk [] .classType {} [] default default none⟩

instance : Inhabited Declaration := ⟨.nested default⟩

namespace TypeDecl

/-- The simple name. -/
def name : TypeDecl → Text
  | .mk name .. => name

/-- The kind of type. -/
def kind : TypeDecl → TypeKind
  | .mk _ kind .. => kind

/-- The modifiers in front of the declaration. -/
def modifiers : TypeDecl → Modifiers
  | .mk _ _ modifiers .. => modifiers

/-- The members, in source order. -/
def members : TypeDecl → List Declaration
  | .mk _ _ _ members .. => members

/-- The whole declaration. -/
def span : TypeDecl → Span
  | .mk _ _ _ _ span _ _ => span

/-- The body with both braces. -/
def body : TypeDecl → Span
  | .mk _ _ _ _ _ body _ => body

/-- The documentation comment directly before the declaration. -/
def doc : TypeDecl → Option Span
  | .mk _ _ _ _ _ _ doc => doc

/-- Whether a nested type needs no instance of the type around it: it is
declared static, or is of a kind that always is. -/
def isEffectivelyStatic (t : TypeDecl) : Bool := t.kind != .classType || t.modifiers.isStatic

/-- The types declared directly in the body. -/
def nestedTypes (t : TypeDecl) : List TypeDecl :=
  t.members.filterMap fun
    | .nested n => some n
    | _ => none

/-- The names of the types declared directly in the body. -/
def nestedTypeNames (t : TypeDecl) : List Text := t.nestedTypes.map name

end TypeDecl

namespace Declaration

/-- The whole declaration. -/
def span : Declaration → Span
  | .field d => d.span
  | .method d => d.span
  | .constructor d => d.span
  | .nested t => t.span

/-- The documentation comment directly before the declaration. -/
def doc : Declaration → Option Span
  | .field d => d.doc
  | .method d => d.doc
  | .constructor d => d.doc
  | .nested t => t.doc

/-- The modifiers in front of the declaration. -/
def modifiers : Declaration → Modifiers
  | .field d => d.modifiers
  | .method d => d.modifiers
  | .constructor d => d.modifiers
  | .nested t => t.modifiers

end Declaration

/-- Two positions of a text, from the first of them up to the second. -/
structure Extent where
  start : Nat
  stop : Nat
  deriving DecidableEq, Repr, Inhabited

/-- The declaration together with its documentation comment. -/
def Declaration.extent (d : Declaration) : Extent :=
  { start := match d.doc with
      | some doc => min doc.start d.span.start
      | none => d.span.start
    stop := d.span.stop }

/-- A source file. -/
structure CompilationUnit where
  /-- The package name as written. -/
  package : Option Text := none
  packageSpan : Option Span := none
  imports : List Import := []
  types : List TypeDecl := []
  /-- How many stretches of the source could not be read. -/
  syntaxErrors : Nat := 0
  deriving Inhabited

mutual

/-- The first type of a name in a list of members, each type before the
types inside it. -/
def findInMembers (name : Text) : List Declaration → Option TypeDecl
  | [] => none
  | d :: rest =>
    match findInMember name d with
    | some t => some t
    | none => findInMembers name rest

/-- The first type of a name in a member. -/
def findInMember (name : Text) : Declaration → Option TypeDecl
  | .nested t => if t.name == name then some t else findInside name t
  | _ => none

/-- The first type of a name inside a type. -/
def findInside (name : Text) : TypeDecl → Option TypeDecl
  | .mk _ _ _ members _ _ _ => findInMembers name members

end

namespace CompilationUnit

/-- The package name; empty for the default package. -/
def packageName (u : CompilationUnit) : Text := u.package.getD []

/-- The type of a simple name: a top-level type before a nested one. -/
def findType? (u : CompilationUnit) (name : Text) : Option TypeDecl :=
  match u.types.find? (·.name == name) with
  | some t => some t
  | none => u.types.findSome? (findInside name)

end CompilationUnit

end Graft.Java
