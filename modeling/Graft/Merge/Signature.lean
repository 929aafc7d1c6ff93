import Graft.Text.Class

/-!
# Signatures

A member of a type is recognised by its kind, its name and the types of its
parameters. Types are compared by their last names: blanks, package qualifiers
and the spelling of a variable arity parameter do not matter.
-/

namespace Graft.Merge

/-- The kinds of members that can be generated. -/
inductive MemberKind where
  | field
  | constructor
  | method
  deriving DecidableEq, Repr, Inhabited

/-- The name of a member kind. -/
def MemberKind.name : MemberKind → Text
  | .field => "field"
  | .constructor => "constructor"
  | .method => "method"

/-- The kinds whose last member a new member of this kind is put behind, the
preferred one first. -/
def MemberKind.anchors : MemberKind → List MemberKind
  | .field => [.field]
  | .constructor => [.constructor, .field]
  | .method => [.method, .constructor, .field]

/-- Every `...` written as `[]`. -/
def arrayDots : Text → Text
  | '.' :: '.' :: '.' :: rest => '[' :: ']' :: arrayDots rest
  | c :: rest => c :: arrayDots rest
  | [] => []

/-- A type text without blanks and with variable arity spelled as an array. -/
def normalizeType (t : Text) : Text := arrayDots (Text.compact t)

/-- Whether a character belongs to a qualified name. -/
def inQualifiedName (c : Char) : Bool :=
  Char.isLetterOrNumber c || c == '_' || c == '$' || c == '.'

/-- A type text with every qualified name in it cut down to its last part;
`name` holds the characters of the name that is being read. -/
def simplifyFrom (name : Text) : Text → Text
  | [] => Text.lastSegment name
  | c :: rest =>
    if inQualifiedName c then simplifyFrom (name ++ [c]) rest
    else Text.lastSegment name ++ c :: simplifyFrom [] rest

/-- A type text with every qualified name in it cut down to its last part. -/
def simpleType (t : Text) : Text := simplifyFrom [] t

/-- Whether two type texts name the same type, as written or by last names. -/
def typesMatch (a b : Text) : Bool :=
  let a := normalizeType a
  let b := normalizeType b
  a == b || simpleType a == simpleType b

/-- Kind, name and parameter types of a member. Fields have no parameters. -/
structure Signature where
  kind : MemberKind
  name : Text
  parameters : List Text
  deriving DecidableEq, Repr, Inhabited

namespace Signature

/-- The signature of a field. -/
def field (name : Text) : Signature := ⟨.field, name, []⟩

/-- The signature of a constructor. -/
def constructor (parameters : List Text) : Signature := ⟨.constructor, "<init>", parameters⟩

/-- The signature of a method. -/
def method (name : Text) (parameters : List Text) : Signature := ⟨.method, name, parameters⟩

/-- Whether two parameter lists have the same length and matching types. -/
def parametersMatch : List Text → List Text → Bool
  | [], [] => true
  | a :: as, b :: bs => typesMatch a b && parametersMatch as bs
  | _, _ => false

/-- Whether two signatures stand for the same member. -/
def isSameMember (a b : Signature) : Bool :=
  a.kind == b.kind && a.name == b.name && parametersMatch a.parameters b.parameters

/-- How a member is named in messages. -/
def display (s : Signature) : Text :=
  match s.kind with
  | .field => s.name
  | _ => s.name ++ "(" ++ Text.join ", ".toList s.parameters ++ ")"

end Signature

end Graft.Merge
