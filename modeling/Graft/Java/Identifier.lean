import Graft.Text.Class

/-!
# Java identifiers

The names that variables of generated code may have.
-/

namespace Graft.Java

/-- The words that are no identifiers. -/
def reservedWords : List Text := List.map String.toList [
  "abstract", "assert", "boolean", "break", "byte", "case", "catch", "char", "class", "const",
  "continue", "default", "do", "double", "else", "enum", "extends", "final", "finally", "float",
  "for", "goto", "if", "implements", "import", "instanceof", "int", "interface", "long", "native",
  "new", "package", "private", "protected", "public", "return", "short", "static", "strictfp",
  "super", "switch", "synchronized", "this", "throw", "throws", "transient", "try", "void",
  "volatile", "while", "true", "false", "null"]

/-- Whether a name can be used for a variable: it starts with a
letter, an underscore or a dollar sign, goes on with these and
numbers, and is not reserved. -/
def isIdentifier (name : Text) : Bool :=
  match name with
  | [] => false
  | first :: rest =>
    (Char.isLetter first || first == '_' || first == '$') &&
      rest.all (fun c => Char.isLetterOrNumber c || c == '_' || c == '$') &&
      !reservedWords.contains name

/-- The wording for a name that is no identifier. -/
def invalidIdentifierMessage (name : Text) : Text :=
  "'" ++ name ++ "' is not a valid Java identifier"

/-- Whether a path names a Java source file, going by what
follows its last dot. -/
def isSourcePath (path : Text) : Bool :=
  path.elem '.' && Text.lastSegment path == "java"

end Graft.Java
