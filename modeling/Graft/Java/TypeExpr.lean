import Graft.Text.Class

/-!
# Type expressions

The type of a field or a parameter as its source text says it: a name
with type arguments, array levels around it, and wildcards among the
arguments. `TypeExpr.read` takes any text apart, and what the names mean
is left to a scope.
-/

namespace Graft.Java

/-- A type as written. Every form keeps its own text without the
blanks around it. -/
inductive TypeExpr where
  /-- A possibly dotted name, which may hold blanks, with type arguments. -/
  | named (name : Text) (arguments : List TypeExpr) (spelling : Text)
  /-- An array, or a parameter of variable arity. -/
  | array (element : TypeExpr) (spelling : Text)
  /-- A wildcard without a bound. -/
  | wildcard (spelling : Text)
  /-- A wildcard bounded by the word `extends` or `super` and a type. -/
  | bounded (word : Text) (bound : TypeExpr) (spelling : Text)
  deriving Inhabited

/-- The text before the first `<`, without blanks around it, and the text from
there to the last `>`. -/
def splitGeneric? (t : Text) : Option (Text × Text) :=
  if t.elem '<' then
    let base := t.takeWhile (· != '<')
    let rest := (t.dropWhile (· != '<')).drop 1
    (Text.cutAtLast? '>' rest).map fun (inside, _) => (Text.trim base, inside)
  else none

/-- The pieces of a text between the commas that stand outside angle brackets;
`depth` counts the brackets that are open. -/
def splitArgumentsAt (depth : Nat) : Text → List Text
  | [] => [[]]
  | c :: rest =>
    if c == ',' && depth == 0 then [] :: splitArgumentsAt 0 rest
    else
      let inside := if c == '<' then depth + 1 else if c == '>' then depth - 1 else depth
      match splitArgumentsAt inside rest with
      | [] => [[c]]
      | piece :: pieces => (c :: piece) :: pieces

/-- The type arguments in the text of an argument list; blank
ones do not count. -/
def splitArguments (t : Text) : List Text :=
  (splitArgumentsAt 0 t).filter fun piece => !Text.isBlank piece

/-- The words that a wildcard can be bounded by. -/
def boundWords : List Text := List.map String.toList ["extends", "super"]

/-- The bound behind the sign of a wildcard: the word and the
text of the type. -/
def wildcardBound? (t : Text) : Option (Text × Text) :=
  boundWords.findSome? fun word => (Text.afterHead? word t).map fun bound => (word, bound)

namespace TypeExpr

mutual

/-- Reads a type whose expression is nested no deeper than the given number. -/
def readWithin : Nat → Text → TypeExpr
  | 0, t => .named t [] t
  | fuel + 1, t =>
    let t := Text.trim t
    match Text.beforeTail? "..." t with
    | some element => .array (readWithin fuel element) t
    | none =>
      match Text.beforeTail? "[]" t with
      | some element => .array (readWithin fuel element) t
      | none =>
        match splitGeneric? t with
        | some (base, inside) => .named base (readArgumentsWithin fuel (splitArguments inside)) t
        | none => .named t [] t

/-- Reads the arguments of a type one by one. -/
def readArgumentsWithin : Nat → List Text → List TypeExpr
  | 0, _ => []
  | _ + 1, [] => []
  | fuel + 1, t :: rest => readArgumentWithin fuel t :: readArgumentsWithin fuel rest

/-- Reads a type or a wildcard. -/
def readArgumentWithin : Nat → Text → TypeExpr
  | 0, t => .named t [] t
  | fuel + 1, t =>
    let t := Text.trim t
    match t with
    | '?' :: rest =>
      match wildcardBound? (Text.trimStart rest) with
      | some (word, bound) => .bounded word (readWithin fuel bound) t
      | none => .wildcard t
    | _ => readWithin fuel t

end

/-- Reads the text of a type. Every level of the expression takes at least one
character, and reading a list of arguments takes two steps for each of them. -/
def read (t : Text) : TypeExpr := readWithin (4 * t.length + 4) t

end TypeExpr

end Graft.Java
