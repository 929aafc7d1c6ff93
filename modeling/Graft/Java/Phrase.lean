import Graft.Java.Literal
import Graft.Java.Tree

/-!
# Phrases of declarations

The parts that declarations are made of, read from bracketed tokens: types,
array dimensions, annotations with their arguments, modifiers, parameters and
declared variables. Everything here takes trees from the front of a list and
gives back the rest.
-/

namespace Graft.Java

/-- The source text from the start of one token to the end of another. -/
def spelled (source : Text) (first last : Token) : Text := (Span.between first last).text source

/-! ## Annotations passed over, type arguments, types -/

/-- Passes over further parts of a dotted name; gives the last
word of the name. -/
def dottedTail (last : Token) : List Tree → Token × List Tree
  | .leaf dot :: .leaf w :: rest =>
    if dot.isSign "." && w.kind == .word then dottedTail w rest
    else (last, .leaf dot :: .leaf w :: rest)
  | rest => (last, rest)

/-- Passes over annotations; the number bounds how many. -/
def skipAnnotations : Nat → List Tree → List Tree
  | n + 1, .leaf sign :: .leaf w :: rest =>
    if sign.isSign "@" && w.kind == .word then
      match (dottedTail w rest).2 with
      | .group left inner right :: rest' =>
        if left.isSign "(" then skipAnnotations n rest'
        else .group left inner right :: rest'
      | rest' => skipAnnotations n rest'
    else .leaf sign :: .leaf w :: rest
  | _, trees => trees

/-- Passes over type arguments behind an opening angle bracket, up to the
bracket that closes `depth` of them; gives that bracket. Nothing but the parts
of types may stand in between. -/
def skipAngles : (depth : Nat) → List Tree → Option (Token × List Tree)
  | _, [] => none
  | depth, .leaf t :: rest =>
    if t.isSign "<" then skipAngles (depth + 1) rest
    else if t.isSign ">" then
      if depth ≤ 1 then some (t, rest) else skipAngles (depth - 1) rest
    else if t.kind == .word || [",", "?", "&", ".", "@"].any (fun s => t.isSign s) then
      skipAngles depth rest
    else none
  | depth, .group left _ _ :: rest =>
    if left.isSign "[" || left.isSign "(" then skipAngles depth rest else none
  | _, .stray _ :: _ => none

/-- Passes over what follows the first name of a type: type arguments, further
names and array dimensions. Gives the last token of the type. -/
def typeTail : Nat → (last : Token) → List Tree → Token × List Tree
  | n + 1, last, .leaf t :: rest =>
    if t.isSign "<" then
      match skipAngles 1 rest with
      | some (close, rest') => typeTail n close rest'
      | none => (last, .leaf t :: rest)
    else if t.isSign "." then
      match skipAnnotations rest.length rest with
      | .leaf w :: rest' =>
        if w.kind == .word && w.text != "class" && w.text != "this" then typeTail n w rest'
        else (last, .leaf t :: rest)
      | _ => (last, .leaf t :: rest)
    else if t.isSign "@" then
      match skipAnnotations (rest.length + 1) (.leaf t :: rest) with
      | .group left [] right :: rest' =>
        if left.isSign "[" then typeTail n right rest' else (last, .leaf t :: rest)
      | _ => (last, .leaf t :: rest)
    else (last, .leaf t :: rest)
  | n + 1, last, .group left [] right :: rest =>
    if left.isSign "[" then typeTail n right rest else (last, .group left [] right :: rest)
  | _, last, rest => (last, rest)

/-- Reads a type; gives its first and its last token. -/
def readType? : List Tree → Option ((Token × Token) × List Tree)
  | .leaf w :: rest =>
    if w.kind == .word then
      let (last, rest') := typeTail (rest.length + 1) w rest
      some ((w, last), rest')
    else none
  | _ => none

/-- Passes over array dimensions with their annotations; gives the last bracket
of them, or `last` when there are none. -/
def dimensionsEnd : Nat → (last : Option Token) → List Tree → Option Token × List Tree
  | n + 1, last, trees =>
    match skipAnnotations trees.length trees with
    | .group left [] right :: rest =>
      if left.isSign "[" then dimensionsEnd n (some right) rest else (last, trees)
    | _ => (last, trees)
  | 0, last, trees => (last, trees)

/-- Reads array dimensions behind a name: their text without blanks. -/
def readDimensions (source : Text) (trees : List Tree) : Text × List Tree :=
  match trees, dimensionsEnd trees.length none trees with
  | first :: _, (some last, rest) => (Text.compact (spelled source first.first last), rest)
  | _, (_, rest) => ([], rest)

/-! ## Expressions passed over -/

/-- Whether the tree behind a closing angle bracket shows that the brackets held
type arguments. -/
def followsTypeArguments : List Tree → Bool
  | t :: _ =>
    t.isGroup "(" || t.isGroup "[" || t.isBlock || t.isSign "::" || t.isSign "." ||
      t.isSign "," || t.isSign ";"
  | [] => true

/-- Whether an opening angle bracket inside an expression opens type arguments;
`inType` says that the expression is naming a type there. -/
def opensTypeArguments (inType : Bool) (rest : List Tree) : Bool :=
  match skipAngles 1 rest with
  | some (_, following) => inType || followsTypeArguments following
  | none => false

/-- Whether an angle bracket follows that opens the type arguments of a call: it
stands behind a dot or a pair of colons. -/
def opensCallArguments (t : Tree) (rest : List Tree) : Bool :=
  (t.isSign "." || t.isSign "::") && rest.head?.any fun next => next.isSign "<"

/-- The trees of an expression up to the comma or semicolon that ends it, and
the rest. `depth` counts the angle brackets of type arguments that are open. -/
def untilComma : (depth : Nat) → (inType : Bool) → List Tree → List Tree × List Tree
  | _, _, [] => ([], [])
  | depth, inType, t :: rest =>
    if depth == 0 && (t.isSign "," || t.isSign ";") then ([], t :: rest)
    else
      let depth' :=
        if 0 < depth then
          if t.isSign "<" then depth + 1 else if t.isSign ">" then depth - 1 else depth
        else if t.isSign "<" && opensTypeArguments inType rest then 1
        else 0
      let inType' :=
        t.isWord "new" || t.isWord "instanceof" || opensCallArguments t rest ||
          (inType && (t.word?.isSome || t.isSign "." || 0 < depth))
      let (before, after) := untilComma depth' inType' rest
      (t :: before, after)

/-- The expressions between the commas of a list; an empty last one is left out.
The number bounds how many. -/
def splitExpressions : Nat → List Tree → List (List Tree)
  | _, [] => []
  | 0, _ => []
  | n + 1, trees =>
    match untilComma 0 false trees with
    | (piece, _ :: rest) => piece :: splitExpressions n rest
    | (piece, []) => [piece]

/-- The parts between the commas of a list in which angle brackets always hold
type arguments. -/
def splitParameters : (depth : Nat) → (piece : List Tree) → List Tree → List (List Tree)
  | _, [], [] => []
  | _, piece, [] => [piece.reverse]
  | depth, piece, t :: rest =>
    if depth == 0 && t.isSign "," then piece.reverse :: splitParameters 0 [] rest
    else
      let depth' := if t.isSign "<" then depth + 1 else if t.isSign ">" then depth - 1 else depth
      splitParameters depth' (t :: piece) rest

/-! ## Annotations -/

/-- The text of a class literal without `.class`, if the trees are one. -/
def classLiteral? (source : Text) (trees : List Tree) : Option Text :=
  match trees.reverse with
  | .leaf w :: .leaf dot :: _ =>
    if w.isWord "class" && dot.isSign "." then
      match readType? trees, trees with
      | some (_, [.leaf _, .leaf _]), first :: _ =>
        let written := Text.compact (spelled source first.first w)
        some ((Text.beforeTail? ".class" written).getD written)
      | _, _ => none
    else none
  | _ => none

/-- The source text of trees. -/
def spelledTrees (source : Text) (trees : List Tree) : Text :=
  match trees, trees.getLast? with
  | first :: _, some last => spelled source first.first last.last
  | _, _ => []

mutual

/-- Reads the value of an argument. The number bounds the depth of nesting. -/
def readValue (source : Text) : Nat → List Tree → ElementValue
  | n + 1, trees =>
    let asWritten : ElementValue := .expression (spelledTrees source trees)
    match trees with
    | [.leaf t] =>
      match t.kind with
      | .string => .string (stringValue t.text)
      | .integer =>
        match integerValue? t.text with
        | some v => .integer v
        | none => asWritten
      | .word =>
        if t.text = "true" then .boolean true
        else if t.text = "false" then .boolean false
        else asWritten
      | _ => asWritten
    | [.group left inner _] =>
      if left.isSign ['\x7b'] then
        .array (((splitExpressions (inner.length + 1) inner).filter (!·.isEmpty)).map
          (readValue source n))
      else if left.isSign "(" && !inner.isEmpty then readValue source n inner
      else asWritten
    | .leaf t :: rest =>
      if t.isSign "@" then
        match readAnnotationUse? source n (.leaf t :: rest) with
        | some (a, _) => .annotated a
        | none => asWritten
      else if t.isSign "-" then
        match readValue source n rest with
        | .integer v => .integer (-v)
        | _ => asWritten
      else if t.isSign "+" then
        match readValue source n rest with
        | .integer v => .integer v
        | _ => asWritten
      else
        match classLiteral? source trees with
        | some type => .classLiteral type
        | none => asWritten
    | _ => asWritten
  | 0, trees => .expression (spelledTrees source trees)

/-- Reads the arguments between the parentheses of an annotation. -/
def readArguments (source : Text) : Nat → List Tree → Arguments
  | _, [] => .marker
  | n + 1, .leaf key :: .leaf sign :: rest =>
    if key.kind == .word && sign.isSign "=" then
      .named <| (splitExpressions (rest.length + 3) (.leaf key :: .leaf sign :: rest)).filterMap
        fun
          | .leaf k :: .leaf _ :: value => some (k.text, readValue source n value)
          | _ => none
    else .single (readValue source n (.leaf key :: .leaf sign :: rest))
  | n + 1, trees => .single (readValue source n trees)
  | 0, _ => .marker

/-- Reads an annotation. -/
def readAnnotationUse? (source : Text) : Nat → List Tree → Option (AnnotationUse × List Tree)
  | n + 1, .leaf sign :: .leaf w :: rest =>
    if sign.isSign "@" && w.kind == .word then
      let (last, rest') := dottedTail w rest
      let name := Text.compact (spelled source w last)
      let marker := AnnotationUse.mk name .marker (Span.between sign last)
      match rest' with
      | .group left inner right :: rest'' =>
        if left.isSign "(" then
          some (.mk name (readArguments source n inner) (Span.between sign right), rest'')
        else some (marker, rest')
      | _ => some (marker, rest')
    else none
  | _, _ => none

end

/-! ## Modifiers, parameters, declared variables -/

/-- The keywords that may stand in front of a declaration. -/
def modifierWords : List Text := List.map String.toList [
  "public", "protected", "private", "abstract", "static", "final", "strictfp", "default",
  "synchronized", "native", "transient", "volatile", "sealed", "non-sealed"]

/-- Reads modifiers. The number bounds how many, and the nesting inside them. -/
def readModifiers (source : Text) : Nat → List Tree → Modifiers × List Tree
  | n + 1, .leaf t :: rest =>
    if t.kind == .word && modifierWords.contains t.text then
      let (m, rest') := readModifiers source n rest
      ({ m with keywords := t.text :: m.keywords }, rest')
    else
      match readAnnotationUse? source n (.leaf t :: rest) with
      | some (a, rest') =>
        let (m, rest'') := readModifiers source n rest'
        ({ m with annotations := a :: m.annotations }, rest'')
      | none => ({}, .leaf t :: rest)
  | _, trees => ({}, trees)

/-- Reads a parameter. A receiver is none. -/
def readParameter? (source : Text) (depth : Nat) (trees : List Tree) : Option Parameter := do
  let (_, rest) := readModifiers source depth trees
  let ((first, last), rest) ← readType? rest
  let typeText := spelled source first last
  match rest with
  | .leaf t :: rest' =>
    if t.isSign "..." then
      match skipAnnotations rest'.length rest' with
      | .leaf name :: _ =>
        if name.kind == .word then some ⟨typeText ++ "...", name.text⟩ else none
      | _ => none
    else if t.kind == .word && t.text != "this" then
      match rest' with
      | .leaf _ :: _ => none
      | _ => some ⟨typeText ++ (readDimensions source rest').1, t.text⟩
    else none
  | _ => none

/-- Reads the parameters between parentheses. -/
def readParameters (source : Text) (depth : Nat) (inner : List Tree) : List Parameter :=
  (splitParameters 0 [] inner).filterMap (readParameter? source depth)

/-- Passes over the value that a variable is declared with. -/
def behindValue : List Tree → List Tree
  | t :: value => if t.isSign "=" then (untilComma 0 false value).2 else t :: value
  | [] => []

/-- Reads the variables of a field declaration up to its semicolon. -/
def readDeclarators? (source : Text) : Nat → List Tree → Option (List Declarator)
  | n + 1, .leaf name :: rest =>
    if name.kind == .word then
      let (dimensions, rest) := readDimensions source rest
      match behindValue rest with
      | [t] => if t.isSign ";" then some [⟨name.text, dimensions⟩] else none
      | t :: more =>
        if t.isSign "," then (readDeclarators? source n more).map (⟨name.text, dimensions⟩ :: ·)
        else none
      | [] => none
    else none
  | _, _ => none

end Graft.Java
