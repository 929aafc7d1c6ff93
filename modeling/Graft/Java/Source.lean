import Graft.Java.Phrase

/-!
# Source files

Reads a Java source file into its declarations. Bodies of methods, initial
values and statements are passed over. A file that is not quite well-formed is
read as far as possible: stray brackets, and modifiers with no declaration
behind them, are counted as syntax errors and left out.
-/

namespace Graft.Java

/-- What a list of declarations consists of. -/
inductive Item where
  | package (name : Text) (span : Span)
  | importOf (i : Import)
  | member (d : Declaration)

/-- The words that introduce a type declaration. -/
def typeWord? (t : Token) : Option TypeKind :=
  if t.isWord "class" then some .classType
  else if t.isWord "interface" then some .interfaceType
  else if t.isWord "enum" then some .enumType
  else if t.isSign "@interface" then some .annotationType
  else none

/-- The kind and the name of the type that trees behind modifiers declare. A
record needs its header, since `record` may also be a name. -/
def typeHeader? : List Tree → Option (TypeKind × Text)
  | .leaf t :: .leaf name :: rest =>
    match typeWord? t with
    | some kind => some (kind, name.text)
    | none =>
      if t.isWord "record" && name.kind == .word then
        match rest with
        | header :: _ =>
          if header.isGroup "(" || header.isSign "<" then some (.recordType, name.text) else none
        | [] => none
      else none
  | _ => none

/-- The import that a declaration from `import` to its semicolon makes. -/
def importOf (text : Text) (span : Span) : Import :=
  let rec withoutWord : Nat → Text → Text
    | 0, t => t
    | n + 1, t => match Text.afterHead? "import" t with
      | some rest => withoutWord n rest
      | none => t
  let body := withoutWord text.length (Text.trim text)
  let body := Text.trim ((body.reverse.dropWhile (· == ';')).reverse)
  let (isStatic, body) := match Text.afterHead? "static" body with
    | some (c :: rest) =>
      if Char.isBlank c then (true, Text.trimStart (c :: rest)) else (false, body)
    | _ => (false, body)
  let path := Text.compact body
  match Text.beforeTail? ".*" path with
  | some path => { path, isStatic, isWildcard := true, span }
  | none => { path, isStatic, isWildcard := false, span }

/-- What a member that declares no type is read as. -/
inductive PlainMember where
  | declaration (d : Declaration)
  /-- Something that is no member: an initializer, a compact constructor, an
  annotation element. -/
  | passedOver
  | malformed

/-- Passes over the type parameters of a method or constructor, and the
annotations behind them. -/
def skipTypeParameters (trees : List Tree) : List Tree :=
  match trees with
  | t :: rest =>
    if t.isSign "<" then
      match skipAngles 1 rest with
      | some (_, rest') => skipAnnotations rest'.length rest'
      | none => trees
    else trees
  | [] => []

/-- Reads a field, method or constructor of a type of some kind from the trees
behind its modifiers. The constants of interfaces and annotation types are
static also when they do not say so. -/
def readPlainMember (source : Text) (depth : Nat) (kind : TypeKind) (modifiers : Modifiers)
    (span : Span) (doc : Option Span) (trees : List Tree) : PlainMember :=
  let trees := skipTypeParameters trees
  match trees with
  | .leaf name :: .group left inner _ :: _ =>
    if name.kind == .word && left.isSign "(" then
      if kind == .interfaceType || kind == .annotationType then .malformed
      else .declaration <| .constructor
        { name := name.text, modifiers, parameters := readParameters source depth inner, span, doc }
    else if left.isSign ['\x7b'] then .passedOver
    else fieldOrMethod trees
  | t :: _ => if t.isBlock then .passedOver else fieldOrMethod trees
  | [] => .malformed
where
  fieldOrMethod (trees : List Tree) : PlainMember :=
    match readType? trees with
    | none => .malformed
    | some ((first, last), rest) =>
      let typeText := spelled source first last
      match rest with
      | .leaf name :: .group left inner right :: rest' =>
        if left.isSign "(" then
          if kind == .annotationType then .passedOver
          else .declaration <| .method
            { name := name.text, modifiers,
              returnType := typeText ++ (readDimensions source rest').1,
              parameters := readParameters source depth inner, span, doc }
        else field typeText (.leaf name :: .group left inner right :: rest')
      | _ => field typeText rest
  field (typeText : Text) (rest : List Tree) : PlainMember :=
    match readDeclarators? source (rest.length + 1) rest with
    | none => .malformed
    | some declarators =>
      let isConstant := kind == .interfaceType || kind == .annotationType
      let modifiers :=
        if isConstant && !modifiers.isStatic then
          { modifiers with keywords := modifiers.keywords ++ ["static".toList] }
        else modifiers
      .declaration <| .field { modifiers, typeText, declarators, span, doc }

/-- The trees of one declaration, up to the semicolon or the block that ends
it, whether there was such an end, and the rest. A block behind an equals
sign does not end a declaration, and in annotation types one behind `default`
does not either. -/
def takeItem (inAnnotationType : Bool) : (assigned : Bool) → List Tree →
    List Tree × Bool × List Tree
  | _, [] => ([], false, [])
  | assigned, t :: rest =>
    if t.isSign ";" || (t.isBlock && !assigned) then ([t], true, rest)
    else
      let assigned' := assigned || t.isSign "=" || (inAnnotationType && t.isWord "default")
      let (item, finished, rest') := takeItem inAnnotationType assigned' rest
      (t :: item, finished, rest')

/-- The trees behind the constants of an enum: those behind the
first semicolon. -/
def behindConstants : List Tree → List Tree
  | [] => []
  | t :: rest => if t.isSign ";" then rest else behindConstants rest

/-- The trees of the constants of an enum. -/
def constants : List Tree → List Tree
  | [] => []
  | t :: rest => if t.isSign ";" then [t] else t :: constants rest

/-- The items read from a list of trees, the syntax errors among them, and
whether the list ends in modifiers without a declaration. -/
structure Reading where
  items : List Item := []
  errors : Nat := 0
  unfinished : Bool := false

/-- The members among items. -/
def Reading.members (r : Reading) : List Declaration :=
  r.items.filterMap fun
    | .member d => some d
    | _ => none

/-- Reads an item of a type that is no type itself, without its strays and from
the trees behind its modifiers: the member that it is, if it is one, and the
number of errors. -/
def readPlainItem (source : Text) (depth : Nat) (kind : TypeKind) (modifiers : Modifiers)
    (span : Span) (doc : Option Span) (clean behind : List Tree) : List Item × Nat :=
  match clean with
  | [_] => ([], 0)
  | _ =>
    match readPlainMember source depth kind modifiers span doc behind with
    | .declaration d => ([.member d], 0)
    | .passedOver => ([], 0)
    | .malformed => ([], 1)

/-- Reads the items of a type of some kind, or of a file when there is none.
`inRun` says that a syntax error came last; errors directly behind one another
count once. The number bounds the items and their nesting. A declaration is read
from the source up to its end. -/
def readItems (source : Text) : Nat → (within : Option TypeKind) → (inRun : Bool) → List Tree →
    Reading
  | 0, _, _, _ => {}
  | _, _, _, [] => {}
  | n + 1, within, inRun, t :: trees =>
    if t.isStray then
      let r := readItems source n within true trees
      { r with errors := (if inRun then 0 else 1) + r.errors }
    else
      let (item, finished, rest) := takeItem (within == some .annotationType) false (t :: trees)
      if !finished then { errors := if inRun then 0 else 1, unfinished := true }
      else
        let clean := item.filter (!·.isStray)
        let first := t.first
        let last := (clean.getLast?.map Tree.last).getD first
        let span := Span.between first last
        let read := source.take last.stop
        let depth := Tree.sizes item + 1
        let (modifiers, behind) := readModifiers read depth clean
        match typeHeader? behind, clean.getLast? with
        | some (kind, name), some (.group left inner right) =>
          let body := if kind == .enumType then behindConstants inner else inner
          let r := readItems source n (some kind) false body
          let errors := Tree.strayRuns inRun (item.filter (!·.isBlock)) + r.errors +
            (if kind == .enumType then Tree.strayRuns false (constants inner) else 0)
          let decl := TypeDecl.mk name kind modifiers r.members span (Span.between left right)
            first.doc
          let more := readItems source n within r.unfinished rest
          { items := .member (.nested decl) :: more.items, errors := errors + more.errors,
            unfinished := more.unfinished }
        | _, _ =>
          let strays := Tree.strayRuns inRun item
          let more := readItems source n within false rest
          let (items, malformed) : List Item × Nat :=
            match within with
            | some kind =>
              readPlainItem read depth kind modifiers span first.doc clean behind
            | none =>
              match behind with
              | .leaf w :: .leaf name :: path =>
                if w.isWord "package" then
                  ([.package (spelled source name (dottedTail name path).1) span], 0)
                else if w.isWord "import" then
                  ([.importOf (importOf (span.text source) span)], 0)
                else ([], 0)
              | _ => ([], 0)
          { items := items ++ more.items, errors := strays + malformed + more.errors,
            unfinished := more.unfinished }

/-- Adds an item to a compilation unit. -/
def CompilationUnit.add (u : CompilationUnit) : Item → CompilationUnit
  | .package name span => { u with package := some name, packageSpan := some span }
  | .importOf i => { u with imports := u.imports ++ [i] }
  | .member (.nested t) => { u with types := u.types ++ [t] }
  | .member _ => u

/-- Reads a source file. -/
def CompilationUnit.read (source : Text) : CompilationUnit :=
  let tokens := tokens source
  let r := readItems source (tokens.length + 1) none false (Tree.ofTokens tokens)
  r.items.foldl CompilationUnit.add { syntaxErrors := r.errors }

end Graft.Java
