import Graft.Code.Style

/-!
# Layout of generated code

Code is laid out line by line: every line is trimmed and indented by the nesting
depth that the braces before it give. Line breaks are kept as they are. The
braces are read off each line on its own, looking one character ahead; only a
block comment goes on over the end of a line.
-/

namespace Graft.Code

/-- Where a reader of braces stands in a line. -/
inductive BraceReader where
  /-- Outside comments and literals. -/
  | code
  /-- In a block comment. -/
  | comment
  /-- In a string or character literal. -/
  | literal (quote : Char)
  deriving DecidableEq, Repr

/-- What layout reads off a line: how many braces open and close outside
comments and literals, and whether a block comment is open behind the line. -/
structure LineBraces where
  opening : Nat := 0
  closing : Nat := 0
  inComment : Bool := false
  deriving DecidableEq, Repr

/-- One more character read as code. -/
def LineBraces.count (c : Char) (braces : LineBraces) : LineBraces :=
  { braces with
    opening := braces.opening + if c = '\x7b' then 1 else 0
    closing := braces.closing + if c = '\x7d' then 1 else 0 }

/-- Reads the rest of a line. A backslash in a literal takes the next character
with it, and a line comment ends the line. -/
def readBraces : BraceReader → Text → LineBraces
  | .comment, '*' :: '/' :: rest => readBraces .code rest
  | .comment, _ :: rest => readBraces .comment rest
  | .comment, [] => { inComment := true }
  | .literal quote, '\\' :: _ :: rest => readBraces (.literal quote) rest
  | .literal quote, c :: rest =>
    if c = quote then readBraces .code rest else readBraces (.literal quote) rest
  | .literal _, [] => {}
  | .code, '/' :: '/' :: _ => {}
  | .code, '/' :: '*' :: rest => readBraces .comment rest
  | .code, c :: rest =>
    if c = '"' ∨ c = '\'' then readBraces (.literal c) rest else (readBraces .code rest).count c
  | .code, [] => {}

/-- The braces of a whole line, given whether a block comment is
open before it. -/
def LineBraces.ofLine (inComment : Bool) (line : Text) : LineBraces :=
  readBraces (if inComment then .comment else .code) line

/-- Whether a line begins with a closing brace that is read as code. -/
def closesFirst (inComment : Bool) (line : Text) : Bool := !inComment && line.head? == some '\x7d'

/-- What the lines laid out so far leave for the next one: whether a block
comment is open, and how deep it is. -/
structure LayoutState where
  inComment : Bool := false
  level : Nat := 0
  deriving DecidableEq, Repr

/-- Lays out one line. A closing brace in front takes the line itself out
by one level; the lines of a block comment that start with a star are moved
in by one blank. -/
def layoutLine (style : Style) (depth : Nat) (state : LayoutState) (raw : Text) :
    LayoutState × Text :=
  let line := Text.trim raw
  if line.isEmpty then (state, [])
  else
    let braces := LineBraces.ofLine state.inComment line
    let leads := closesFirst state.inComment line
    let level := if leads then state.level - 1 else state.level
    let continuation : Text := if state.inComment && line.head? == some '*' then [' '] else []
    let remaining := braces.closing - (if leads then 1 else 0)
    ({ inComment := braces.inComment, level := level + braces.opening - remaining },
      style.indent (depth + level) ++ continuation ++ line)

/-- Lays out lines one after the other. -/
def layoutLines (style : Style) (depth : Nat) : LayoutState → List Text → List Text
  | _, [] => []
  | state, line :: rest =>
    let (state', out) := layoutLine style depth state line
    out :: layoutLines style depth state' rest

/-- Code laid out so that its outermost lines stand at `depth` levels. -/
def layout (style : Style) (depth : Nat) (code : Text) : Text :=
  Text.join ['\n'] (layoutLines style depth {} (Text.lines (Text.trimChar '\n' code)))

end Graft.Code
