import Graft.Text.Class

/-!
# Indentation style

How generated code is indented, and how the style of an existing
file is recognised.
-/

namespace Graft.Code

/-- The character that indentation is made of. -/
inductive IndentChar where
  | space
  | tab
  deriving DecidableEq, Repr, Inhabited

/-- An indentation style. The size counts blanks per level and does not matter
for tabs; the line width is kept for other tools. -/
structure Style where
  indentChar : IndentChar := .space
  indentSize : Nat := 4
  lineWidth : Nat := 120
  deriving DecidableEq, Repr, Inhabited

namespace Style

/-- One level of indentation. -/
def unit (s : Style) : Text :=
  match s.indentChar with
  | .tab => ['\t']
  | .space => List.replicate s.indentSize ' '

/-- So many levels of indentation. -/
def indent (s : Style) (depth : Nat) : Text := (List.replicate depth s.unit).flatten

/-- What a line of a file says about its style. -/
inductive Evidence where
  /-- Nothing: it is blank, not indented, or the continuation of a comment. -/
  | nothing
  /-- It is indented with tabs. -/
  | tab
  /-- So many blanks stand in front of it. -/
  | blanks (n : Nat)
  deriving DecidableEq, Repr

/-- Reads the evidence of one line. -/
def evidence (line : Text) : Evidence :=
  let content := Text.trimStart line
  let leading := line.take (line.length - content.length)
  if content.isEmpty || content.head? == some '*' then .nothing
  else match leading with
    | [] => .nothing
    | '\t' :: _ => .tab
    | _ =>
      let n := leading.count ' '
      if n = 0 then .nothing else .blanks n

/-- The style that lines show: tabs as soon as a line is indented with
one, otherwise the smallest indentation seen, if it lies between one
and eight blanks. -/
def ofLines (smallest : Option Nat) : List Text → Style
  | [] =>
    match smallest with
    | some n => if 1 ≤ n ∧ n ≤ 8 then { indentSize := n } else {}
    | none => {}
  | line :: rest =>
    match evidence line with
    | .nothing => ofLines smallest rest
    | .tab => { indentChar := .tab, indentSize := 1 }
    | .blanks n => ofLines (some (match smallest with | some m => min m n | none => n)) rest

/-- The style of an existing source; the default style when no
line is indented. -/
def detect (source : Text) : Style := ofLines none (Text.lines source)

end Style

end Graft.Code
