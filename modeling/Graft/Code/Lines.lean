import Graft.Text.Class

/-!
# Lines around a piece of text

A declaration that is removed takes the lines that it has for itself with it,
and the blank line above them.
-/

namespace Graft.Code

/-- The position where the line of a position starts. -/
def lineStart (source : Text) (position : Nat) : Nat :=
  position - (Text.lastLine (source.take position)).length

/-- The range between two positions, widened at either end over blanks to
the end of the line when nothing else stands there; at the far end the line
break is included. -/
def wholeLines (source : Text) (start stop : Nat) : Nat × Nat :=
  let before := Text.lastLine (source.take start)
  let after := Text.firstLine (source.drop stop)
  (if Text.isBlank before then start - before.length else start,
    if Text.isBlank after then stop + after.length else stop)

/-- The start of the line directly above a position at the start of a line, if
that line is blank. -/
def blankLineBefore? (source : Text) (position : Nat) : Option Nat :=
  if source.length < position then none
  else match (source.take position).reverse with
    | '\n' :: above =>
      let line := above.takeWhile (· != '\n')
      if Text.isBlank line then some (position - 1 - line.length) else none
    | _ => none

end Graft.Code
