import Graft.Text.Class

/-!
# Reading Java text character by character

Everything that looks at code without parsing it has to know where comments and
literals begin and end. `Mode` says where a reader stands between two
characters: in code, behind a slash that may open a comment, in a comment, or in
a literal. `Mode.next` moves it over one character, and `Mode.emit` gives the
characters that are known to be significant once it has moved.
-/

namespace Graft.Code

/-- Where a reader of Java text stands between two characters. -/
inductive Mode where
  /-- Outside comments and literals. -/
  | code
  /-- Behind a slash that was read as code and may still open a comment. -/
  | slash
  /-- In a comment that ends with the line. -/
  | lineComment
  /-- In a block comment; `star` says that the last character was a star that
  may close it. -/
  | blockComment (star : Bool)
  /-- In a string or character literal; `escaped` says that a
  backslash came last. -/
  | literal (quote : Char) (escaped : Bool)
  deriving DecidableEq, Repr

namespace Mode

/-- The mode after a character read as code. -/
def nextOfCode (c : Char) : Mode :=
  if c = '"' ∨ c = '\'' then .literal c false
  else if c = '/' then .slash
  else .code

/-- The significant text of a character read as code; a slash is held back until
it is known not to open a comment. -/
def emitOfCode (c : Char) : Text :=
  if c = '/' then [] else if Char.isBlank c then [] else [c]

/-- The mode after one more character. -/
def next : Mode → Char → Mode
  | .code, c => nextOfCode c
  | .slash, c =>
    if c = '/' then .lineComment
    else if c = '*' then .blockComment false
    else nextOfCode c
  | .lineComment, c => if c = '\n' then .code else .lineComment
  | .blockComment star, c => if star ∧ c = '/' then .code else .blockComment (c = '*')
  | .literal quote escaped, c =>
    if escaped then .literal quote false
    else if c = '\\' then .literal quote true
    else if c = quote then .code
    else .literal quote false

/-- The significant text that one more character settles. -/
def emit : Mode → Char → Text
  | .code, c => emitOfCode c
  | .slash, c => if c = '/' ∨ c = '*' then [] else '/' :: emitOfCode c
  | .lineComment, _ => []
  | .blockComment _, _ => []
  | .literal _ _, c => [c]

/-- The significant text still held back when the text ends. -/
def close : Mode → Text
  | .slash => ['/']
  | _ => []

/-- The mode after a whole text. -/
def after (m : Mode) (t : Text) : Mode := t.foldl next m

/-- The significant text of `t` read from mode `m`. -/
def significant : Mode → Text → Text
  | m, [] => m.close
  | m, c :: rest => m.emit c ++ significant (m.next c) rest

@[simp] theorem after_nil (m : Mode) : m.after [] = m := rfl

@[simp] theorem after_cons (m : Mode) (c : Char) (t : Text) :
    m.after (c :: t) = (m.next c).after t := rfl

@[simp] theorem after_append (m : Mode) (s t : Text) : m.after (s ++ t) = (m.after s).after t :=
  List.foldl_append

end Mode

end Graft.Code
