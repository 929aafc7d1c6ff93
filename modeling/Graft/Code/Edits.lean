import Graft.Text.Units

/-!
# Edits of one text

Edits are recorded against positions of the text as it was and applied together,
so that no edit moves the positions of another. Insertions at one position keep
the order in which they were made. Edits may touch but not overlap.
-/

namespace Graft.Code

/-- A replacement of the text between two positions; nothing is replaced when
they are equal. -/
structure Edit where
  start : Nat
  stop : Nat
  text : Text
  deriving DecidableEq, Repr

namespace Edit

/-- Whether the edit only inserts. -/
def isInsertion (e : Edit) : Bool := e.start == e.stop

/-- Whether `a` is applied before `b` when `a` was made after it: it starts
earlier, or it is an insertion where `b` replaces. -/
def goesBefore (a b : Edit) : Bool :=
  a.start < b.start || (a.start == b.start && a.isInsertion && !b.isInsertion)

/-- Puts an edit among edits made before it. -/
def place (e : Edit) : List Edit → List Edit
  | [] => [e]
  | f :: rest => if e.goesBefore f then e :: f :: rest else f :: place e rest

/-- Edits in the order in which they are applied: by start, insertions first,
then as made. -/
def arrange (edits : List Edit) : List Edit := edits.foldl (fun done e => place e done) []

end Edit

/-- An edit starts inside text that an edit before it already replaces. -/
structure EditOverlap where
  start : Nat
  stop : Nat
  previousStop : Nat
  deriving DecidableEq, Repr

/-- The wording of an overlap, with offsets as byte offsets in the text. -/
def EditOverlap.message (source : Text) (o : EditOverlap) : Text :=
  let at' (position : Nat) := Text.ofNat (source.byteOffset position)
  "edit at " ++ at' o.start ++ ".." ++ at' o.stop ++ " overlaps an edit ending at " ++
    at' o.previousStop

/-- A text with the edits recorded against it, in the order in which
they were made. -/
structure EditBuffer where
  source : Text
  edits : List Edit := []
  deriving DecidableEq, Repr

namespace EditBuffer

/-- Records an edit. Positions past the end of the text mean its end, and a
start behind the stop means the stop. -/
def push (b : EditBuffer) (start stop : Nat) (text : Text) : EditBuffer :=
  let stop := min stop b.source.length
  { b with edits := b.edits ++ [{ start := min start stop, stop, text }] }

/-- Records an insertion. -/
def insert (b : EditBuffer) (position : Nat) (text : Text) : EditBuffer :=
  b.push position position text

/-- Records a replacement. -/
def replace (b : EditBuffer) (start stop : Nat) (text : Text) : EditBuffer := b.push start stop text

/-- Records a removal. -/
def remove (b : EditBuffer) (start stop : Nat) : EditBuffer := b.push start stop []

/-- Whether nothing was recorded. -/
def isEmpty (b : EditBuffer) : Bool := b.edits.isEmpty

/-- Applies edits that are in order, to what follows the position
`cursor` of the source. -/
def apply (source : Text) (cursor : Nat) : List Edit → Except EditOverlap Text
  | [] => .ok (source.drop cursor)
  | e :: rest =>
    if e.start < cursor then .error ⟨e.start, e.stop, cursor⟩
    else (apply source e.stop rest).map
      (Text.slice source cursor e.start ++ e.text ++ ·)

/-- The text with all its edits applied. -/
def render (b : EditBuffer) : Except EditOverlap Text := apply b.source 0 (Edit.arrange b.edits)

end EditBuffer

end Graft.Code
