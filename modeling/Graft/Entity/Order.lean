import Graft.Text.Class

/-!
# Ordered property lists

Indexes and orderings are written as property names separated by
commas, each followed by `ASC` or `DESC` in any letter case or by
nothing, which means ascending.
-/

namespace Graft.Entity

/-- The direction in which a property is ordered. -/
inductive Direction where
  | ascending
  | descending
  deriving DecidableEq, Repr, Inhabited

/-- The name of a direction in reports. -/
def Direction.name : Direction → Text
  | .ascending => "ascending"
  | .descending => "descending"

/-- A property and the direction in which it is ordered. -/
structure OrderedProperty where
  name : Text
  direction : Direction
  deriving DecidableEq, Repr, Inhabited

/-- Why an ordered property list cannot be read. -/
inductive OrderError where
  | empty
  | emptyEntry (position : Nat)
  | unknownDirection (property word : Text)
  | tooManyWords (entry : Text)
  deriving DecidableEq, Repr

/-- The wording of an order error. -/
def OrderError.message : OrderError → Text
  | .empty => "empty property list"
  | .emptyEntry position => "empty entry at position " ++ Text.ofNat position
  | .unknownDirection property word =>
    "unknown order '" ++ word ++ "' for property '" ++ property ++ "' (expected ASC or DESC)"
  | .tooManyWords entry => "too many tokens in '" ++ entry ++ "'"

/-- The direction that a word stands for; the case of its ASCII letters
does not matter. -/
def Direction.ofWord? (word : Text) : Option Direction :=
  let small := word.map Char.toLower
  if small = "asc" then some .ascending
  else if small = "desc" then some .descending
  else none

/-- Reads one entry of a list. -/
def OrderedProperty.read (position : Nat) (entry : Text) : Except OrderError OrderedProperty :=
  match Text.words entry with
  | [] => .error (.emptyEntry position)
  | [name] => .ok ⟨name, .ascending⟩
  | name :: word :: more =>
    match Direction.ofWord? word with
    | none => .error (.unknownDirection name word)
    | some direction =>
      if more.isEmpty then .ok ⟨name, direction⟩ else .error (.tooManyWords (Text.trim entry))

/-- Reads entries from left to right, the first of them at a position. -/
def readEntries : Nat → List Text → Except OrderError (List OrderedProperty)
  | _, [] => .ok []
  | position, entry :: rest => do
    let property ← OrderedProperty.read position entry
    let properties ← readEntries (position + 1) rest
    pure (property :: properties)

/-- Reads an ordered property list. -/
def readOrder (spec : Text) : Except OrderError (List OrderedProperty) :=
  if Text.isBlank spec then .error .empty else readEntries 0 (Text.splitOn ',' spec)

end Graft.Entity
