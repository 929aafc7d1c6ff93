import Graft.Output.Decimal
import Graft.Text.Order

/-!
# Document values

The values that a report is made of before it is written down: those of JSON,
with the fields of a record in a fixed order. `Value.sorted` puts the fields of
every record in the order of their names.
-/

namespace Graft

/-- A value of a structured document. -/
inductive Value where
  | null
  | boolean (b : Bool)
  | integer (n : Int)
  | decimal (d : Decimal)
  | text (t : Text)
  | list (items : List Value)
  | record (fields : List (Text × Value))
  deriving Inhabited, Repr

namespace Value

/-- Puts a field into fields that are sorted by name; a field of the same
name is replaced. -/
def putField (name : Text) (value : Value) : List (Text × Value) → List (Text × Value)
  | [] => [(name, value)]
  | (n, v) :: rest =>
    if name == n then (name, value) :: rest
    else if Text.before name n then (name, value) :: (n, v) :: rest
    else (n, v) :: putField name value rest

mutual

/-- The value with the fields of every record sorted by name; of two fields of
one name the later one stays. -/
def sorted : Value → Value
  | .list items => .list (sortedItems items)
  | .record fields => .record (sortedFields [] fields)
  | v => v

/-- `sorted` on every item. -/
def sortedItems : List Value → List Value
  | [] => []
  | v :: rest => sorted v :: sortedItems rest

/-- `sorted` on every field, put one by one into sorted fields. -/
def sortedFields (done : List (Text × Value)) : List (Text × Value) → List (Text × Value)
  | [] => done
  | (name, v) :: rest => sortedFields (putField name (sorted v) done) rest

end

/-- The field of a record. -/
def field? (name : Text) : Value → Option Value
  | .record fields => fields.lookup name
  | _ => none

/-- A text, or null when there is none. -/
def ofText? : Option Text → Value
  | none => .null
  | some t => .text t

/-- A value, or null when there is none. -/
def ofOption {α : Type} (f : α → Value) : Option α → Value
  | none => .null
  | some a => f a

/-- A list of values. -/
def ofList {α : Type} (f : α → Value) (items : List α) : Value := .list (items.map f)

/-- A natural number. -/
def ofNat (n : Nat) : Value := .integer n

end Value

end Graft
