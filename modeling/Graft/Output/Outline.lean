import Graft.Output.Json
import Graft.Text.Class

/-!
# Outlines

The form of a report for people: one `key: value` line per field, nested values
indented by two blanks, items of a list behind a dash. Fields that are null or
empty are left out.
-/

namespace Graft.Outline

/-- The text of a value that stands on the line of its key. -/
def scalar? : Value → Option Text
  | .text t => some t
  | .boolean b => some (Json.leaf (.boolean b))
  | .integer n => some (Json.leaf (.integer n))
  | .decimal d => some (Json.leaf (.decimal d))
  | .null => none
  | .list _ => none
  | .record _ => none

/-- Whether a field with this value is left out. -/
def isEmpty : Value → Bool
  | .null => true
  | .list items => items.isEmpty
  | .record fields => fields.isEmpty
  | _ => false

mutual

/-- The lines of a value at some depth, each with its line break. -/
def write (depth : Nat) : Value → Text
  | .record fields => writeFields depth fields
  | .list items => writeItems depth items
  | v => match scalar? v with
    | some s => Json.indent depth ++ s ++ ['\n']
    | none => []

/-- The lines of the fields of a record. -/
def writeFields (depth : Nat) : List (Text × Value) → Text
  | [] => []
  | (name, v) :: rest =>
    let here : Text :=
      if isEmpty v then []
      else match scalar? v with
        | some s => Json.indent depth ++ name ++ ": " ++ s ++ ['\n']
        | none => Json.indent depth ++ name ++ ":\n" ++ write (depth + 1) v
    here ++ writeFields depth rest

/-- The lines of the items of a list. -/
def writeItems (depth : Nat) : List Value → Text
  | [] => []
  | v :: rest =>
    let here : Text := match scalar? v with
      | some s => Json.indent depth ++ "- " ++ s ++ ['\n']
      | none => Json.indent depth ++ "-\n" ++ write (depth + 1) v
    here ++ writeItems depth rest

end

end Graft.Outline

namespace Graft

/-- The forms a report can be written in. -/
inductive ReportForm where
  | json
  | outline
  | raw
  deriving DecidableEq, Repr

namespace ReportForm

/-- The form of a given name. -/
def ofName? (name : Text) : Option ReportForm :=
  if name = "json" then some .json
  else if name = "text" then some .outline
  else if name = "raw" then some .raw
  else none

/-- A value written in a form: indented JSON, an outline with its fields sorted,
or JSON on one line. -/
def render : ReportForm → Value → Text
  | .json, v => Json.pretty 0 v
  | .raw, v => Json.compact v
  | .outline, v => Text.trimEnd (Outline.write 0 v.sorted)

end ReportForm

end Graft
