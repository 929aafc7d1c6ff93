import Graft.Output.Value

/-!
# JSON

Values written as JSON, on one line or indented by two blanks. The fields of a
record keep their order.
-/

namespace Graft.Json

/-- The last digits of a character code, in base 16 with small letters. -/
def hexDigits (width n : Nat) : Text :=
  let digits := Nat.toDigits 16 n
  List.replicate (width - digits.length) '0' ++ digits

/-- How a character stands inside a quoted text: quotes, backslashes and control
characters are escaped, all others stand for themselves. -/
def escape (c : Char) : Text :=
  if c = '"' then ['\\', '"']
  else if c = '\\' then ['\\', '\\']
  else if c = '\n' then ['\\', 'n']
  else if c = '\r' then ['\\', 'r']
  else if c = '\t' then ['\\', 't']
  else if c = '\x08' then ['\\', 'b']
  else if c = '\x0c' then ['\\', 'f']
  else if c.toNat < 0x20 then ['\\', 'u'] ++ hexDigits 4 c.toNat
  else [c]

/-- A text in quotes. -/
def quote (t : Text) : Text := '"' :: t.flatMap escape ++ ['"']

/-- A value without parts; null for one that has parts. -/
def leaf : Value → Text
  | .boolean true => "true"
  | .boolean false => "false"
  | .integer n => Text.ofInt n
  | .decimal d => d.json
  | .text t => quote t
  | _ => "null"

mutual

/-- A value on one line, without blanks between its parts. -/
def compact : Value → Text
  | .list items => '[' :: compactItems items ++ [']']
  | .record fields => '{' :: compactFields fields ++ ['}']
  | v => leaf v

/-- The items of a list with commas between them. -/
def compactItems : List Value → Text
  | [] => []
  | [v] => compact v
  | v :: rest => compact v ++ ',' :: compactItems rest

/-- The fields of a record with commas between them. -/
def compactFields : List (Text × Value) → Text
  | [] => []
  | [(name, v)] => quote name ++ ':' :: compact v
  | (name, v) :: rest => quote name ++ ':' :: compact v ++ ',' :: compactFields rest

end

/-- The indentation of a line at some depth. -/
def indent (depth : Nat) : Text := List.replicate (2 * depth) ' '

mutual

/-- A value over several lines, each part on a line of its own; `depth` is the
depth of the line on which the value starts. -/
def pretty (depth : Nat) : Value → Text
  | .list [] => "[]"
  | .list items => "[\n" ++ prettyItems (depth + 1) items ++ "\n" ++ indent depth ++ "]"
  | .record [] => ['{', '}']
  | .record fields =>
    ['{', '\n'] ++ prettyFields (depth + 1) fields ++ "\n" ++ indent depth ++ ['}']
  | v => leaf v

/-- The items of a list, one a line. -/
def prettyItems (depth : Nat) : List Value → Text
  | [] => []
  | [v] => indent depth ++ pretty depth v
  | v :: rest => indent depth ++ pretty depth v ++ ",\n" ++ prettyItems depth rest

/-- The fields of a record, one a line. -/
def prettyFields (depth : Nat) : List (Text × Value) → Text
  | [] => []
  | [(name, v)] => indent depth ++ quote name ++ ": " ++ pretty depth v
  | (name, v) :: rest =>
    indent depth ++ quote name ++ ": " ++ pretty depth v ++ ",\n" ++ prettyFields depth rest

end

end Graft.Json
