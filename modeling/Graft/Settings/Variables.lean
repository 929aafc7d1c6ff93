import Graft.Settings.Entry
import Graft.Text.Class

/-!
# Settings in variables

Settings can be given as variables of the environment. The name of such a
variable starts with a prefix, and two underscores or a dot part the names of
the tables that it leads through. Its value is a truth value, a number, a list,
a table or a text in quotes; what reads as none of these is a text as it stands.
-/

namespace Graft.Variables

/-- A variable: its name and its value. -/
abbrev Variable := Text × Text

/-! ## Values -/

/-- Whether a character ends a value without quotes. -/
def isSeparator (c : Char) : Bool :=
  c == ',' || c == '[' || c == ']' || c == '\x7b' || c == '\x7d'

/-- Whether a character may stand around a value. Blanks outside ASCII
belong to the value. -/
def isSpace (c : Char) : Bool := c.isWhitespace || c == '\x0c'

/-- A text without the spaces that it starts with. -/
def skipSpaces (t : Text) : Text := t.dropWhile isSpace

/-- Whether a character may stand in the name of a field. -/
def inFieldName (c : Char) : Bool := c.isAlphanum || c == '_' || c == '-'

/-- The number that decimal digits write, with a sign in front if need be. -/
def integerOf? (t : Text) : Option Int :=
  let (negative, digits) := Decimal.readSign t
  if digits.isEmpty || !digits.all Char.isDigit then none
  else
    let n := Decimal.natOfDigits digits
    some (if negative then -(n : Int) else n)

/-- A value without quotes: a number if it is one and fits 64 bits,
and else a text. -/
def plainEntry (t : Text) : Entry :=
  match if t.elem '.' then Decimal.ofText? t else none with
  | some d => .decimal .environment d.plainDouble
  | none =>
    match integerOf? t with
    | some n =>
      if t.head? != some '-' && n < (UInt64.size : Int) then .natural .environment n.toNat
      else if Int64.minValue.toInt ≤ n && n ≤ Int64.maxValue.toInt then
        .integer .environment n
      else .text .environment t
    | none => .text .environment t

mutual

/-- Reads a value nested no deeper than the given number, and gives the rest. -/
def value? : Nat → Text → Option (Entry × Text)
  | 0, _ => none
  | fuel + 1, t =>
    let t := skipSpaces t
    match t with
    | '\x7b' :: rest =>
      (fields? fuel [] rest).map fun (fs, rest) => (.table .environment fs, skipSpaces rest)
    | '[' :: rest =>
      (items? fuel rest).map fun (es, rest) => (.list .environment es, skipSpaces rest)
    | '"' :: rest =>
      (Toml.basicString? rest).map fun (s, rest) => (.text .environment s, skipSpaces rest)
    | '\'' :: c :: '\'' :: rest => some (.text .environment [c], skipSpaces rest)
    | '\'' :: _ => none
    | _ =>
      match Text.afterHead? "true" t with
      | some rest => some (.boolean .environment true, skipSpaces rest)
      | none =>
        match Text.afterHead? "false" t with
        | some rest => some (.boolean .environment false, skipSpaces rest)
        | none =>
          let word := t.takeWhile fun c => !isSeparator c
          some (plainEntry (Text.trim word), t.drop word.length)

/-- Reads the items of a list and its closing bracket, and gives the rest.
Spaces before the bracket are an item: the empty text. -/
def items? : Nat → Text → Option (List Entry × Text)
  | 0, _ => none
  | fuel + 1, t =>
    match t with
    | ']' :: rest => some ([], rest)
    | _ => do
      let (e, rest) ← value? fuel t
      match rest with
      | ',' :: rest =>
        let (es, rest) ← items? fuel rest
        pure (e :: es, rest)
      | ']' :: rest => pure ([e], rest)
      | _ => none

/-- Reads the fields of a table and its closing brace, and gives the rest. -/
def fields? : Nat → List (Text × Entry) → Text → Option (List (Text × Entry) × Text)
  | 0, _, _ => none
  | fuel + 1, done, t =>
    match t with
    | '\x7d' :: rest => some (done, rest)
    | _ => do
      let (name, rest) ← fieldName? (skipSpaces t)
      match skipSpaces rest with
      | '=' :: rest =>
        let (e, rest) ← value? fuel rest
        let done := Entry.put name e done
        match rest with
        | ',' :: rest => fields? fuel done rest
        | '\x7d' :: rest => pure (done, rest)
        | _ => none
      | _ => none
where
  /-- Reads the name of a field, and gives the rest. -/
  fieldName? (t : Text) : Option (Text × Text) :=
    match t with
    | '"' :: rest => Toml.basicString? rest
    | _ =>
      let name := t.takeWhile inFieldName
      if name.isEmpty then none else some (name, t.drop name.length)

end

/-- The entry that the value of a variable stands for. -/
def entryOf (value : Text) : Entry :=
  match value? (value.length + 1) value with
  | some (e, []) => e
  | _ => .text .environment value

/-! ## Names -/

/-- The parts of a name between two underscores or dots. -/
def segments : Text → List Text
  | [] => [[]]
  | '_' :: '_' :: rest => [] :: segments rest
  | '.' :: rest => [] :: segments rest
  | c :: rest =>
    match segments rest with
    | [] => [[c]]
    | piece :: pieces => (c :: piece) :: pieces

/-- An entry inside the tables that a path leads through; the path ends
with an empty part. -/
def nest (e : Entry) : List Text → Entry
  | [] => e
  | [] :: _ => e
  | name :: path => .table .environment [(name, nest e path)]

/-- What is left of a name behind a prefix; the case of letters
does not matter. -/
def afterPrefix? (start name : Text) : Option Text :=
  if (name.take start.length).map Char.toLower = start.map Char.toLower then
    some (name.drop start.length)
  else none

/-- The table that a variable stands for, if its name starts with the prefix. -/
def tableOf? (start : Text) (v : Variable) : Option Entry := do
  let rest ← afterPrefix? start v.1
  match nest (entryOf v.2) (segments (rest.map Char.toLower)) with
  | .table o fields => if rest.isEmpty then none else some (.table o fields)
  | _ => none

/-- The table that variables stand for together, the later ones laid over the
earlier ones. -/
def tableOf (start : Text) (vs : List Variable) : Entry :=
  (vs.filterMap (tableOf? start)).foldl Entry.overlay (.table .environment [])

end Graft.Variables
