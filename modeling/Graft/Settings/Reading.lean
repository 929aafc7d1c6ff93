import Graft.Settings.Basic
import Graft.Settings.Entry

/-!
# Reading settings

What raw settings mean. A setting that is not given keeps its default; one of
another kind, or with a value that does not fit, is an error that says where it
stands and where it comes from. The fields of a table are read in the order of
their names, and unknown ones are passed over. A list in place of a table gives
the fields in the order in which they are declared.
-/

namespace Graft

/-- A raw setting that cannot be used: where it stands, what is wrong with it,
and where it comes from. -/
structure EntryError where
  path : List Text
  reason : Text
  origin : Origin
  deriving DecidableEq, Repr

namespace EntryError

/-- An error inside a field. -/
def under (name : Text) (e : EntryError) : EntryError := { e with path := name :: e.path }

/-- The path of the setting as one text. -/
def key (e : EntryError) : Text := Text.join ['.'] e.path

end EntryError

namespace Entry

/-- How a character stands in a quoted text of a message. -/
def escape (c : Char) : Text :=
  if c = '"' then ['\\', '"']
  else if c = '\\' then ['\\', '\\']
  else if c = '\n' then ['\\', 'n']
  else if c = '\r' then ['\\', 'r']
  else if c = '\t' then ['\\', 't']
  else if c = '\x00' then ['\\', '0']
  else if c.toNat < 0x20 ∨ c.toNat = 0x7f then
    ['\\', 'u', '\x7b'] ++ Nat.toDigits 16 c.toNat ++ ['\x7d']
  else [c]

/-- A text in quotes, as it stands in messages. -/
def quoted (t : Text) : Text := '"' :: t.flatMap escape ++ ['"']

/-- An entry as it stands in messages. -/
def found : Entry → Text
  | .text _ t => "string " ++ quoted t
  | .boolean _ b => if b then "bool true" else "bool false"
  | .integer _ n => "signed int `" ++ Text.ofInt n ++ "`"
  | .natural _ n => "unsigned int `" ++ Text.ofNat n ++ "`"
  | .decimal _ shown => "float `" ++ shown ++ "`"
  | .list _ _ => "sequence"
  | .table _ _ => "map"

/-- The error for an entry of another kind than the one wanted. -/
def mismatch {α : Type} (e : Entry) (wanted : Text) : Except EntryError α :=
  .error ⟨[], "invalid type: found " ++ e.found ++ ", expected " ++ wanted, e.origin⟩

/-- The error for an entry with a value that does not fit. -/
def unfit {α : Type} (e : Entry) (wanted : Text) : Except EntryError α :=
  .error ⟨[], "invalid value " ++ e.found ++ ", expected " ++ wanted, e.origin⟩

/-- A natural number of so many bits. -/
def readNat (bits : Nat) (e : Entry) : Except EntryError Nat :=
  let wanted : Text := 'u' :: Text.ofNat bits
  match e with
  | .integer _ n => if 0 ≤ n ∧ n.toNat < Nat.pow 2 bits then .ok n.toNat else e.unfit wanted
  | .natural _ n => if n < Nat.pow 2 bits then .ok n else e.unfit wanted
  | _ => e.mismatch wanted

/-- A text. -/
def readText : Entry → Except EntryError Text
  | .text _ t => .ok t
  | e => e.mismatch "a string"

/-- A truth value. -/
def readBoolean : Entry → Except EntryError Bool
  | .boolean _ b => .ok b
  | e => e.mismatch "a boolean"

/-- Texts at positions of a list, the first of them at the one given. -/
def readTextsFrom (position : Nat) : List Entry → Except EntryError (List Text)
  | [] => .ok []
  | e :: rest => do
    let t ← e.readText.mapError (EntryError.under (Text.ofNat position))
    let ts ← readTextsFrom (position + 1) rest
    pure (t :: ts)

/-- A list of texts. -/
def readTexts : Entry → Except EntryError (List Text)
  | .list _ items => readTextsFrom 0 items
  | e => e.mismatch "a sequence"

/-- The character for indentation, by its name. -/
def indentCharOf (o : Origin) (name : Text) : Except EntryError Code.IndentChar :=
  if name = "space" then .ok .space
  else if name = "tab" then .ok .tab
  else .error ⟨[], "unknown variant: found `" ++ name ++ "`, expected ``space` or `tab``", o⟩

/-- The character for indentation, by its name or its number. -/
def readIndentChar (e : Entry) : Except EntryError Code.IndentChar :=
  match e with
  | .text o name => indentCharOf o name
  | .integer o n =>
    if 0 ≤ n ∧ n.toNat < UInt32.size then byNumber o n.toNat else e.mismatch "enum IndentChar"
  | .natural o n => if n < UInt32.size then byNumber o n else e.mismatch "enum IndentChar"
  | .table o ((name, inner) :: _) => do
    let _ ← indentCharOf o name
    inner.mismatch "unit"
  | .table _ [] => e.mismatch "enum"
  | _ => e.mismatch "enum IndentChar"
where
  /-- The character of a number. -/
  byNumber (o : Origin) (n : Nat) : Except EntryError Code.IndentChar :=
    match n with
    | 0 => .ok .space
    | 1 => .ok .tab
    | _ => (Entry.natural o n).unfit "variant index 0 <= i < 2"

/-- Reads fields one by one into a value. -/
def readFields {α : Type} (read : α → Text → Entry → Except EntryError α) (start : α) :
    List (Text × Text × Entry) → Except EntryError α
  | [] => .ok start
  | (label, name, e) :: rest => do
    let next ← (read start name e).mapError (EntryError.under label)
    readFields read next rest

/-- Items of a list as fields with the names given, labelled by their positions
from the one given. -/
def labelled (position : Nat) : List Text → List Entry → List (Text × Text × Entry)
  | name :: names, e :: es => (Text.ofNat position, name, e) :: labelled (position + 1) names es
  | _, _ => []

/-- Reads a table, or a list of its fields in the order given. -/
def readRecord {α : Type} (wanted : Text) (names : List Text)
    (read : α → Text → Entry → Except EntryError α) (start : α) : Entry → Except EntryError α
  | .table _ fields => readFields read start (fields.map fun (name, e) => (name, name, e))
  | .list _ items => readFields read start (labelled 0 names items)
  | e => e.mismatch wanted

end Entry

open Entry

/-- Reads a field of the settings for reading sources. -/
def ReaderSettings.readField (s : ReaderSettings) (name : Text) (e : Entry) :
    Except EntryError ReaderSettings :=
  if name = "tolerate_syntax_errors" then
    e.readBoolean.map fun b => { s with toleratesSyntaxErrors := b }
  else if name = "default_schema" then e.readText.map fun t => { s with defaultSchema := t }
  else .ok s

/-- Reads a field of a style. -/
def Code.Style.readField (s : Code.Style) (name : Text) (e : Entry) :
    Except EntryError Code.Style :=
  if name = "indent_char" then e.readIndentChar.map fun c => { s with indentChar := c }
  else if name = "indent_size" then (e.readNat 8).map fun n => { s with indentSize := n }
  else if name = "line_width" then (e.readNat 16).map fun n => { s with lineWidth := n }
  else .ok s

/-- Reads a field of the settings for annotations. -/
def AnnotationSettings.readField (s : AnnotationSettings) (name : Text) (e : Entry) :
    Except EntryError AnnotationSettings :=
  if name = "package" then e.readText.map fun t => { s with package := t }
  else if name = "relation_package" then e.readText.map fun t => { s with relationPackage := t }
  else if name = "extra_not_null" then e.readTexts.map fun ts => { s with extraNotNull := ts }
  else .ok s

namespace Settings

/-- Reads a table of settings. -/
def readField (s : Settings) (name : Text) (e : Entry) : Except EntryError Settings :=
  if name = "parser" then
    (e.readRecord "struct ParserConfig" ["tolerate_syntax_errors".toList, "default_schema".toList]
      ReaderSettings.readField s.reader).map fun r => { s with reader := r }
  else if name = "format" then
    (e.readRecord "struct FormatterConfig"
      ["indent_char".toList, "indent_size".toList, "line_width".toList]
      Code.Style.readField s.style).map fun r => { s with style := r }
  else if name = "annotations" then
    (e.readRecord "struct AnnotationConfig"
      ["package".toList, "relation_package".toList, "extra_not_null".toList]
      AnnotationSettings.readField s.annotations).map fun r => { s with annotations := r }
  else .ok s

/-- The settings that raw settings mean. -/
def ofEntry (e : Entry) : Except EntryError Settings :=
  e.readRecord "struct EntigenConfig" ["parser".toList, "format".toList, "annotations".toList]
    readField {}

end Settings

end Graft
