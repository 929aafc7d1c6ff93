import Graft.Command.Run

/-!
# Listings

A place written down as text, one thing a line, its parts set off by tabs:
`here` and the folder that a command is run in, `variable` with a name and a
value, `file` with a path and a text, `bytes` with the path of a file that
holds no text, and `folder` with the path of an empty folder. In a text, `\n`
stands for the end of a line, `\t` for a tab, `\r` for a carriage return and
`\\` for a backslash.
-/

namespace Graft.Command.Listing

/-- The text that a part of a line stands for. -/
def decode : Text → Text
  | '\\' :: 'n' :: rest => '\n' :: decode rest
  | '\\' :: 't' :: rest => '\t' :: decode rest
  | '\\' :: 'r' :: rest => '\r' :: decode rest
  | '\\' :: c :: rest => c :: decode rest
  | c :: rest => c :: decode rest
  | [] => []

/-- A character as it stands in a listing. -/
def encodeChar (c : Char) : Text :=
  if c = '\n' then ['\\', 'n']
  else if c = '\t' then ['\\', 't']
  else if c = '\r' then ['\\', 'r']
  else if c = '\\' then ['\\', '\\']
  else [c]

/-- A text as it stands in a listing. -/
def encode (t : Text) : Text := t.flatMap encodeChar

theorem decode_encodeChar_append (c : Char) (rest : Text) :
    decode (encodeChar c ++ rest) = c :: decode rest := by
  unfold encodeChar
  split
  · next h => simp [h, decode]
  · split
    · next h => simp [h, decode]
    · split
      · next h => simp [h, decode]
      · split
        · next h => simp [h, decode]
        · next h => simp [decode, h]

theorem decode_encode (t : Text) : decode (encode t) = t := by
  induction t with
  | nil => rfl
  | cons c rest ih =>
    have : encode (c :: rest) = encodeChar c ++ encode rest := rfl
    rw [this, decode_encodeChar_append, ih]

/-- A place with what a line says. Lines that say nothing are passed over. -/
def addLine (p : Place) (line : Text) : Place :=
  match (Text.splitOn '\t' line).map decode with
  | [kind, name] =>
    if kind = "here" then
      let names := (Text.splitOn '/' name).filter fun n => !n.isEmpty
      { p with disk := { root := p.disk.root.put names (.folder []), here := names } }
    else if kind = "folder" then { p with disk := p.disk.put name (.folder []) }
    else if kind = "bytes" then { p with disk := p.disk.put name (.file none) }
    else p
  | [kind, name, content] =>
    if kind = "variable" then { p with environment := p.environment ++ [(name, content)] }
    else if kind = "file" then { p with disk := p.disk.put name (.file (some content)) }
    else p
  | _ => p

/-- A place with nothing in it. -/
def nowhere : Place := { disk := { root := .folder [] }, environment := [] }

/-- The place that a listing writes down. -/
def read (t : Text) : Place := (Text.lines t).foldl addLine nowhere

end Graft.Command.Listing
