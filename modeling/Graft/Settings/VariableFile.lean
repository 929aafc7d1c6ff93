import Graft.Settings.Variables

/-!
# Files of variables

A file may add variables to those of the environment, one a line: a name, an
equals sign and a value. Values may be quoted, quoted ones may go over several
lines, and a dollar sign stands for the value of another variable. Comments
start with a hash. Variables that are there already keep their values, and
nothing is read behind the first line that cannot be read.
-/

namespace Graft.VariableFile

open Variables (Variable)

/-! ## Lines -/

/-- How far a line leads into quotes. -/
inductive Quoting where
  | plain
  /-- Behind a blank outside quotes, where a comment may start. -/
  | blank
  | escape
  | single
  | singleEscape
  | double
  | doubleEscape
  deriving DecidableEq, Repr

/-- The state behind a character; nothing at the start of a comment. -/
def Quoting.next (q : Quoting) (c : Char) : Option Quoting :=
  let opening : Quoting :=
    if c = '\\' then .escape else if c = '"' then .double else if c = '\'' then .single else .plain
  match q with
  | .plain =>
    if Char.isBlank c && c != '\n' && c != '\r' then some .blank else some opening
  | .blank => if c = '#' then none else some opening
  | .escape => some .plain
  | .single =>
    some (if c = '\\' then .singleEscape else if c = '\'' then .plain else .single)
  | .singleEscape => some .single
  | .double => some (if c = '\\' then .doubleEscape else if c = '"' then .plain else .double)
  | .doubleEscape => some .double

/-- The part of a line in front of a comment, and the state at its end if there
is no comment. -/
def scanLine (q : Quoting) : Text → Text × Option Quoting
  | [] => ([], some q)
  | c :: rest =>
    match q.next c with
    | none => ([], none)
    | some q =>
      let (before, state) := scanLine q rest
      (c :: before, state)

/-- Lines put together where quotes go over several of them. Nothing stands for
an end of the file inside quotes. -/
def gather (q : Quoting) (before : Text) : List Text → List (Option Text)
  | [] => if q = .plain then [] else [none]
  | line :: rest =>
    if (Text.trimStart (before ++ line)).head? == some '#' then gather .plain [] rest
    else match scanLine q line with
      | (part, none) => some (before ++ part) :: gather .plain [] rest
      | (part, some .plain) => some (Text.withoutBreak (before ++ part)) :: gather .plain [] rest
      | (part, some q) => gather q (before ++ part) rest

/-! ## Values -/

/-- Whether the name of another variable is being read. -/
inductive Reference where
  | none
  | bare
  | braced
  deriving DecidableEq, Repr

/-- What was read of a value. -/
structure ValueState where
  output : Text := []
  inSingle : Bool := false
  inDouble : Bool := false
  escaped : Bool := false
  /-- Behind the value, where only blanks and a comment may follow. -/
  ended : Bool := false
  inComment : Bool := false
  reference : Reference := .none
  name : Text := []

/-- The value of a variable; empty for one that is not there. -/
def valueOf (vs : List Variable) (name : Text) : Text := (vs.lookup name).getD []

/-- The state with the reference that was read replaced by a value. -/
def ValueState.resolve (vs : List Variable) (s : ValueState) : ValueState :=
  { s with output := s.output ++ valueOf vs s.name, name := [], reference := .none }

/-- The state behind a character of a value, unless the character
cannot stand there. -/
def ValueState.next (vs : List Variable) (s : ValueState) (c : Char) : Option ValueState :=
  if s.inComment then some s
  else if s.ended then
    if c = ' ' ∨ c = '\t' then some s
    else if c = '#' then some { s with inComment := true }
    else none
  else if s.escaped then
    if ['\\', '\'', '"', '$', ' '].contains c then
      some { s with output := s.output ++ [c], escaped := false }
    else if c = 'n' then some { s with output := s.output ++ ['\n'], escaped := false }
    else none
  else if s.inSingle then
    if c = '\'' then some { s with inSingle := false }
    else some { s with output := s.output ++ [c] }
  else match s.reference with
    | .bare =>
      if Char.isLetterOrNumber c then some { s with name := s.name ++ [c] }
      else if c = '\x7b' ∧ s.name = [] then some { s with reference := .braced }
      else
        let s := s.resolve vs
        if c = '$' then some { s with reference := .bare }
        else some { s with output := s.output ++ [c] }
    | .braced =>
      if c = '\x7d' then some (s.resolve vs) else some { s with name := s.name ++ [c] }
    | .none =>
      if c = '$' then some { s with reference := .bare }
      else if s.inDouble then
        if c = '"' then some { s with inDouble := false }
        else if c = '\\' then some { s with escaped := true }
        else some { s with output := s.output ++ [c] }
      else if c = '\'' then some { s with inSingle := true }
      else if c = '"' then some { s with inDouble := true }
      else if c = '\\' then some { s with escaped := true }
      else if c = ' ' ∨ c = '\t' then some { s with ended := true }
      else some { s with output := s.output ++ [c] }

/-- Reads a value. -/
def readValue? (vs : List Variable) (t : Text) : Option Text := do
  let s ← t.foldlM (ValueState.next vs) {}
  if s.reference = .braced || s.inSingle || s.inDouble then none
  else pure (s.resolve vs).output

/-! ## Definitions -/

/-- Reads the name of a variable, and gives the rest. -/
def readName? (t : Text) : Option (Text × Text) :=
  let name := t.takeWhile fun c => c.isAlphanum || c == '_' || c == '.'
  match name with
  | c :: _ => if c.isAlpha || c == '_' then some (name, t.drop name.length) else none
  | [] => none

/-- Reads a name and an equals sign, and gives the rest; the word `export` may
stand in front. -/
def readTarget? (t : Text) : Option (Text × Text) := do
  let (name, rest) ← readName? t
  match Text.trimStart rest with
  | '=' :: rest => pure (name, rest)
  | rest =>
    if name = "export" then
      let (name, rest) ← readName? rest
      match Text.trimStart rest with
      | '=' :: rest => pure (name, rest)
      | _ => none
    else none

/-- Reads a line. The outer option tells whether it can be read, the inner one
whether it defines a variable. -/
def readLine? (vs : List Variable) (line : Text) : Option (Option Variable) :=
  match Text.trimStart (Text.trimEnd line) with
  | [] => some none
  | '#' :: _ => some none
  | t => do
    let (name, rest) ← readTarget? t
    let rest := Text.trimStart rest
    if rest.isEmpty || rest.head? == some '#' then pure (some (name, []))
    else
      let value ← readValue? vs rest
      pure (some (name, value))

/-- Variables with those that lines define, up to the first line that
cannot be read. -/
def addLines (vs : List Variable) : List (Option Text) → List Variable
  | some line :: rest =>
    match readLine? vs line with
    | some (some (name, value)) =>
      addLines (if (vs.lookup name).isSome then vs else vs ++ [(name, value)]) rest
    | some none => addLines vs rest
    | none => vs
  | none :: _ => vs
  | [] => vs

/-- Variables with those that a file defines. -/
def addTo (vs : List Variable) (file : Text) : List Variable :=
  let file := match file with
    | '\ufeff' :: rest => rest
    | _ => file
  addLines vs (gather .plain [] (Text.fullLines file))

end Graft.VariableFile
