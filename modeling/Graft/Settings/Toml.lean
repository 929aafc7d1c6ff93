import Graft.Output.Decimal
import Graft.Text.Class

/-!
# TOML documents

A reader for the format that settings files are written in. `Toml.read?` gives
the fields of a document, or nothing for a text that is no TOML document: one
that does not follow the grammar, or that defines a key or a table twice.
-/

namespace Graft

/-- How a table came to be, which decides on what may still be added to it. -/
inductive TableForm where
  /-- By a header of its own. -/
  | header
  /-- As a part of the header of another table. -/
  | implied
  /-- By dotted keys. -/
  | dotted
  /-- As a value, between braces. -/
  | inline
  deriving DecidableEq, Repr

/-- A value of a TOML document. -/
inductive Toml where
  | text (t : Text)
  | integer (n : Int)
  /-- A floating-point number, in positional form. -/
  | decimal (shown : Text)
  | boolean (b : Bool)
  /-- A date, a time or both, as written. -/
  | moment (t : Text)
  | list (items : List Toml)
  | table (form : TableForm) (fields : List (Text × Toml))
  /-- Tables under one header in double brackets. -/
  | tables (items : List (List (Text × Toml)))
  deriving Inhabited

namespace Toml

/-- The fields of a table, in the order in which they were defined. -/
abbrev Fields := List (Text × Toml)

/-! ## Blanks, comments and ends of lines -/

/-- A blank within a line. -/
def isSpace (c : Char) : Bool := c == ' ' || c == '\t'

/-- The text from its first character that is no blank. -/
def skipSpaces (t : Text) : Text := t.dropWhile isSpace

/-- Whether a character may stand in a string or a comment as it is. -/
def isPlain (c : Char) : Bool := (0x20 ≤ c.toNat && c.toNat != 0x7f) || c == '\t'

/-- The text without the blanks, line breaks and comments at its front. -/
def skipFiller : (inComment : Bool) → Text → Text
  | _, [] => []
  | _, '\n' :: rest => skipFiller false rest
  | _, '\r' :: '\n' :: rest => skipFiller false rest
  | true, c :: rest => if isPlain c then skipFiller true rest else c :: rest
  | false, c :: rest =>
    if isSpace c then skipFiller false rest
    else if c == '#' then skipFiller true rest
    else c :: rest

/-- The text behind a line break or the end of the text. -/
def afterBreak? : Text → Option Text
  | [] => some []
  | '\n' :: rest => some rest
  | '\r' :: '\n' :: rest => some rest
  | _ => none

/-- The text behind the end of a line that has nothing left but
blanks and a comment. -/
def afterLine? (t : Text) : Option Text :=
  match skipSpaces t with
  | '#' :: rest => afterBreak? (rest.dropWhile isPlain)
  | rest => afterBreak? rest

/-! ## Strings -/

/-- The character that a backslash and a letter stand for. -/
def simpleEscape? (c : Char) : Option Char :=
  if c = 'b' then some '\x08'
  else if c = 't' then some '\t'
  else if c = 'n' then some '\n'
  else if c = 'f' then some '\x0c'
  else if c = 'r' then some '\r'
  else if c = '"' then some '"'
  else if c = '\\' then some '\\'
  else none

/-- The value of a digit in base 16. -/
def hexValue? (c : Char) : Option Nat :=
  if c.isDigit then some (c.toNat - '0'.toNat)
  else if 'a' ≤ c ∧ c ≤ 'f' then some (c.toNat - 'a'.toNat + 10)
  else if 'A' ≤ c ∧ c ≤ 'F' then some (c.toNat - 'A'.toNat + 10)
  else none

/-- The character with a code in base 16, unless it is a
surrogate or too great. -/
def charOfHex? (digits : Text) : Option Char := do
  let values ← digits.mapM hexValue?
  let n := values.foldl (fun n d => n * 16 + d) 0
  if n < 0xD800 ∨ (0xE000 ≤ n ∧ n < 0x110000) then some (Char.ofNat n) else none

/-- A character in front of what was read of a string. -/
def prepend (c : Char) (r : Option (Text × Text)) : Option (Text × Text) :=
  r.map fun (t, rest) => (c :: t, rest)

/-- The character in front, if there is one, of what was read of a string. -/
def prepend? (c : Option Char) (r : Option (Text × Text)) : Option (Text × Text) :=
  c.bind fun c => prepend c r

/-- Reads a string behind its opening quote, and gives the rest. -/
def basicString? : Text → Option (Text × Text)
  | [] => none
  | '"' :: rest => some ([], rest)
  | '\\' :: 'u' :: a :: b :: c :: d :: rest =>
    prepend? (charOfHex? [a, b, c, d]) (basicString? rest)
  | '\\' :: 'U' :: a :: b :: c :: d :: e :: f :: g :: h :: rest =>
    prepend? (charOfHex? [a, b, c, d, e, f, g, h]) (basicString? rest)
  | '\\' :: c :: rest => prepend? (simpleEscape? c) (basicString? rest)
  | c :: rest => if isPlain c then prepend c (basicString? rest) else none

/-- Reads a string in single quotes behind its opening quote, and
gives the rest. -/
def literalString? : Text → Option (Text × Text)
  | [] => none
  | '\'' :: rest => some ([], rest)
  | c :: rest => if isPlain c then prepend c (literalString? rest) else none

/-- Whether a line ends here, but for blanks. -/
def endsLine (t : Text) : Bool :=
  match skipSpaces t with
  | '\n' :: _ => true
  | '\r' :: '\n' :: _ => true
  | _ => false

/-- Reads a string of several lines behind its opening quotes, and gives the
rest. Behind a backslash at the end of a line, `trimming` holds up to the next
character that is no blank. -/
def basicBlock? (trimming : Bool) : Text → Option (Text × Text)
  | [] => none
  | '"' :: '"' :: '"' :: '"' :: '"' :: rest => some (['"', '"'], rest)
  | '"' :: '"' :: '"' :: '"' :: rest => some (['"'], rest)
  | '"' :: '"' :: '"' :: rest => some ([], rest)
  | '\\' :: 'u' :: a :: b :: c :: d :: rest =>
    prepend? (charOfHex? [a, b, c, d]) (basicBlock? false rest)
  | '\\' :: 'U' :: a :: b :: c :: d :: e :: f :: g :: h :: rest =>
    prepend? (charOfHex? [a, b, c, d, e, f, g, h]) (basicBlock? false rest)
  | '\\' :: c :: rest =>
    if endsLine (c :: rest) then basicBlock? true rest
    else prepend? (simpleEscape? c) (basicBlock? false rest)
  | '\r' :: '\n' :: rest =>
    if trimming then basicBlock? true rest else prepend '\n' (basicBlock? false rest)
  | c :: rest =>
    if trimming && (isSpace c || c == '\n') then basicBlock? true rest
    else if isPlain c || c == '\n' then prepend c (basicBlock? false rest)
    else none

/-- Reads a string of several lines in single quotes behind its opening quotes,
and gives the rest. -/
def literalBlock? : Text → Option (Text × Text)
  | [] => none
  | '\'' :: '\'' :: '\'' :: '\'' :: '\'' :: rest => some (['\'', '\''], rest)
  | '\'' :: '\'' :: '\'' :: '\'' :: rest => some (['\''], rest)
  | '\'' :: '\'' :: '\'' :: rest => some ([], rest)
  | '\r' :: '\n' :: rest => prepend '\n' (literalBlock? rest)
  | c :: rest => if isPlain c || c == '\n' then prepend c (literalBlock? rest) else none

/-- The text without a line break at its front. -/
def dropBreak : Text → Text
  | '\n' :: rest => rest
  | '\r' :: '\n' :: rest => rest
  | t => t

/-- Reads a string of any kind, and gives the rest. -/
def string? : Text → Option (Text × Text)
  | '"' :: '"' :: '"' :: rest => basicBlock? false (dropBreak rest)
  | '\'' :: '\'' :: '\'' :: rest => literalBlock? (dropBreak rest)
  | '"' :: rest => basicString? rest
  | '\'' :: rest => literalString? rest
  | _ => none

/-! ## Numbers and other plain values -/

/-- The digits of a number with single underscores between them, without
the underscores. -/
def digits? (isDigit : Char → Bool) : Text → Option Text
  | [] => none
  | [c] => if isDigit c then some [c] else none
  | c :: '_' :: rest => if isDigit c then (digits? isDigit rest).map (c :: ·) else none
  | c :: rest => if isDigit c then (digits? isDigit rest).map (c :: ·) else none

/-- The number that digits of a base write. -/
def natOf? (base : Nat) (t : Text) : Option Nat := do
  let ds ← digits? (fun c => (hexValue? c).any (· < base)) t
  pure (ds.foldl (fun n c => n * base + (hexValue? c).getD 0) 0)

/-- An integer, unless it is too great for 64 bits. -/
def bounded? (n : Int) : Option Int :=
  if Int64.minValue.toInt ≤ n ∧ n ≤ Int64.maxValue.toInt then some n else none

/-- The value of decimal digits that do not start with a needless zero. -/
def decimalNat? (t : Text) : Option Nat :=
  match t with
  | '0' :: _ :: _ => none
  | _ => natOf? 10 t

/-- Reads an integer. -/
def integer? (t : Text) : Option Int :=
  match t with
  | '0' :: 'x' :: ds => (natOf? 16 ds).bind fun n => bounded? n
  | '0' :: 'o' :: ds => (natOf? 8 ds).bind fun n => bounded? n
  | '0' :: 'b' :: ds => (natOf? 2 ds).bind fun n => bounded? n
  | _ =>
    let (negative, ds) := Decimal.readSign t
    (decimalNat? ds).bind fun n => bounded? (if negative then -(n : Int) else n)

/-- Whether a text is the part of a floating-point number behind `e`. -/
def isExponent (t : Text) : Bool := (digits? Char.isDigit (Decimal.readSign t).2).isSome

/-- Whether a text is a floating-point number: a fraction, an exponent or both
behind an integer. -/
def isFloat (t : Text) : Bool :=
  let (_, unsigned) := Decimal.readSign t
  let isMark := fun c : Char => c == 'e' || c == 'E'
  let mantissa := unsigned.takeWhile fun c => !isMark c
  let tail := unsigned.drop mantissa.length
  let whole := mantissa.takeWhile (· != '.')
  let fraction := mantissa.drop whole.length
  (decimalNat? whole).isSome &&
    (fraction.isEmpty || (digits? Char.isDigit (fraction.drop 1)).isSome) &&
    (tail.isEmpty || isExponent (tail.drop 1)) && !(fraction.isEmpty && tail.isEmpty)

/-- Reads a floating-point number; nothing when it is positive and too great. -/
def float? (t : Text) : Option Toml := do
  let d ← Decimal.ofText? (t.filter (· != '_'))
  if !d.negative && d.shortest?.isNone then none else pure (.decimal d.plainDouble)

/-- The signs that stand for infinity and for what is not a number, in
positional form. -/
def specialFloat? (t : Text) : Option Text :=
  let (negative, name) := Decimal.readSign t
  if name = "inf" then some (if negative then "-inf" else "inf")
  else if name = "nan" then some "NaN"
  else none

/-- Whether a text is digits and signs in a given pattern, with a zero standing
for any digit. -/
def fits : (pattern : Text) → Text → Bool
  | [], [] => true
  | p :: ps, c :: cs => (if p == '0' then c.isDigit else c == p) && fits ps cs
  | _, _ => false

/-- The number of days of a month. -/
def daysOf (year month : Nat) : Nat :=
  if month = 2 then
    if year % 4 = 0 ∧ (year % 100 ≠ 0 ∨ year % 400 = 0) then 29 else 28
  else if month = 4 ∨ month = 6 ∨ month = 9 ∨ month = 11 then 30
  else 31

/-- The number written in a part of a text. -/
def numberAt (start count : Nat) (t : Text) : Nat := Decimal.natOfDigits ((t.drop start).take count)

/-- Whether a text is a date. -/
def isDate (t : Text) : Bool :=
  let month := numberAt 5 2 t
  let day := numberAt 8 2 t
  fits "0000-00-00" t && 1 ≤ month && month ≤ 12 && 1 ≤ day &&
    day ≤ daysOf (numberAt 0 4 t) month

/-- Whether a text is an hour and a minute. -/
def isMinute (t : Text) : Bool := fits "00:00" t && numberAt 0 2 t ≤ 23 && numberAt 3 2 t ≤ 59

/-- Whether a text is a time of day, with or without a fraction of a second.
Leap seconds count. -/
def isTime (t : Text) : Bool :=
  let fraction := t.drop 8
  isMinute (t.take 5) && fits ":00" ((t.take 8).drop 5) && numberAt 6 2 t ≤ 60 &&
    (fraction.isEmpty ||
      (fraction.head? == some '.' && 1 < fraction.length && (fraction.drop 1).all Char.isDigit))

/-- The time of day at the front of a text, without what says how far it lies
from universal time. -/
def withoutOffset (t : Text) : Text :=
  if t.getLast? == some 'Z' || t.getLast? == some 'z' then t.dropLast
  else
    let (time, tail) := (t.take (t.length - 6), t.drop (t.length - 6))
    match tail with
    | sign :: offset => if (sign == '+' || sign == '-') && isMinute offset then time else t
    | [] => t

/-- Whether a text is a date, a time, or a date and a time with `T` or a blank
between them. -/
def isMoment (t : Text) : Bool :=
  isDate t || isTime t ||
    (isDate (t.take 10) && ((t.drop 10).head?.any fun c => c == 'T' || c == 't' || c == ' ') &&
      isTime (withoutOffset (t.drop 11)))

/-- Whether a character may stand in a plain value. -/
def inPlainValue (c : Char) : Bool :=
  c.isAlphanum || c == '+' || c == '-' || c == '_' || c == '.' || c == ':'

/-- Reads a plain value that is not a date and a time. -/
def plain? (t : Text) : Option Toml :=
  if t = "true" then some (.boolean true)
  else if t = "false" then some (.boolean false)
  else match integer? t with
    | some n => some (.integer n)
    | none =>
      if isFloat t then float? t
      else match specialFloat? t with
        | some shown => some (.decimal shown)
        | none => if isMoment t then some (.moment t) else none

/-- Reads a number, a truth value, a date or a time, and gives the rest. -/
def plainValue? (t : Text) : Option (Toml × Text) :=
  let word := t.takeWhile inPlainValue
  let rest := t.drop word.length
  let both := word ++ rest.take 1 ++ (rest.drop 1).takeWhile inPlainValue
  if isDate word && rest.head? == some ' ' && isMoment both then
    some (.moment both, t.drop both.length)
  else (plain? word).map fun v => (v, rest)

/-! ## Keys -/

/-- Whether a character may stand in a key without quotes. -/
def inBareKey (c : Char) : Bool := c.isAlphanum || c == '_' || c == '-'

/-- Reads one part of a key, and gives the rest. -/
def simpleKey? (t : Text) : Option (Text × Text) :=
  match t with
  | '"' :: rest => basicString? rest
  | '\'' :: rest => literalString? rest
  | _ =>
    let word := t.takeWhile inBareKey
    if word.isEmpty then none else some (word, t.drop word.length)

/-- Reads a key of at most so many parts with dots between them, and
gives the rest. -/
def key? : Nat → Text → Option (List Text × Text)
  | 0, _ => none
  | fuel + 1, t => do
    let (part, rest) ← simpleKey? (skipSpaces t)
    match skipSpaces rest with
    | '.' :: more =>
      let (parts, rest) ← key? fuel more
      pure (part :: parts, rest)
    | rest => pure ([part], rest)

/-! ## Tables -/

/-- Fields with the value of a key replaced. -/
def setField (key : Text) (v : Toml) (fields : Fields) : Fields :=
  fields.map fun (k, old) => if k == key then (k, v) else (k, old)

/-- Changes the table that a path of headers leads to. Tables on the way that
are not there are made; of tables in double brackets, the last one counts. -/
def atPath (f : Fields → Option Fields) : List Text → Fields → Option Fields
  | [], fields => f fields
  | key :: path, fields =>
    match fields.lookup key with
    | none => (atPath f path []).map fun inner => fields ++ [(key, .table .implied inner)]
    | some (.table .inline _) => none
    | some (.table form inner) =>
      (atPath f path inner).map fun inner => setField key (.table form inner) fields
    | some (.tables items) =>
      (atPath f path (items.getLast?.getD [])).map fun inner =>
        setField key (.tables (items.dropLast ++ [inner])) fields
    | some _ => none

/-- Defines a table by its header. -/
def openTable (key : Text) (fields : Fields) : Option Fields :=
  match fields.lookup key with
  | none => some (fields ++ [(key, .table .header [])])
  | some (.table .implied inner) => some (setField key (.table .header inner) fields)
  | some _ => none

/-- Adds a table under a header in double brackets. -/
def addTable (key : Text) (fields : Fields) : Option Fields :=
  match fields.lookup key with
  | none => some (fields ++ [(key, .tables [[]])])
  | some (.tables items) => some (setField key (.tables (items ++ [[]])) fields)
  | some _ => none

/-- Gives a value to a key with the parts `path` in front of its last part. The
tables that dotted keys lead through must have come to be by dotted keys;
`isOpen` says so of the table at hand. -/
def define (last : Text) (v : Toml) : (isOpen : Bool) → List Text → Fields → Option Fields
  | isOpen, [], fields =>
    if !isOpen || (fields.lookup last).isSome then none else some (fields ++ [(last, v)])
  | _, key :: path, fields =>
    match fields.lookup key with
    | none => (define last v true path []).map fun inner => fields ++ [(key, .table .dotted inner)]
    | some (.table .dotted inner) =>
      (define last v true path inner).map fun inner => setField key (.table .dotted inner) fields
    | some (.table .implied inner) =>
      (define last v false path inner).map fun inner => setField key (.table .implied inner) fields
    | some (.tables items) =>
      (define last v false path (items.getLast?.getD [])).map fun inner =>
        setField key (.tables (items.dropLast ++ [inner])) fields
    | some _ => none

/-- Gives a value to a key in a table. -/
def defineKey (key : List Text) (v : Toml) (fields : Fields) : Option Fields :=
  match key.getLast? with
  | some last => define last v true key.dropLast fields
  | none => none

/-! ## Values and documents -/

mutual

/-- Reads a value nested no deeper than the given number, and gives the rest. -/
def value? : Nat → Text → Option (Toml × Text)
  | 0, _ => none
  | fuel + 1, t =>
    match t with
    | '"' :: _ => (string? t).map fun (s, rest) => (.text s, rest)
    | '\'' :: _ => (string? t).map fun (s, rest) => (.text s, rest)
    | '[' :: rest => (items? fuel rest).map fun (items, rest) => (.list items, rest)
    | '\x7b' :: rest =>
      match skipSpaces rest with
      | '\x7d' :: rest => some (.table .inline [], rest)
      | rest => (pairs? fuel [] rest).map fun (fields, rest) => (.table .inline fields, rest)
    | _ => plainValue? t

/-- Reads the items of a list and its closing bracket, and gives the rest. -/
def items? : Nat → Text → Option (List Toml × Text)
  | 0, _ => none
  | fuel + 1, t =>
    match skipFiller false t with
    | ']' :: rest => some ([], rest)
    | t => do
      let (v, rest) ← value? fuel t
      match skipFiller false rest with
      | ',' :: rest =>
        let (vs, rest) ← items? fuel rest
        pure (v :: vs, rest)
      | ']' :: rest => pure ([v], rest)
      | _ => none

/-- Reads the pairs of an inline table and its closing brace, and
gives the rest. -/
def pairs? : Nat → Fields → Text → Option (Fields × Text)
  | 0, _, _ => none
  | fuel + 1, fields, t => do
    let (key, rest) ← key? (t.length + 1) t
    match skipSpaces rest with
    | '=' :: rest =>
      let (v, rest) ← value? fuel (skipSpaces rest)
      let fields ← defineKey key v fields
      match skipSpaces rest with
      | ',' :: rest => pairs? fuel fields rest
      | '\x7d' :: rest => pure (fields, rest)
      | _ => none
    | _ => none

end

/-- Reads a header and its closing brackets, and gives the rest
behind its line. -/
def header? (closing : Text) (t : Text) : Option (List Text × Text) := do
  let (key, rest) ← key? (t.length + 1) t
  let rest ← Text.afterHead? closing (skipSpaces rest)
  let rest ← afterLine? rest
  pure (key, rest)

/-- Reads a key and its value, and gives the rest behind the line. -/
def pair? (t : Text) : Option (List Text × Toml × Text) := do
  let (key, rest) ← key? (t.length + 1) t
  match skipSpaces rest with
  | '=' :: rest =>
    let (v, rest) ← value? (t.length + 1) (skipSpaces rest)
    let rest ← afterLine? rest
    pure (key, v, rest)
  | _ => none

/-- Changes the table that a header names, in the table that holds it. -/
def atHeader (f : Text → Fields → Option Fields) (header : List Text) (root : Fields) :
    Option Fields :=
  match header.getLast? with
  | some last => atPath (f last) header.dropLast root
  | none => none

/-- Reads at most so many lines of a document into what was read before,
under a header. -/
def lines? : Nat → Fields → (header : List Text) → Text → Option Fields
  | 0, _, _, _ => none
  | fuel + 1, root, header, t =>
    match skipFiller false t with
    | [] => some root
    | '[' :: '[' :: rest => do
      let (header, rest) ← header? "]]" rest
      let root ← atHeader addTable header root
      lines? fuel root header rest
    | '[' :: rest => do
      let (header, rest) ← header? "]" rest
      let root ← atHeader openTable header root
      lines? fuel root header rest
    | t => do
      let (key, v, rest) ← pair? t
      let root ← atPath (defineKey key v) header root
      lines? fuel root header rest

/-- The fields of a document. -/
def read? (t : Text) : Option Fields :=
  let t := match t with
    | '\ufeff' :: rest => rest
    | _ => t
  lines? (t.length + 1) [] [] t

end Toml

end Graft
