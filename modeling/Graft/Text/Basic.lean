/-!
# Text

A text is the list of its characters, so that every law about texts is a law
about lists. This module holds the operations that need no character class:
cutting at a separator, joining, finding one text in another, and taking the
piece between two positions. A position in a text is the number of
characters before it.
-/

namespace Graft

/-- A text, as the list of its characters. -/
abbrev Text := List Char

instance : Coe String Text := ⟨String.toList⟩

namespace Text

/-- The pieces between the characters that satisfy `sep`; there is one more
piece than there are separators. -/
def splitBy (sep : Char → Bool) : Text → List Text
  | [] => [[]]
  | c :: rest =>
    if sep c then [] :: splitBy sep rest
    else match splitBy sep rest with
      | [] => [[c]]
      | piece :: pieces => (c :: piece) :: pieces

/-- The pieces between the occurrences of one character. -/
def splitOn (sep : Char) (t : Text) : List Text := splitBy (· == sep) t

theorem splitBy_ne_nil (sep : Char → Bool) (t : Text) : splitBy sep t ≠ [] := by
  cases t with
  | nil => simp [splitBy]
  | cons c rest =>
    simp only [splitBy]
    split
    · simp
    · split <;> simp

/-- The pieces of a list, written one after the other with
`sep` between them. -/
def join (sep : Text) (pieces : List Text) : Text := List.intercalate sep pieces

/-- The last piece of a dotted name. -/
def lastSegment (t : Text) : Text := (t.reverse.takeWhile (· != '.')).reverse

/-- What is left after `head` at the front of the text. -/
def afterHead? : Text → Text → Option Text
  | [], t => some t
  | h :: hs, c :: t => if h == c then afterHead? hs t else none
  | _ :: _, [] => none

/-- What is left before `tail` at the end of the text. -/
def beforeTail? (tail t : Text) : Option Text :=
  (afterHead? tail.reverse t.reverse).map List.reverse

/-- What stands before the first occurrence of `pattern` and what
stands after it. -/
def cutAt? (pattern : Text) : Text → Option (Text × Text)
  | [] => if pattern.isEmpty then some ([], []) else none
  | c :: rest =>
    match afterHead? pattern (c :: rest) with
    | some after => some ([], after)
    | none => (cutAt? pattern rest).map fun (before, after) => (c :: before, after)

/-- Whether `pattern` occurs in the text. -/
def contains (pattern t : Text) : Bool := (cutAt? pattern t).isSome

/-- What stands before the last occurrence of the character and what
stands after it. -/
def cutAtLast? (c : Char) (t : Text) : Option (Text × Text) :=
  if t.elem c then
    let after := (t.reverse.takeWhile (· != c)).reverse
    some (t.take (t.length - after.length - 1), after)
  else none

/-- The text between two positions; empty when they are out of order. -/
def slice (t : Text) (start stop : Nat) : Text := (t.take stop).drop start

/-- The text with the character `c` stripped from both ends. -/
def trimChar (c : Char) (t : Text) : Text :=
  ((t.dropWhile (· == c)).reverse.dropWhile (· == c)).reverse

/-- The lines of a text, each with its line break. -/
def fullLines : Text → List Text
  | [] => []
  | c :: rest =>
    if c == '\n' then [c] :: fullLines rest
    else match fullLines rest with
      | [] => [[c]]
      | line :: lines => (c :: line) :: lines

/-- A line without its line break: a line feed, or a carriage return
and a line feed. -/
def withoutBreak (line : Text) : Text :=
  match line.reverse with
  | '\n' :: '\r' :: rest => rest.reverse
  | '\n' :: rest => rest.reverse
  | _ => line

/-- The lines of a text without their line breaks. -/
def lines (t : Text) : List Text := (fullLines t).map withoutBreak

theorem flatten_fullLines (t : Text) : (fullLines t).flatten = t := by
  induction t with
  | nil => rfl
  | cons c rest ih =>
    simp only [fullLines]
    split
    · next h => simp [ih]
    · split
      · next h =>
        rw [h] at ih
        simpa using ih
      · next line lines h =>
        rw [h] at ih
        simpa using ih

/-- The characters after the last line feed. -/
def lastLine (t : Text) : Text := (t.reverse.takeWhile (· != '\n')).reverse

/-- The characters up to and including the first line feed, or all
when there is none. -/
def firstLine : Text → Text
  | [] => []
  | c :: rest => if c == '\n' then [c] else c :: firstLine rest

/-- The decimal digits of a number, with a minus sign in front of
a negative one. -/
def ofInt (n : Int) : Text :=
  if n < 0 then '-' :: Nat.toDigits 10 n.natAbs else Nat.toDigits 10 n.natAbs

/-- The decimal digits of a natural number. -/
def ofNat (n : Nat) : Text := Nat.toDigits 10 n

/-- The text as a string. -/
def toString (t : Text) : String := String.ofList t

end Text

end Graft
