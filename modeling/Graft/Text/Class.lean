import Graft.Text.Basic
import Graft.Text.Table.Alphabetic
import Graft.Text.Table.Numeric
import Graft.Text.Table.Lowercase
import Graft.Text.Table.IdentifierStart
import Graft.Text.Table.IdentifierPart

/-!
# Character classes

The Unicode classes that names, spacing and identifiers are read by, and the
operations on texts that depend on them: trimming, dropping blanks, and cutting
into words. Every class is decided by a plain test for ASCII and by a table of
ranges above it.
-/

namespace Graft.Char

/-- Whether a code point lies in one of the ranges. -/
def inRanges (ranges : Array (Nat × Nat)) (n : Nat) : Bool :=
  ranges.any fun (first, last) => first ≤ n && n ≤ last

/-- A class given by a test on ASCII and a table above it. -/
def ofClass (ascii : Char → Bool) (ranges : Array (Nat × Nat)) (c : Char) : Bool :=
  if c.toNat < 128 then ascii c else inRanges ranges c.toNat

/-- A blank: a character with the Unicode property White_Space. -/
def isBlank (c : Char) : Bool :=
  let n := c.toNat
  (9 ≤ n && n ≤ 13) || n == 0x20 || n == 0x85 || n == 0xA0 || n == 0x1680 ||
    (0x2000 ≤ n && n ≤ 0x200A) || n == 0x2028 || n == 0x2029 || n == 0x202F || n == 0x205F ||
    n == 0x3000

/-- A letter: a character with the Unicode property Alphabetic. -/
def isLetter : Char → Bool := ofClass Char.isAlpha Text.Table.alphabetic

/-- A letter or a number of any kind. -/
def isLetterOrNumber : Char → Bool :=
  ofClass Char.isAlphanum (Text.Table.alphabetic ++ Text.Table.numeric)

/-- A small letter: a character with the Unicode property Lowercase. -/
def isSmall : Char → Bool := ofClass Char.isLower Text.Table.lowercase

/-- Whether a character may start a word of Java source. -/
def startsWord : Char → Bool :=
  ofClass (fun c => c.isAlpha || c == '_' || c == '$') Text.Table.identifierStart

/-- Whether a character may stand inside a word of Java source. The cent sign
may, beside the characters with the property XID_Continue. -/
def continuesWord (c : Char) : Bool :=
  c.toNat == 0xA2 ||
    ofClass (fun c => c.isAlphanum || c == '_' || c == '$') Text.Table.identifierPart c

end Graft.Char

namespace Graft.Text

open Graft.Char

/-- Whether a text has no character but blanks. -/
def isBlank (t : Text) : Bool := t.all Char.isBlank

/-- The text from its first character that is not blank. -/
def trimStart (t : Text) : Text := t.dropWhile Char.isBlank

/-- The text up to its last character that is not blank. -/
def trimEnd (t : Text) : Text := (t.reverse.dropWhile Char.isBlank).reverse

/-- The text without the blanks at its two ends. -/
def trim (t : Text) : Text := trimEnd (trimStart t)

/-- The text without its blanks. -/
def compact (t : Text) : Text := t.filter fun c => !Char.isBlank c

/-- The runs of characters that are not blank. -/
def words (t : Text) : List Text := (splitBy Char.isBlank t).filter fun w => !w.isEmpty

end Graft.Text
