import Graft.Text.Class

/-!
# Literals in annotations

The values of integer and string literals.
-/

namespace Graft.Java

/-- The value of a digit in a base, if it is one. -/
def digitValue? (base : Nat) (c : Char) : Option Nat :=
  let value? :=
    if c.isDigit then some (c.toNat - '0'.toNat)
    else if 'a' ≤ c ∧ c ≤ 'z' then some (c.toNat - 'a'.toNat + 10)
    else if 'A' ≤ c ∧ c ≤ 'Z' then some (c.toNat - 'A'.toNat + 10)
    else none
  value?.filter (· < base)

/-- The number that digits of a base write, behind a number already read. -/
def digitsValue? (base : Nat) : (before : Nat) → Text → Option Nat
  | before, [] => some before
  | before, c :: rest =>
    match digitValue? base c with
    | some d => digitsValue? base (before * base + d) rest
    | none => none

/-- The greatest value of an integer argument. -/
def greatestInteger : Nat := Nat.pow 2 63 - 1

/-- The number that digits of a base write, if there is a digit and the number
is not too great. -/
def boundedValue? (base : Nat) (digits : Text) : Option Int :=
  if digits.isEmpty then none
  else ((digitsValue? base 0 digits).filter (· ≤ greatestInteger)).map Int.ofNat

/-- The value of an integer literal: decimal, hexadecimal behind `0x`, binary
behind `0b`, octal behind another leading zero. Underscores and the suffix of
long numbers do not count. -/
def integerValue? (literal : Text) : Option Int :=
  let body := (literal.reverse.dropWhile fun c => c == 'l' || c == 'L').reverse
  match body.filter (· != '_') with
  | '0' :: 'x' :: digits => boundedValue? 16 digits
  | '0' :: 'X' :: digits => boundedValue? 16 digits
  | '0' :: 'b' :: digits => boundedValue? 2 digits
  | '0' :: 'B' :: digits => boundedValue? 2 digits
  | '0' :: c :: digits => boundedValue? 8 (c :: digits)
  | digits => boundedValue? 10 digits

/-- The character that a backslash and this character stand for. -/
def escapedChar (c : Char) : Char :=
  if c = 'n' then '\n'
  else if c = 't' then '\t'
  else if c = 'r' then '\r'
  else if c = '0' then '\x00'
  else c

/-- A text with each backslash and the character behind it replaced by what they
stand for; a backslash at the end stands for itself. -/
def unescape : Text → Text
  | '\\' :: c :: rest => escapedChar c :: unescape rest
  | c :: rest => c :: unescape rest
  | [] => []

/-- What stands between two equal quotes at the ends of a text. -/
def unwrap? (quotes t : Text) : Option Text := do
  let rest ← Text.afterHead? quotes t
  Text.beforeTail? quotes rest

/-- The value of a string literal or a text block. -/
def stringValue (literal : Text) : Text :=
  match unwrap? "\"\"\"" literal with
  | some inner => unescape inner
  | none =>
    match unwrap? "\"" literal with
    | some inner => unescape inner
    | none => unescape literal

end Graft.Java
