import Graft.Text.Basic

/-!
# Decimal numbers

A decimal number is a sign, a coefficient and a power of ten. Binary
floating-point numbers enter and leave a document as the shortest decimal that
reads back as the same number; `Decimal.shortest?` finds it. Two written forms
are given: `json` switches to an exponent for very large and very small numbers,
`plain` never does.
-/

namespace Graft

/-- The number `±coefficient · 10 ^ exponent`. -/
structure Decimal where
  negative : Bool
  coefficient : Nat
  exponent : Int
  deriving DecidableEq, Repr, Inhabited

namespace Decimal

/-- The quotient of a division rounded to the nearest natural number, a half to
the even one. -/
def roundedQuotient (numerator denominator : Nat) : Nat :=
  let q := numerator / denominator
  let twice := 2 * (numerator % denominator)
  if twice > denominator ∨ (twice = denominator ∧ q % 2 = 1) then q + 1 else q

/-- A fraction divided by a power of two and rounded to a natural number. -/
def scaled (numerator denominator : Nat) (q : Int) : Nat :=
  if q < 0 then roundedQuotient (numerator * Nat.pow 2 (-q).toNat) denominator
  else roundedQuotient numerator (denominator * Nat.pow 2 q.toNat)

/-- A positive fraction as the binary number `m · 2 ^ q` nearest to it with at
most 53 significant bits and an exponent of at least -1074. -/
def nearestBinary (numerator denominator : Nat) : Nat × Int :=
  let size : Int := (Nat.log2 numerator : Int) - (Nat.log2 denominator : Int)
  let isSmaller : Bool :=
    if size < 0 then numerator * Nat.pow 2 (-size).toNat < denominator
    else numerator < denominator * Nat.pow 2 size.toNat
  let q := max (-1074) (size - 52 - if isSmaller then 1 else 0)
  let m := scaled numerator denominator q
  if m = Nat.pow 2 53 then (Nat.pow 2 52, q + 1) else (m, q)

/-- Whether a decimal `c · 10 ^ e` rounds to the binary number `m · 2 ^ q`. -/
def roundsTo (c : Nat) (e : Int) (m : Nat) (q : Int) : Bool :=
  let (m', q') :=
    if e < 0 then nearestBinary c (Nat.pow 10 (-e).toNat)
    else nearestBinary (c * Nat.pow 10 e.toNat) 1
  if q ≤ q' then m == m' * Nat.pow 2 (q' - q).toNat else m' == m * Nat.pow 2 (q - q').toNat

/-- The coefficient rounded to its `n` leading digits, with the new exponent. -/
def leading (c : Nat) (e : Int) (n : Nat) : Nat × Int :=
  let size := (Nat.toDigits 10 c).length
  if size ≤ n then (c, e) else (roundedQuotient c (Nat.pow 10 (size - n)), e + (size - n : Nat))

/-- Trailing zeros of the coefficient moved into the exponent. -/
def stripZeros : Nat → Nat → Int → Nat × Int
  | 0, c, e => (c, e)
  | fuel + 1, c, e => if c ≠ 0 ∧ c % 10 = 0 then stripZeros fuel (c / 10) (e + 1) else (c, e)

/-- How many digits stand in front of the point when the number
is written out. -/
def point (d : Decimal) : Int := (Nat.toDigits 10 d.coefficient).length + d.exponent

/-- The decimal with the fewest digits that stands for the binary
number `m · 2 ^ q`. -/
def ofBinary (negative : Bool) (m : Nat) (q : Int) : Decimal :=
  let (c, e) := if q < 0 then (m * Nat.pow 5 (-q).toNat, q) else (m * Nat.pow 2 q.toNat, (0 : Int))
  let candidates := (List.range 17).map fun n => leading c e (n + 1)
  let (c', e') := (candidates.find? fun (c', e') => roundsTo c' e' m q).getD (c, e)
  let (coefficient, exponent) := stripZeros (Nat.toDigits 10 c').length c' e'
  { negative, coefficient, exponent }

/-- The decimal with the fewest digits that stands for the same double-precision
number; nothing when the number is too great for one. Numbers that are far out
of range are not worked out. -/
def shortest? (d : Decimal) : Option Decimal :=
  let zero : Decimal := { d with coefficient := 0, exponent := 0 }
  if d.coefficient = 0 ∨ d.point < -330 then some zero
  else if 310 < d.point then none
  else
    let (m, q) :=
      if d.exponent < 0 then nearestBinary d.coefficient (Nat.pow 10 (-d.exponent).toNat)
      else nearestBinary (d.coefficient * Nat.pow 10 d.exponent.toNat) 1
    if m = 0 then some zero
    else if 971 < q then none
    else some (ofBinary d.negative m q)

/-- The sign as a text. -/
def sign (d : Decimal) : Text := if d.negative then ['-'] else []

/-- The form of a JSON number: positional with a point from `0.00001` up to
sixteen digits before the point, otherwise with an exponent. -/
def json (d : Decimal) : Text :=
  let digits := Nat.toDigits 10 d.coefficient
  let point := d.point
  d.sign ++
    if 0 ≤ d.exponent ∧ point ≤ 16 then
      digits ++ List.replicate d.exponent.toNat '0' ++ ['.', '0']
    else if 0 < point ∧ point ≤ 16 then
      digits.take point.toNat ++ ['.'] ++ digits.drop point.toNat
    else if -5 < point ∧ point ≤ 0 then
      ['0', '.'] ++ List.replicate (-point).toNat '0' ++ digits
    else if digits.length = 1 then digits ++ ['e'] ++ Text.ofInt (point - 1)
    else digits.take 1 ++ ['.'] ++ digits.drop 1 ++ ['e'] ++ Text.ofInt (point - 1)

/-- The positional form, with a point only when there is a fraction. -/
def plain (d : Decimal) : Text :=
  let digits := Nat.toDigits 10 d.coefficient
  let point := d.point
  d.sign ++
    if 0 ≤ d.exponent then digits ++ List.replicate d.exponent.toNat '0'
    else if 0 < point then digits.take point.toNat ++ ['.'] ++ digits.drop point.toNat
    else ['0', '.'] ++ List.replicate (-point).toNat '0' ++ digits

/-- The positional form of the double-precision number that a
decimal stands for. -/
def plainDouble (d : Decimal) : Text :=
  match d.shortest? with
  | some s => s.plain
  | none => d.sign ++ "inf"

/-- The digits at the front of a text, with the rest. -/
def digitsOf (t : Text) : Text × Text := (t.takeWhile Char.isDigit, t.dropWhile Char.isDigit)

/-- The number written by decimal digits; other characters do not occur. -/
def natOfDigits (t : Text) : Nat := t.foldl (fun n c => n * 10 + (c.toNat - '0'.toNat)) 0

/-- Reads a sign. -/
def readSign : Text → Bool × Text
  | '-' :: rest => (true, rest)
  | '+' :: rest => (false, rest)
  | t => (false, t)

/-- Reads a decimal number: a sign, digits with or without a point, and an
exponent. At least one digit is needed, and at least one in an exponent. -/
def ofText? (t : Text) : Option Decimal :=
  let (negative, t) := readSign t
  let (whole, t) := digitsOf t
  let (fraction, t) := match t with
    | '.' :: rest => digitsOf rest
    | _ => ([], t)
  if whole.isEmpty && fraction.isEmpty then none
  else
    let number (exponent : Int) : Decimal :=
      { negative, coefficient := natOfDigits (whole ++ fraction),
        exponent := exponent - fraction.length }
    match t with
    | [] => some (number 0)
    | c :: rest =>
      if c == 'e' || c == 'E' then
        let (negative, rest) := readSign rest
        let (digits, rest) := digitsOf rest
        if digits.isEmpty || !rest.isEmpty then none
        else
          let n : Int := natOfDigits digits
          some (number (if negative then -n else n))
      else none

end Decimal

end Graft
