import Graft.Text.Basic

/-!
# File name patterns

Patterns that stand for many paths. A question mark stands for one character
and a star for any number of them, but neither for a slash; two stars between
slashes stand for any number of folders. Brackets list characters, braces
list alternatives, and a backslash takes the special meaning from the
character behind it. `Glob.rests` gives what may be left of a text behind a
match at its front.
-/

namespace Graft.Files

/-- A piece of a pattern. -/
inductive Glob where
  | letter (c : Char)
  | anyLetter
  /-- Any number of characters of one name. -/
  | letters
  /-- Any folders at the front of a path. -/
  | leading
  /-- Whatever stands below a folder. -/
  | trailing
  /-- Any folders between two others. -/
  | between
  /-- One character of some ranges, or one of none of them. -/
  | oneOf (negated : Bool) (ranges : List (Char × Char))
  | choice (alternatives : List (List Glob))
  deriving Inhabited, Repr

namespace Glob

/-! ## Reading -/

/-- The characters of a list in brackets, read up to the closing bracket; gives
the rest. The ranges read so far stand with the last one first. -/
def classRest? (ranges : List (Char × Char)) (inRange : Bool) :
    Text → Option (List (Char × Char) × Text)
  | [] => none
  | ']' :: rest => some (if inRange then ('-', '-') :: ranges else ranges, rest)
  | c :: rest =>
    if c = '-' ∧ !inRange then classRest? ranges true rest
    else if inRange then
      match ranges with
      | (low, _) :: before =>
        if c < low then none else classRest? ((low, c) :: before) false rest
      | [] => none
    else classRest? ((c, c) :: ranges) false rest

/-- A list of characters behind its opening bracket. A bracket or a dash that
comes first stands for itself. -/
def class? (t : Text) : Option (Glob × Text) :=
  let (negated, t) := match t with
    | '!' :: rest => (true, rest)
    | '^' :: rest => (true, rest)
    | _ => (false, t)
  match t with
  | [] => none
  | c :: rest =>
    let start := if c = ']' ∨ c = '-' then classRest? [(c, c)] false rest
      else classRest? [] false t
    start.map fun (ranges, rest) => (.oneOf negated ranges.reverse, rest)

/-- What is being read: finished alternatives, and the pieces of the one at
hand, each with the last one first. -/
structure Level where
  finished : List (List Glob) := []
  pieces : List Glob := []

/-- The pieces of a level with one more. -/
def Level.push (l : Level) (g : Glob) : Level := { l with pieces := g :: l.pieces }

/-- The kind of two stars between the characters on both sides of them, with the
rest behind them and behind the slash that they take in. Nothing when they are
two plain stars. -/
def doubleStar? (first nested : Bool) (previous : Option Char) (rest : Text) :
    Option (Glob × Text) :=
  if first then
    match rest with
    | [] => some (.leading, [])
    | '/' :: rest => some (.leading, rest)
    | _ => none
  else if previous = some '/' ∨ (nested ∧ (previous = some ',' ∨ previous = some '\x7b')) then
    match rest with
    | [] => some (.trailing, [])
    | '/' :: rest => some (.between, rest)
    | c :: _ => if nested ∧ (c = ',' ∨ c = '\x7d') then some (.trailing, rest) else none
  else none

/-- The pieces of a level with two stars, which take the place of the slash in
front of them. -/
def Level.pushDoubleStar (l : Level) (g : Glob) : Level :=
  match g, l.pieces with
  | .leading, ps => { l with pieces := .leading :: ps }
  | _, .leading :: ps => { l with pieces := .leading :: ps }
  | _, .trailing :: ps => { l with pieces := .trailing :: ps }
  | g, _ :: ps => { l with pieces := g :: ps }
  | _, [] => l

/-- The choice between alternatives. Empty ones count only when
there is no other. -/
def ofAlternatives (alternatives : List (List Glob)) : Glob :=
  match alternatives.filter fun gs => !gs.isEmpty with
  | [] => .choice [[]]
  | filled => .choice filled

/-- Reads a pattern, the innermost level first. -/
def readFrom? : Nat → List Level → Option Char → Text → Option (List Glob)
  | 0, _, _, _ => none
  | fuel + 1, levels, previous, t =>
    match levels, t with
    | [], _ => none
    | [l], [] => some l.pieces.reverse
    | _ :: _ :: _, [] => none
    | l :: outer, c :: rest =>
      let nested := !outer.isEmpty
      match c with
      | '?' => readFrom? fuel (l.push .anyLetter :: outer) (some c) rest
      | '[' => do
        let (g, rest) ← class? rest
        readFrom? fuel (l.push g :: outer) (some ']') rest
      | '\x7b' => readFrom? fuel ({} :: l :: outer) (some c) rest
      | '\\' =>
        match rest with
        | [] => none
        | d :: rest => readFrom? fuel (l.push (.letter d) :: outer) (some d) rest
      | '*' =>
        match rest with
        | '*' :: rest =>
          match doubleStar? l.pieces.isEmpty nested previous rest with
          | some (g, after) =>
            let last := if after.length < rest.length then some '/' else some '*'
            readFrom? fuel (l.pushDoubleStar g :: outer) last after
          | none => readFrom? fuel ((l.push .letters).push .letters :: outer) (some '*') rest
        | rest => readFrom? fuel (l.push .letters :: outer) (some c) rest
      | '\x7d' =>
        match outer with
        | [] => none
        | o :: outer =>
          let g := ofAlternatives (l.pieces.reverse :: l.finished).reverse
          readFrom? fuel (o.push g :: outer) (some c) rest
      | _ =>
        if c = ',' ∧ nested then
          readFrom? fuel ({ finished := l.pieces.reverse :: l.finished } :: outer) (some c) rest
        else readFrom? fuel (l.push (.letter c) :: outer) (some c) rest

/-- Reads a pattern; nothing when brackets or braces do not match up. -/
def read? (t : Text) : Option (List Glob) := readFrom? (t.length + 1) [{}] none t

/-! ## Matching -/

/-- What may be left of a text behind any number of characters that
satisfy a condition. -/
def restsWhile (p : Char → Bool) : Text → List Text
  | [] => [[]]
  | c :: rest => (c :: rest) :: if p c then restsWhile p rest else []

/-- What may be left of a text behind some characters and a slash. -/
def restsBehindSlash : Text → List Text
  | [] => []
  | c :: rest => if c = '/' then rest :: restsBehindSlash rest else restsBehindSlash rest

mutual

/-- What may be left of a text behind a piece of a pattern. -/
def rests : Glob → Text → List Text
  | .letter c, t => match t with
    | d :: rest => if c = d then [rest] else []
    | [] => []
  | .anyLetter, t => match t with
    | d :: rest => if d = '/' then [] else [rest]
    | [] => []
  | .letters, t => restsWhile (· != '/') t
  | .leading, t => t :: restsBehindSlash t
  | .trailing, t => match t with
    | '/' :: rest => restsWhile (fun _ => true) rest
    | _ => []
  | .between, t => match t with
    | '/' :: rest => rest :: restsBehindSlash rest
    | _ => []
  | .oneOf negated ranges, t => match t with
    | d :: rest =>
      if (ranges.any fun (low, high) => low ≤ d && d ≤ high) != negated then [rest] else []
    | [] => []
  | .choice alternatives, t => restsOfAny alternatives t

/-- What may be left of a text behind pieces that follow each other. -/
def restsOfAll : List Glob → Text → List Text
  | [], t => [t]
  | g :: gs, t => (rests g t).flatMap (restsOfAll gs)

/-- What may be left of a text behind one of several alternatives. -/
def restsOfAny : List (List Glob) → Text → List Text
  | [], _ => []
  | gs :: more, t => restsOfAll gs t ++ restsOfAny more t

end

/-- Whether a pattern stands for a whole text. Two stars alone stand
for every text. -/
def covers : List Glob → Text → Bool
  | [.leading], _ => true
  | pattern, t => (restsOfAll pattern t).any List.isEmpty

end Glob

end Graft.Files
