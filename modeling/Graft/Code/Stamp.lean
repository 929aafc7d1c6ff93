import Graft.Code.Hash

/-!
# Provenance stamps

Generated code carries a marker with the hash that it had when it was written.
The hash is taken before the marker is set, so that the marker is no part of
what it vouches for. The marker goes in front of the declaration, behind the
lines of comments that lead it.
-/

namespace Graft.Code

/-- How a line behaves in front of a declaration, given whether a block comment
is open before it: whether it belongs to the leading comments, and whether a
block comment is open behind it. -/
def leadingLine (inBlock : Bool) (line : Text) : Bool × Bool :=
  let t := Text.trim line
  if inBlock then (true, !Text.contains "*/" t)
  else if ("/*".toList).isPrefixOf t then (true, !Text.contains "*/" t)
  else (t.isEmpty || ("//".toList).isPrefixOf t, false)

/-- Parts lines into those that lead a declaration and the others. -/
def spanLeading (inBlock : Bool) : List Text → List Text × List Text
  | [] => ([], [])
  | line :: rest =>
    match leadingLine inBlock line with
    | (false, _) => ([], line :: rest)
    | (true, open') =>
      let (leading, others) := spanLeading open' rest
      (line :: leading, others)

/-- Parts a text into its leading lines of comments and blanks,
and what follows. -/
def splitLeadingComments (t : Text) : Text × Text :=
  let (leading, others) := spanLeading false (Text.fullLines t)
  (leading.flatten, others.flatten)

/-- Leading comments and declaration together are the text. -/
theorem splitLeadingComments_append (t : Text) :
    (splitLeadingComments t).1 ++ (splitLeadingComments t).2 = t := by
  have key : ∀ (lines : List Text) (b : Bool),
      (spanLeading b lines).1.flatten ++ (spanLeading b lines).2.flatten = lines.flatten := by
    intro lines
    induction lines with
    | nil => intro b; rfl
    | cons line rest ih =>
      intro b
      simp only [spanLeading]
      split
      · simp
      · simp [ih]
  simpa [splitLeadingComments, Text.flatten_fullLines] using key (Text.fullLines t) false

/-- The marker for a hash, with its line break. -/
def marker (h : Int32) : Text := "@Generated(hash = " ++ showHash h ++ ")\n"

/-- Code with the marker in front of its declaration. -/
def stamp (t : Text) : Text :=
  let (comments, declaration) := splitLeadingComments t
  comments ++ marker (structuralHash t) ++ Text.trimStart declaration

/-- Whether a character may stand in the name of an annotation. -/
def inAnnotationName (c : Char) : Bool :=
  Char.isLetterOrNumber c || c == '_' || c == '$' || c == '.'

/-- Where a reader of annotation arguments stands: how many parentheses are
open, and in which literal it is, if in any. -/
structure ArgumentState where
  depth : Nat := 0
  literal : Option (Char × Bool) := none

/-- What follows the parenthesis that closes the one the text starts with. -/
def afterArguments? (state : ArgumentState) : Text → Option Text
  | [] => none
  | c :: rest =>
    match state.literal with
    | some (quote, escaped) =>
      let literal :=
        if escaped then some (quote, false)
        else if c == '\\' then some (quote, true)
        else if c == quote then none
        else some (quote, false)
      afterArguments? { state with literal } rest
    | none =>
      if c == '"' || c == '\'' then afterArguments? { state with literal := some (c, false) } rest
      else if c == '(' then afterArguments? { state with depth := state.depth + 1 } rest
      else if c == ')' then
        match state.depth with
        | 0 => none
        | 1 => some rest
        | depth + 1 => afterArguments? { state with depth } rest
      else afterArguments? state rest

/-- Whether one of the annotations at the front of a text is a provenance
marker, going by the last part of its name. The number bounds the annotations
that are looked at. -/
def startsWithMarker : Nat → Text → Bool
  | n + 1, '@' :: rest =>
    let name := rest.takeWhile inAnnotationName
    let simple := Text.lastSegment name
    if simple = "Generated" || simple = "Keep" then true
    else
      let after := Text.trimStart (rest.dropWhile inAnnotationName)
      match after with
      | '(' :: _ =>
        match afterArguments? {} after with
        | some following => startsWithMarker n (Text.trimStart following)
        | none => false
      | _ => startsWithMarker n after
  | _, _ => false

/-- Whether one of the annotations in front of the declaration is a
provenance marker. -/
def isMarked (t : Text) : Bool :=
  startsWithMarker t.length (Text.trimStart (splitLeadingComments t).2)

/-- The text as it is when it carries a provenance marker, stamped otherwise. -/
def ensureStamped (t : Text) : Text := if isMarked t then t else stamp t

end Graft.Code
