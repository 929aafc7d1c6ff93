import Graft.Code.Edits
import Graft.Code.Lines
import Graft.Merge.Session

/-!
# Writing the outcome of a session

The decisions of a session become edits of the source: imports are added,
generated members are replaced or, when no candidate was held against them,
removed, and new members are put behind those of their kind. The edits are
applied together. The outcome is refused when it has more syntax errors
than the source had.
-/

namespace Graft.Merge

open Java Entity Code

/-- A member, and whether it is left over: generated, and held
against no candidate. -/
structure Slot where
  member : Member
  isStale : Bool
  deriving Inhabited

/-- The members of a session with what is left over. Members that share a
declaration are left over only together. -/
def Session.slots (s : Session) : List Slot :=
  s.members.map fun m =>
    { member := m
      isStale := m.provenance.isGenerated &&
        !s.members.any fun other => other.extent == m.extent && other.refreshed }

/-! ## Constructors that take over -/

/-- Whether a new constructor of an arity can take the place of a
member: a constructor that is left over, and that has parameters exactly
if the new one has. -/
def Slot.isFree (arity : Nat) (slot : Slot) : Bool :=
  slot.isStale && slot.member.signature.kind == .constructor &&
    slot.member.signature.parameters.isEmpty == (arity == 0)

/-- How far the arity of a member lies from another. -/
def Slot.distance (arity : Nat) (slot : Slot) : Nat :=
  let own := slot.member.signature.parameters.length
  (own - arity) + (arity - own)

/-- The free slot with the arity closest to the one given, the first of equally
close ones: its distance and its index. -/
def closestFree? (arity : Nat) : List Slot → Option (Nat × Nat)
  | [] => none
  | slot :: rest =>
    let later := (closestFree? arity rest).map fun (d, i) => (d, i + 1)
    if slot.isFree arity then
      match later with
      | some (d, i) =>
        if d < slot.distance arity then some (d, i) else some (slot.distance arity, 0)
      | none => some (slot.distance arity, 0)
    else later

/-- A slot whose member is replaced by a new constructor. -/
def Slot.takenBy (text : Text) (slot : Slot) : Slot :=
  { member := { slot.member with refreshed := true, replacement := some text }, isStale := false }

/-- The slot that a new member takes over. -/
def takeOverSlot? (slots : List Slot) (p : Pending) : Option Nat :=
  if p.signature.kind == .constructor then
    (closestFree? p.signature.parameters.length slots).map Prod.snd
  else none

/-- New constructors take the places of left-over ones; what finds none stays
to be inserted. -/
def takeOver : List Slot → List Pending → List Slot × List Pending
  | slots, [] => (slots, [])
  | slots, p :: rest =>
    match takeOverSlot? slots p with
    | some index => takeOver (slots.modify index (Slot.takenBy p.text)) rest
    | none =>
      let (slots, left) := takeOver slots rest
      (slots, p :: left)

/-! ## Edits -/

/-- The import declarations to be added. -/
def importBlock (imports : List Text) : Text :=
  Text.join ['\n'] (imports.map fun q => "import " ++ q ++ ";")

/-- New imports go behind the last import, or behind the package declaration, or
to the front. -/
def importEdits (u : CompilationUnit) (imports : List Text) : List Edit :=
  if imports.isEmpty then []
  else match u.imports.getLast? with
    | some last => [⟨last.span.stop, last.span.stop, '\n' :: importBlock imports⟩]
    | none =>
      match u.packageSpan with
      | some package => [⟨package.stop, package.stop, "\n\n" ++ importBlock imports⟩]
      | none => [⟨0, 0, importBlock imports ++ "\n\n"⟩]

/-- The extents of members, in order and each once. -/
def distinctExtents (slots : List Slot) : List Extent :=
  (slots.map (·.member.extent)).foldl (fun es e => if es.contains e then es else es ++ [e]) []

/-- What is written in place of a declaration: the replacements of all members
that share it. -/
def replacementText (slots : List Slot) (extent : Extent) : Text :=
  Text.trimStart (Text.join ['\n']
    ((slots.filter (·.member.extent == extent)).filterMap (·.member.replacement)))

/-- Every declaration with a member to be replaced is replaced once. -/
def replacementEdits (slots : List Slot) : List Edit :=
  (distinctExtents (slots.filter (·.member.replacement.isSome))).map fun e =>
    ⟨e.start, e.stop, replacementText slots e⟩

/-- What is removed with a declaration: the lines that it has for itself, and a
blank line above. -/
def removalRange (source : Text) (e : Extent) : Nat × Nat :=
  let (start, stop) := wholeLines source e.start e.stop
  ((blankLineBefore? source start).getD start, stop)

/-- Every declaration that is left over is removed once. -/
def removalEdits (source : Text) (slots : List Slot) : List Edit :=
  (distinctExtents (slots.filter Slot.isStale)).map fun e =>
    let (start, stop) := removalRange source e
    ⟨start, stop, []⟩

/-- The end of the last member of a kind that stays. -/
def lastEnd? (kind : MemberKind) (slots : List Slot) : Option Nat :=
  ((slots.filter fun slot => slot.member.signature.kind == kind && !slot.isStale).map
    (·.member.extent.stop)).max?

/-- The place that a new member of a kind is put at, and the kind of member that
it is put behind. -/
def anchor? (kind : MemberKind) (slots : List Slot) : Option (Nat × MemberKind) :=
  kind.anchors.findSome? fun k => (lastEnd? k slots).map fun stop => (stop, k)

/-- What stands between a member and a new one behind it: fields follow fields
without a blank line. -/
def gap (anchor kind : MemberKind) : Text :=
  if anchor = .field ∧ kind = .field then ['\n'] else ['\n', '\n']

/-- Where a new member goes. -/
inductive Placement where
  /-- Behind a member. -/
  | behind (edit : Edit)
  /-- At the start of the body. -/
  | atStart (text : Text)
  /-- At the end of the body. -/
  | atEnd (text : Text)
  deriving DecidableEq, Repr

/-- The text between the braces of the body, without the blanks around it. -/
def Session.bodyContent (s : Session) : Text :=
  Text.trim (s.source.slice (s.body.start + 1) (s.body.stop - 1))

/-- Where a new member goes. A field with nothing to be put behind goes to the
start of a body that is not blank. -/
def Session.place (s : Session) (slots : List Slot) (p : Pending) : Placement :=
  let kind := p.signature.kind
  match anchor? kind slots with
  | some (position, anchorKind) => .behind ⟨position, position, gap anchorKind kind ++ p.text⟩
  | none =>
    if kind == .field && !s.bodyContent.isEmpty then .atStart p.text else .atEnd p.text

/-- The insertion of a block in front of the closing brace of the body, which
keeps a line for itself. -/
def Session.bodyEndEdit (s : Session) (block : Text) : Edit :=
  let close := s.body.stop - 1
  let start := lineStart s.source close
  if s.body.start < start && Text.isBlank (s.source.slice start close) then
    let lead : Text := if s.bodyContent.isEmpty then [] else ['\n']
    ⟨start, start, lead ++ block ++ ['\n']⟩
  else
    ⟨close, close, '\n' :: block ++ '\n' :: s.style.indent (s.depth - 1)⟩

/-- The insertions of the new members. -/
def Session.insertionEdits (s : Session) (slots : List Slot) (pending : List Pending) : List Edit :=
  let places := pending.map (s.place slots)
  let behind := places.filterMap fun | .behind e => some e | _ => none
  let atStart := places.filterMap fun | .atStart t => some t | _ => none
  let atEnd := places.filterMap fun | .atEnd t => some t | _ => none
  let first : List Edit :=
    if atStart.isEmpty then []
    else
      let position := s.body.start + 1
      [⟨position, position, '\n' :: Text.join ['\n'] atStart ++ ['\n']⟩]
  let last := if atEnd.isEmpty then [] else [s.bodyEndEdit (Text.join ['\n', '\n'] atEnd)]
  behind ++ first ++ last

namespace Session

/-- All edits of a session, in the order in which they are recorded. -/
def edits (s : Session) : List Edit :=
  let (slots, pending) := takeOver s.slots s.pending
  importEdits s.unit s.imports ++ replacementEdits slots ++ removalEdits s.source slots ++
    s.insertionEdits slots pending

/-- The source with the edits of a session recorded against it. -/
def buffer (s : Session) : EditBuffer :=
  s.edits.foldl (fun b e => b.push e.start e.stop e.text) { source := s.source }

/-- The outcome of a session, or nothing when it is the source as it was. -/
def write (s : Session) : Except SourceError (Option Text) :=
  if s.isKept then .ok none
  else match s.buffer.render with
    | .error overlap => .error (.conflictingEdits s.typeName (overlap.message s.source))
    | .ok rendered =>
      if rendered == s.source then .ok none
      else
        let errors := (CompilationUnit.read rendered).syntaxErrors
        if s.unit.syntaxErrors < errors then
          .error (.unreadable s.path
            ("merged source has " ++ Text.ofNat errors ++ " syntax errors, the original had "
              ++ Text.ofNat s.unit.syntaxErrors))
        else .ok (some rendered)

end Session

end Graft.Merge
