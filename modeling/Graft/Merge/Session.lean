import Graft.Code.Layout
import Graft.Code.Stamp
import Graft.Java.Source
import Graft.Merge.Member
import Graft.SourceError

/-!
# Merge sessions

A session holds one type of a source against candidates for its members. Every
candidate is decided on as it comes: members written by hand are never touched,
generated ones are replaced when their structure differs, and candidates that
match no member are held back to be inserted. A decision that fails leaves the
session as it was.
-/

namespace Graft.Merge

open Java Entity Code

/-- What was decided about a candidate. -/
inductive Action where
  /-- No member has its signature; it will be inserted. -/
  | inserted
  /-- A generated member will be replaced by it. -/
  | replaced
  /-- A generated member has the same structure already. -/
  | unchanged
  /-- The member is marked to be kept. -/
  | kept
  /-- The whole type is marked to be kept. -/
  | skipped
  deriving DecidableEq, Repr, Inhabited

/-- The name of an action. -/
def Action.name : Action → Text
  | .inserted => "inserted"
  | .replaced => "replaced"
  | .unchanged => "unchanged"
  | .kept => "kept"
  | .skipped => "skipped"

/-- A candidate that matches no member, laid out. -/
structure Pending where
  signature : Signature
  text : Text
  deriving DecidableEq, Repr, Inhabited

/-- Something worth telling that is no error. -/
inductive Note where
  /-- A generated version was not written, since the member is
  marked to be kept. -/
  | keptMember (location : Location)
  deriving DecidableEq, Repr

/-- The wording of a note. -/
def Note.display : Note → Text
  | .keptMember location => location.display ++ ": marked @Keep, generated version skipped"

/-- One pass over one type of a source. -/
structure Session where
  source : Text
  typeName : Text
  path : Text
  unit : CompilationUnit
  /-- The body of the type with both braces. -/
  body : Span
  /-- The depth of the members. -/
  depth : Nat
  /-- Whether the whole type is marked to be kept. -/
  isKept : Bool
  members : List Member
  style : Style
  pending : List Pending := []
  imports : List Text := []
  notes : List Note := []

namespace Session

/-- A session over a type of a source that has been read. Without a path, the
file counts as named after the type. -/
def ofType (source typeName : Text) (unit : CompilationUnit) (type : TypeDecl) (depth : Nat)
    (style : Style) (path : Option Text := none) : Session :=
  { source, typeName, unit, depth, style
    path := path.getD (typeName ++ ".java")
    body := type.body
    isKept := hasMark type.modifiers "Keep"
    members := indexMembers type }

/-- A session over the type of a name, if the source declares it. -/
def start (source typeName : Text) (style : Style) (path : Option Text := none) :
    Except SourceError Session :=
  let unit := CompilationUnit.read source
  match locate? unit.types typeName with
  | none => .error (.typeNotFound typeName)
  | some (type, depth) => .ok (ofType source typeName unit type depth style path)

/-- Whether an import declaration makes a class of a package available. -/
def covers (package qualified : Text) (i : Import) : Bool :=
  !i.isStatic && (if i.isWildcard then i.path == package else i.path == qualified)

/-- Whether a class can be used without a further import. -/
def isImported (s : Session) (package qualified : Text) : Bool :=
  package == "java.lang".toList || package == s.unit.packageName ||
    s.unit.imports.any (covers package qualified) || s.imports.contains qualified

/-- Asks for a class to be imported, and says whether an import will
be added for it. -/
def ensureImport (s : Session) (qualified : Text) : Session × Bool :=
  if s.isKept then (s, false)
  else match Text.cutAtLast? '.' qualified with
    | none => (s, false)
    | some (package, _) =>
      if s.isImported package qualified then (s, false)
      else ({ s with imports := s.imports ++ [qualified] }, true)

/-- Code laid out as a member of the type. -/
def laidOut (s : Session) (code : Text) : Text := layout s.style s.depth code

/-- The place of a member. -/
def locationOf (s : Session) (m : Member) : Location :=
  ⟨s.typeName, some m.signature.display, some m.line⟩

/-- Decides on a candidate that matches no member. -/
def defineNew (s : Session) (signature : Signature) (code : Text) :
    Except SourceError (Session × Action) :=
  if s.pending.any (·.signature.isSameMember signature) then
    .error (.duplicateDefinition { entity := s.typeName, member := some signature.display })
  else
    .ok ({ s with pending := s.pending ++ [⟨signature, s.laidOut code⟩] }, .inserted)

/-- Whether other members share the declaration of a member. -/
def isShared (s : Session) (m : Member) : Bool :=
  decide (1 < s.members.countP (·.extent == m.extent))

/-- Whether the code of a member has the same structure as a candidate. -/
def agrees (s : Session) (m : Member) (code : Text) : Bool :=
  sameStructure (s.source.slice m.extent.start m.extent.stop) code

/-- Decides on a candidate for a generated member, which stands at an
index of the list. -/
def refresh (s : Session) (index : Nat) (m : Member) (code : Text) : Session × Action :=
  if !s.isShared m && s.agrees m code then
    ({ s with members := s.members.set index { m with refreshed := true } }, .unchanged)
  else
    let replacement := some (s.laidOut code)
    ({ s with members := s.members.set index { m with refreshed := true, replacement } }, .replaced)

/-- Decides on a candidate for a member, which stands at an
index of the list. -/
def defineExisting (s : Session) (index : Nat) (m : Member) (code : Text) :
    Except SourceError (Session × Action) :=
  if m.refreshed then .error (.duplicateDefinition (s.locationOf m))
  else match m.provenance with
    | .keep => .ok ({ s with notes := s.notes ++ [.keptMember (s.locationOf m)] }, .kept)
    | .unmarked => .error (.unmarkedConflict (s.locationOf m))
    | .generated _ => .ok (s.refresh index m code)

/-- The first member that a signature stands for, with its index. -/
def findMember? (s : Session) (signature : Signature) : Option (Nat × Member) := do
  let index ← s.members.findIdx? (·.signature.isSameMember signature)
  let m ← s.members[index]?
  pure (index, m)

/-- Decides on a candidate. Code without a mark of who looks after it
is stamped first. -/
def define (s : Session) (signature : Signature) (code : Text) :
    Except SourceError (Session × Action) :=
  if s.isKept then .ok (s, .skipped)
  else match s.findMember? signature with
    | none => s.defineNew signature (ensureStamped code)
    | some (index, m) => s.defineExisting index m (ensureStamped code)

end Session

end Graft.Merge
