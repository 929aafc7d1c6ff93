import Graft.Code.Hash
import Graft.Java.Scope

/-!
# Source errors

What can be wrong with a source file or a schema, and how it is worded. Every
error concerns the text of a source: only a change there, or in the settings,
makes it go away.
-/

namespace Graft

open Java

instance decidableEqExcept {ε α : Type} [DecidableEq ε] [DecidableEq α] :
    DecidableEq (Except ε α)
  | .error e, .error e' => decidable_of_iff (e = e') ⟨congrArg _, Except.error.inj⟩
  | .ok a, .ok b => decidable_of_iff (a = b) ⟨congrArg _, Except.ok.inj⟩
  | .error _, .ok _ => isFalse nofun
  | .ok _, .error _ => isFalse nofun

/-- The place that an error is about: an entity, a member of it, and the
line of the member. -/
structure Location where
  entity : Text
  member : Option Text := none
  line : Option Nat := none
  deriving DecidableEq, Repr, Inhabited

/-- A location as it stands in messages. -/
def Location.display (l : Location) : Text :=
  l.entity
    ++ (match l.member with | some member => '.' :: member | none => [])
    ++ (match l.line with | some line => " (line " ++ Text.ofNat line ++ ")" | none => [])

/-- Why a source file, a schema or a merge is refused. -/
inductive SourceError where
  /-- A type name that could come from several imports. -/
  | ambiguousType (location : Location) (name : AmbiguousImport)
  /-- An annotation that lacks arguments. -/
  | missingArguments (location : Location) (simpleName reason : Text)
  /-- An annotation with an unusable value. -/
  | invalidValue (location : Location) (simpleName reason : Text)
  /-- A converter or a custom type that is an inner class and not static. -/
  | unsupportedInnerType (location : Location) (typeName : Text)
  /-- A generated member that no longer has the hash recorded for it. -/
  | tamperedCode (location : Location) (expected actual : Int32)
  /-- A member to be generated that is there already, written by hand. -/
  | unmarkedConflict (location : Location)
  /-- A relation to something that the schema does not have. -/
  | unresolvedTarget (location : Location) (target schema : Text)
  /-- A to-many relation that does not say in one way how it is linked. -/
  | unclearLink (location : Location) (found : Nat)
  /-- A member defined twice in one pass. -/
  | duplicateDefinition (location : Location)
  /-- Edits of one pass that overlap. -/
  | conflictingEdits (typeName reason : Text)
  /-- A type that the source does not declare. -/
  | typeNotFound (typeName : Text)
  /-- A source with syntax errors or with names that cannot be used. -/
  | unreadable (path reason : Text)
  /-- A file that cannot be read at all. -/
  | inaccessible (reason : Text)
  deriving DecidableEq, Repr

namespace SourceError

/-- The place that an error is about, if it is about a place. -/
def location? : SourceError → Option Location
  | .ambiguousType l _ => some l
  | .missingArguments l _ _ => some l
  | .invalidValue l _ _ => some l
  | .unsupportedInnerType l _ => some l
  | .tamperedCode l _ _ => some l
  | .unmarkedConflict l => some l
  | .unresolvedTarget l _ _ => some l
  | .unclearLink l _ => some l
  | .duplicateDefinition l => some l
  | .conflictingEdits _ _ => none
  | .typeNotFound _ => none
  | .unreadable _ _ => none
  | .inaccessible _ => none

/-- What is said about the place of an error, or the whole message when it is
about no place. -/
def description : SourceError → Text
  | .ambiguousType _ e =>
    "ambiguous type '" ++ e.identifier ++ "', could come from any of: "
      ++ Text.join ", ".toList e.candidates
  | .missingArguments _ name reason => "@" ++ name ++ " is missing required arguments: " ++ reason
  | .invalidValue _ name reason => "invalid value in @" ++ name ++ ": " ++ reason
  | .unsupportedInnerType _ typeName =>
    "inner class '" ++ typeName ++ "' must be static; non-static inner classes need an enclosing "
      ++ "instance the generator cannot supply"
  | .tamperedCode _ expected actual =>
    "generated code was modified (expected hash " ++ Code.showHash expected ++ ", found "
      ++ Code.showHash actual
      ++ "); mark it @Keep to retain the changes or remove it to regenerate"
  | .unmarkedConflict _ =>
    "a declaration with this signature already exists and is not marked; annotate it with @Keep "
      ++ "to retain it, or with @Generated to let it be replaced"
  | .unresolvedTarget _ target schema =>
    "relation target '" ++ target ++ "' is not an entity in schema '" ++ schema ++ "'"
  | .unclearLink _ found =>
    "to-many relation needs exactly one of backlink, join properties, or join entity (found "
      ++ Text.ofNat found ++ ")"
  | .duplicateDefinition _ => "defined more than once in one merge pass"
  | .conflictingEdits typeName reason =>
    "conflicting edits while merging '" ++ typeName ++ "': " ++ reason
  | .typeNotFound typeName => "type '" ++ typeName ++ "' not found in source"
  | .unreadable path reason => "Parse failed for " ++ path ++ ": " ++ reason
  | .inaccessible reason => "IO error: " ++ reason

/-- The wording of an error. -/
def message (e : SourceError) : Text :=
  match e.location? with
  | some l => l.display ++ ": " ++ e.description
  | none => e.description

end SourceError

end Graft
