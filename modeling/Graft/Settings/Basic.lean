import Graft.Code.Style
import Graft.Text.Class

/-!
# Settings

What a run can be told: how sources are read, where the annotations of entities
come from, and how generated code is laid out. `Settings.check` refuses the
values that would make generated code unusable.
-/

namespace Graft

/-- How sources are read. -/
structure ReaderSettings where
  /-- Whether to go on when parts of a source cannot be read. -/
  toleratesSyntaxErrors : Bool := true
  /-- The schema of entities that name none. -/
  defaultSchema : Text := "default"
  deriving DecidableEq, Repr, Inhabited

/-- Where the annotations of entities come from. -/
structure AnnotationSettings where
  /-- The package of the annotations. -/
  package : Text := "io.objectbox.annotation"
  /-- The package of the types that hold relations. -/
  relationPackage : Text := "io.objectbox.relation"
  /-- Further annotations that mark a field as not null, by their
  qualified names. -/
  extraNotNull : List Text := []
  deriving DecidableEq, Repr, Inhabited

/-- All settings of a run. -/
structure Settings where
  reader : ReaderSettings := {}
  style : Code.Style := {}
  annotations : AnnotationSettings := {}
  deriving DecidableEq, Repr, Inhabited

namespace AnnotationSettings

/-- The annotations of other libraries that mark a field as not null. -/
def platformNotNull : List Text := List.map String.toList [
  "androidx.annotation.NonNull", "android.support.annotation.NonNull",
  "org.jetbrains.annotations.NotNull", "javax.annotation.Nonnull", "lombok.NonNull"]

/-- The qualified name of an annotation. -/
def qualified (s : AnnotationSettings) (simpleName : Text) : Text :=
  s.package ++ '.' :: simpleName

/-- The qualified name of a type that holds relations. -/
def handle (s : AnnotationSettings) (simpleName : Text) : Text :=
  s.relationPackage ++ '.' :: simpleName

/-- The qualified names of all annotations that mark a field as not null. -/
def notNullNames (s : AnnotationSettings) : List Text :=
  s.qualified "NotNull" :: platformNotNull ++ s.extraNotNull

end AnnotationSettings

/-- A setting with a value that it must not have. -/
structure SettingError where
  field : Text
  reason : Text
  deriving DecidableEq, Repr

/-- The wording of a setting error. -/
def SettingError.message (e : SettingError) : Text :=
  "Invalid configuration value for '" ++ e.field ++ "': " ++ e.reason

/-- Whether a text is one part of a package name. -/
def isPackageSegment : Text → Bool
  | [] => false
  | first :: rest =>
    (Char.isLetter first || first == '_') &&
      rest.all fun c => Char.isLetterOrNumber c || c == '_'

/-- Whether a text is a package name. -/
def isPackageName (t : Text) : Bool := (Text.splitOn '.' t).all isPackageSegment

namespace Settings

/-- Whether a style can be used to lay out code. -/
def checkStyle (s : Code.Style) : Except SettingError Unit :=
  if s.indentChar = .space ∧ ¬ (1 ≤ s.indentSize ∧ s.indentSize ≤ 8) then
    .error ⟨"format.indent_size", "must be between 1 and 8, got " ++ Text.ofNat s.indentSize⟩
  else if s.lineWidth < 40 then
    .error ⟨"format.line_width", "must be at least 40, got " ++ Text.ofNat s.lineWidth⟩
  else .ok ()

/-- Whether a setting holds a package name. -/
def checkPackage (field value : Text) : Except SettingError Unit :=
  if isPackageName value then .ok ()
  else .error ⟨field, "'" ++ value ++ "' is not a Java package name"⟩

/-- Whether annotations can come from the packages given. -/
def checkAnnotations (s : AnnotationSettings) : Except SettingError Unit := do
  checkPackage "annotations.package" s.package
  checkPackage "annotations.relation_package" s.relationPackage

/-- The first setting with a value that it must not have, as an error. -/
def check (s : Settings) : Except SettingError Unit := do
  checkStyle s.style
  checkAnnotations s.annotations

end Settings

end Graft
