import Graft.Code.Stamp
import Graft.Entity.Report
import Graft.Schema.Relations

/-!
# Reports of commands

What each task says about the sources that it was given. Fields that have
nothing to say are left out.
-/

namespace Graft.Command

/-- Fields with a text each, without those that have none. -/
def optionalFields (fields : List (String × Option Text)) : List (Text × Value) :=
  fields.filterMap fun (name, t) => t.map fun t => (name.toList, .text t)

/-- What was found in a file. -/
structure FileReport where
  path : Text
  entity : Option Text := none
  error : Option Text := none
  deriving Repr

/-- What was found about a schema. -/
structure SchemaReport where
  name : Text
  entities : Nat
  error : Option Text := none
  deriving Repr

/-- What is wrong with sources, file by file and schema by schema. -/
structure CheckReport where
  files : List FileReport
  schemas : List SchemaReport
  deriving Repr

/-- The hash of a file, and its text with the hash written into it if
that is wanted. -/
structure HashReport where
  file : Text
  hash : Int32
  /-- The number of characters that the hash is made of. -/
  length : Nat
  stamped : Option Text := none

namespace FileReport

/-- The report as a value. -/
def toValue (r : FileReport) : Value :=
  .record (("path".toList, .text r.path) ::
    optionalFields [("entity", r.entity), ("error", r.error)])

end FileReport

namespace SchemaReport

/-- What is to be said about a schema. -/
def ofSchema (s : Schema) : SchemaReport :=
  let outcome := Schema.process s.entities
  { name := s.name, entities := outcome.result.length
    error := outcome.error?.map SourceError.message }

/-- The report as a value. -/
def toValue (r : SchemaReport) : Value :=
  .record ([("name".toList, .text r.name), ("entities".toList, .ofNat r.entities)] ++
    optionalFields [("error", r.error)])

end SchemaReport

namespace CheckReport

/-- The report on files, each with what reading it gave. -/
def ofFiles (files : List (Text × Except SourceError (Option Entity))) : CheckReport :=
  let report (path : Text) : Except SourceError (Option Entity) → FileReport
    | .ok e => { path, entity := e.map Entity.name }
    | .error e => { path, error := some e.message }
  let entities := files.filterMap fun (_, r) => r.toOption.bind id
  { files := files.map fun (path, r) => report path r
    schemas := (Schema.group entities).map SchemaReport.ofSchema }

/-- The number of files and schemas with something wrong. -/
def failed (r : CheckReport) : Nat :=
  (r.files.filter (·.error.isSome)).length + (r.schemas.filter (·.error.isSome)).length

/-- The report as a value. -/
def toValue (r : CheckReport) : Value :=
  .record [("files".toList, .ofList FileReport.toValue r.files),
    ("schemas".toList, .ofList SchemaReport.toValue r.schemas),
    ("failed".toList, .ofNat r.failed)]

end CheckReport

namespace HashReport

/-- The report on a file with a text. -/
def ofText (file text : Text) (stamped : Bool) : HashReport :=
  { file, hash := Code.structuralHash text, length := (Code.normalize text).length
    stamped := if stamped then some (Code.stamp (Text.trimEnd text)) else none }

/-- The report as a value. -/
def toValue (r : HashReport) : Value :=
  .record ([("file".toList, .text r.file), ("hash".toList, .integer r.hash.toInt),
    ("normalized_length".toList, .ofNat r.length)] ++ optionalFields [("stamped", r.stamped)])

end HashReport

end Graft.Command
