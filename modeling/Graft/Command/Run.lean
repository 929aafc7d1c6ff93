import Graft.Command.Arguments
import Graft.Command.Report
import Graft.Entity.Reading
import Graft.Files.Walk
import Graft.Settings.Layers

/-!
# Running commands

What a command line does in a place: with the files that are there and the
variables that are set. All it does is to say something, so that running it is a
function of the words and the place.
-/

namespace Graft.Command

open Files

/-- Where a command is run. -/
structure Place where
  disk : Disk
  environment : List Variables.Variable

/-- What comes of a command. -/
inductive Outcome where
  /-- It was refused, or asked to say something about the program. -/
  | usage (kind : Usage)
  | done (output : Text)
  /-- It failed, having said something first perhaps. -/
  | failed (output message : Text)
  deriving DecidableEq, Repr

/-- The number that a command ends with. -/
def Outcome.status : Outcome → Nat
  | .usage kind => if kind.isAnswer then 0 else 2
  | .done _ => 0
  | .failed _ _ => 1

/-- An error as it is said to the user. -/
def complaint (message : Text) : Text := "entigen error: " ++ message

/-- Output and an error; the error is worded together with what it comes
from. -/
abbrev Result := Except (Text × Text) Text

/-- An error and what it comes from. -/
def caused (message : Text) : Option Text → Text
  | none => message
  | some cause => message ++ ": " ++ cause

/-- A report as it is printed. -/
def printed (form : ReportForm) (report : Value) : Text := form.render report ++ ['\n']

namespace Place

/-- The settings for a request: with a file of its own, or else the usual ones,
for which the file of variables counts too. -/
def settings (p : Place) (chosen : Option Text) : Except (Text × Text) Settings :=
  let wrap (what : Text) (e : LoadError) : Text × Text :=
    ([], what ++ ": " ++ caused e.message e.cause?)
  match chosen with
  | some path =>
    (Settings.load p.disk p.environment (some path)).mapError
      (wrap ("failed to load config from " ++ path))
  | none =>
    (Settings.load p.disk (Settings.withVariableFile p.disk p.environment) none).mapError
      (wrap "failed to load entigen configuration")

/-- The rules of the user for files that are not to be looked at. -/
def userIgnoreRules (p : Place) : List IgnoreRule :=
  match (Settings.userFolder? p.environment).map fun folder =>
    p.disk.read (Path.join folder "git/ignore") with
  | some (.ok content) => IgnoreRule.ofText content
  | _ => []

/-- The source files that paths name. -/
def sources (p : Place) (paths : List Text) : Except (Text × Text) (List Text) :=
  (p.disk.sources p.userIgnoreRules paths).mapError fun path =>
    ([], "no such file or directory: " ++ path)

/-- The entity of a source file. -/
def readEntity (p : Place) (settings : Settings) (path : Text) :
    Except SourceError (Option Entity) := do
  let source ← (p.disk.read path).mapError fun fault => .inaccessible fault.reason
  let siblings ← (p.disk.siblings path).mapError fun fault => .inaccessible fault.reason
  Entity.ofSource? source path siblings settings.reader settings.annotations

end Place

/-- An error of a source together with what it comes from. -/
def explain (e : SourceError) : Text × Text :=
  ([], caused e.message (match e with
    | .inaccessible reason => some reason
    | _ => none))

/-- A schema with its relations settled. -/
def settleSchema (s : Schema) : Except SourceError Schema :=
  let outcome := Schema.process s.entities
  match outcome.error? with
  | some e => .error e
  | none => .ok { s with entities := outcome.result }

namespace Place

/-- The schemas of source files with their relations settled, up to
the first error. -/
def readSchemas (p : Place) (settings : Settings) (files : List Text) :
    Except SourceError (List Schema) := do
  let entities ← files.mapM (p.readEntity settings)
  (Schema.group (entities.filterMap id)).mapM settleSchema

/-- What is wrong with source files, with each of them and with the schemas of
those that can be read. -/
def reportOn (p : Place) (settings : Settings) (files : List Text) : CheckReport :=
  .ofFiles (files.map fun f => (f, p.readEntity settings f))

end Place

/-- Shows the entities of sources, schema by schema. -/
def inspect (p : Place) (settings : Settings) (form : ReportForm) (paths : List Text) : Result := do
  let files ← p.sources paths
  let schemas ← (p.readSchemas settings files).mapError explain
  pure (printed form (.ofList Schema.toValue schemas))

/-- Reports what is wrong with sources. -/
def check (p : Place) (settings : Settings) (form : ReportForm) (paths : List Text) : Result := do
  let files ← p.sources paths
  let report := p.reportOn settings files
  let output := printed form report.toValue
  if report.failed = 0 then pure output
  else throw (output, Text.ofNat report.failed ++ " problem(s) found")

/-- Shows the hash of a file. -/
def hash (p : Place) (form : ReportForm) (file : Text) (stamp : Bool) : Result := do
  let text ← (p.disk.read file).mapError fun fault =>
    ([], "failed to read " ++ file ++ ": " ++ fault.reason)
  pure (printed form (HashReport.ofText file text stamp).toValue)

/-- Does what a request asks for. -/
def perform (p : Place) (r : Request) : Result := do
  let settings ← p.settings r.settings
  match r.work with
  | .inspect paths => inspect p settings r.form paths
  | .check paths => check p settings r.form paths
  | .hash file stamp => hash p r.form file stamp

/-- What comes of the words of a command line. -/
def run (p : Place) (words : List Text) : Outcome :=
  match Request.ofWords words with
  | .error kind => .usage kind
  | .ok r =>
    match perform p r with
    | .ok output => .done output
    | .error (output, message) => .failed output message

end Graft.Command
