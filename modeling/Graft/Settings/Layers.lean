import Graft.Files.Path
import Graft.Settings.Reading
import Graft.Settings.VariableFile

/-!
# Layers of settings

Settings come from several places, and what comes later is laid over what comes
before: the defaults, the file of the user, the file of the project, and the
variables of the environment. A file that is not there is no layer; one that
cannot be read is an error.
-/

namespace Graft

open Files Variables

/-- Why settings cannot be loaded. -/
inductive LoadError where
  /-- A settings file that cannot be read. -/
  | unreadable (path : Text)
  /-- A raw setting of the wrong kind. -/
  | unfit (e : EntryError)
  /-- A setting with a value that it must not have. -/
  | refused (e : SettingError)
  deriving DecidableEq, Repr

namespace Origin

/-- How a key is spelled at its origin: in the names of variables it
is in capitals. -/
def spellKey : Origin → List Text → Text
  | .file _, path => Text.join ['.'] ("default".toList :: path)
  | .environment, path => (Text.join ['.'] path).map Char.toUpper

/-- An origin as it stands in messages. -/
def display : Origin → Text
  | .file path => path ++ " TOML file"
  | .environment => "`ENTIGEN_` environment variable(s)"

end Origin

/-- What is wrong with a raw setting, and where. -/
def EntryError.display (e : EntryError) : Text :=
  e.reason ++ " for key \"" ++ e.origin.spellKey e.path ++ "\" in " ++ e.origin.display

namespace LoadError

/-- The cause of an error in loading settings, if it has one apart from the
error itself. -/
def cause? : LoadError → Option Text
  | .unreadable path => some ("not a settings file in " ++ (Origin.file path).display)
  | .unfit e => some e.display
  | .refused _ => none

/-- The wording of an error in loading settings. -/
def message (e : LoadError) : Text :=
  match e with
  | .refused r => r.message
  | _ => "Configuration error: " ++ e.cause?.getD []

end LoadError

namespace Settings

/-- The start of the names of variables that hold settings. -/
def variablePrefix : Text := "ENTIGEN_"

/-- The usual settings file of a project. -/
def projectFile : Text := ".entigen/config.toml"

/-- The folder with the user's settings of all programs. -/
def userFolder? (vs : List Variable) : Option Text :=
  match vs.lookup "XDG_CONFIG_HOME".toList with
  | some ('/' :: path) => some ('/' :: path)
  | _ =>
    match vs.lookup "HOME".toList with
    | some (c :: home) => some (Path.join (c :: home) ".config")
    | _ => none

/-- The user's settings file. -/
def userFile? (vs : List Variable) : Option Text :=
  (userFolder? vs).map fun folder => Path.join folder "entigen/config.toml"

/-- The raw settings of a file. -/
def fileLayer (d : Disk) (path : Text) : Except LoadError Entry :=
  let shown := Path.shown d.here path
  match (d.read path).toOption.bind Toml.read? with
  | none => .error (.unreadable shown)
  | some fields => .ok (Entry.ofToml (.file shown) (.table .header fields))

/-- The variables of the environment with those of the nearest
file of variables. -/
def withVariableFile (d : Disk) (vs : List Variable) : List Variable :=
  match (d.nearestFile? ".env").bind fun path => (d.read path).toOption with
  | some content => VariableFile.addTo vs content
  | none => vs

/-- The settings files there are, the later ones to be laid over the
earlier ones. A project file that was chosen is looked for in the folders
around this one too. -/
def files (d : Disk) (vs : List Variable) (chosen : Option Text) : List Text :=
  let user := (userFile? vs).filter d.isFile
  let own := match chosen with
    | some path => d.nearestFile? path
    | none => if (d.find? projectFile).isSome then d.nearestFile? projectFile else none
  user.toList ++ own.toList

/-- The settings of the user, of the project, and of the
environment, in layers. -/
def load (d : Disk) (vs : List Variable) (chosen : Option Text) : Except LoadError Settings := do
  let layers ← (files d vs chosen).mapM (fileLayer d)
  let raw := (layers ++ [tableOf variablePrefix vs]).foldl Entry.overlay (.table .environment [])
  let settings ← (ofEntry raw).mapError LoadError.unfit
  let _ ← (check settings).mapError LoadError.refused
  pure settings

end Settings

end Graft
