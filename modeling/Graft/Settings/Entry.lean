import Graft.Settings.Toml
import Graft.Text.Order

/-!
# Raw settings

Settings before it is known what they mean: a tree of named values, each with
the place that it comes from. Trees are layered: tables are put together field
by field, and any other value is replaced by the one of the later layer.
-/

namespace Graft

/-- Where a raw setting comes from. -/
inductive Origin where
  /-- A settings file. -/
  | file (path : Text)
  /-- The variables of the environment. -/
  | environment
  deriving DecidableEq, Repr, Inhabited

/-- A raw setting. Numbers of files have a sign, numbers of variables only when
they need one. -/
inductive Entry where
  | text (origin : Origin) (t : Text)
  | boolean (origin : Origin) (b : Bool)
  | integer (origin : Origin) (n : Int)
  | natural (origin : Origin) (n : Nat)
  | decimal (origin : Origin) (shown : Text)
  | list (origin : Origin) (items : List Entry)
  | table (origin : Origin) (fields : List (Text × Entry))
  deriving Inhabited

namespace Entry

/-- Where an entry comes from. -/
def origin : Entry → Origin
  | .text o _ => o
  | .boolean o _ => o
  | .integer o _ => o
  | .natural o _ => o
  | .decimal o _ => o
  | .list o _ => o
  | .table o _ => o

/-- Puts a field among fields that are sorted by name; a field of the same
name is replaced. -/
def put (name : Text) (e : Entry) : List (Text × Entry) → List (Text × Entry)
  | [] => [(name, e)]
  | (n, v) :: rest =>
    if name == n then (name, e) :: rest
    else if Text.before name n then (name, e) :: (n, v) :: rest
    else (n, v) :: put name e rest

mutual

/-- An entry with a later one laid over it. -/
def overlay (old : Entry) : Entry → Entry
  | .table o fields =>
    match old with
    | .table _ below => .table o (overlayFields below fields)
    | _ => .table o (overlayFields [] fields)
  | e => e

/-- Fields with later ones laid over them. -/
def overlayFields (below : List (Text × Entry)) : List (Text × Entry) → List (Text × Entry)
  | [] => below
  | (name, e) :: rest =>
    let e := match below.lookup name with
      | some old => overlay old e
      | none => e
    overlayFields (put name e below) rest

end

mutual

/-- The entry that a value of a settings file stands for. A date or a time is a
table of its own, which no setting has a use for. -/
def ofToml (o : Origin) : Toml → Entry
  | .text t => .text o t
  | .integer n => .integer o n
  | .decimal shown => .decimal o shown
  | .boolean b => .boolean o b
  | .moment _ => .table o []
  | .list items => .list o (ofItems o items)
  | .table _ fields => .table o (ofFields o [] fields)
  | .tables items => .list o (ofTables o items)

/-- The entries that values stand for. -/
def ofItems (o : Origin) : List Toml → List Entry
  | [] => []
  | v :: rest => ofToml o v :: ofItems o rest

/-- The entries that fields stand for, put among others. -/
def ofFields (o : Origin) (done : List (Text × Entry)) : List (Text × Toml) → List (Text × Entry)
  | [] => done
  | (name, v) :: rest => ofFields o (put name (ofToml o v) done) rest

/-- The entries that tables stand for. -/
def ofTables (o : Origin) : List (List (Text × Toml)) → List Entry
  | [] => []
  | fields :: rest => .table o (ofFields o [] fields) :: ofTables o rest

end

end Entry

end Graft
