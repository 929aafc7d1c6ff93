import Graft.Entity.Arguments
import Graft.Entity.Order

/-!
# The annotations of entities

The shapes of the annotations that declare an entity, its properties
and its relations.
-/

namespace Graft.Entity

/-- What the annotation of an entity says. -/
structure EntityMark where
  schema : Option Text
  active : Bool
  generateConstructors : Bool
  generateAccessors : Bool
  deriving DecidableEq, Repr

/-- What the annotation of an index says. -/
structure IndexMark where
  /-- The indexed properties, as a list for an index of the whole table. -/
  value : Option Text
  name : Option Text
  unique : Bool
  deriving DecidableEq, Repr

/-- What the annotation of a table says. -/
structure TableMark where
  name : Option Text
  indexes : List IndexMark
  deriving DecidableEq, Repr

/-- What the annotation of a key property says. -/
structure IdMark where
  autoincrement : Bool
  assignable : Bool
  deriving DecidableEq, Repr

/-- What the annotation of a converted property says, by qualified names. -/
structure ConvertMark where
  converter : Text
  dbType : Text
  deriving DecidableEq, Repr

/-- A pair of properties that join two entities. -/
structure JoinPropertyMark where
  name : Text
  referencedName : Text
  deriving DecidableEq, Repr

/-- What the annotation of a relation says. -/
structure RelationMark where
  idProperty : Option Text
  backlink : Option Text
  joinProperties : List JoinPropertyMark
  deriving DecidableEq, Repr

/-- What the annotation of a relation over a joining entity says. -/
structure JoinEntityMark where
  entity : Text
  sourceProperty : Text
  targetProperty : Text
  deriving DecidableEq, Repr

/-- An ordered property list as the value of an argument. -/
def readOrderArgument (spec : Text) : Except ArgumentError (List OrderedProperty) :=
  match readOrder spec with
  | .ok properties => .ok properties
  | .error e => .error (.invalid "value" e.message)

/-- Whether a number can be a hash. -/
def fitsHash (n : Int) : Bool := Int32.minValue.toInt ≤ n && n ≤ Int32.maxValue.toInt

namespace Shape

/-- A shape whose arguments do not matter. -/
def marker (name : Text) : Shape Unit := ⟨name, fun _ => .ok ()⟩

/-- A field that is not stored. -/
def transient : Shape Unit := marker "Transient"

/-- A declaration that is kept by hand. -/
def keep : Shape Unit := marker "Keep"

/-- A property or relation with unique values. -/
def unique : Shape Unit := marker "Unique"

/-- A class that is an entity. -/
def entity : Shape EntityMark where
  name := "Entity"
  read g := do
    let schema ← g.text? "schema"
    let active ← g.boolean "active" false
    let generateConstructors ← g.boolean "generateConstructors" true
    let generateAccessors ← g.boolean "generateGettersSetters" true
    pure { schema, active, generateConstructors, generateAccessors }

/-- An index, of a property or of a table. -/
def index : Shape IndexMark where
  name := "Index"
  read g := do
    let value ← g.text? "value"
    let name ← g.text? "name"
    let unique ← g.boolean "unique" false
    pure { value, name, unique }

/-- The table of an entity. -/
def table : Shape TableMark where
  name := "Table"
  read g := do
    let name ← g.text? "name"
    let indexes ← g.nested index "indexes"
    pure { name, indexes }

/-- The key property. -/
def id : Shape IdMark where
  name := "Id"
  read g := do
    let autoincrement ← g.boolean "autoincrement" false
    let assignable ← g.boolean "assignable" false
    pure { autoincrement, assignable }

/-- The number that an entity or a property keeps when it is renamed; zero asks
for a new one. -/
def uid : Shape Int where
  name := "Uid"
  read g := (g.integer? "value").map fun n => n.getD 0

/-- The name of a table or a column. -/
def nameInDb : Shape Text where
  name := "NameInDb"
  read g := do
    match ← g.text? "value" with
    | some name =>
      if Text.isBlank name then .error (.missing "a non-empty name is required") else .ok name
    | none => .error (.missing "a non-empty name is required")

/-- A property that is stored in converted form. -/
def convert : Shape ConvertMark where
  name := "Convert"
  read g := do
    let converter? ← g.class? "converter"
    let dbType? ← g.class? "dbType"
    match converter?, dbType? with
    | some converter, some dbType => .ok { converter, dbType }
    | none, some _ => .error (.missing "'converter' must be set together with 'dbType'")
    | some _, none => .error (.missing "'dbType' must be set together with 'converter'")
    | none, none => .error (.missing "both 'converter' and 'dbType' are required")

/-- A pair of properties that join two entities. -/
def joinProperty : Shape JoinPropertyMark where
  name := "JoinProperty"
  read g := do
    let name? ← g.text? "name"
    let referencedName? ← g.text? "referencedName"
    match name?, referencedName? with
    | some name, some referencedName => .ok { name, referencedName }
    | _, _ => .error (.missing "both 'name' and 'referencedName' are required")

/-- A relation. -/
def relation : Shape RelationMark where
  name := "Relation"
  read g := do
    let idProperty ← g.text? "idProperty"
    let backlink ← g.text? "backlink"
    let joinProperties ← g.nested joinProperty "joinProperties"
    let unlessEmpty := Option.filter fun t : Text => !t.isEmpty
    pure { idProperty := unlessEmpty idProperty, backlink := unlessEmpty backlink, joinProperties }

/-- A relation over a joining entity. -/
def joinEntity : Shape JoinEntityMark where
  name := "JoinEntity"
  read g := do
    let entity? ← g.class? "entity"
    let source? ← g.text? "sourceProperty"
    let target? ← g.text? "targetProperty"
    match entity?, source?, target? with
    | some entity, some sourceProperty, some targetProperty =>
      .ok { entity, sourceProperty, targetProperty }
    | _, _, _ =>
      .error (.missing "'entity', 'sourceProperty' and 'targetProperty' are all required")

/-- The order of a to-many relation; without one, the order is that of the
target's key. -/
def orderBy : Shape (List OrderedProperty) where
  name := "OrderBy"
  read g := do
    match ← g.text? "value" with
    | some spec => if Text.isBlank spec then .ok [] else readOrderArgument spec
    | none => .ok []

/-- A generated declaration, with the hash recorded for it. -/
def generated : Shape (Option Int32) where
  name := "Generated"
  read g := do
    match ← g.integer? "hash" with
    | none => .ok none
    | some n =>
      if fitsHash n then .ok (some (Int32.ofInt n))
      else .error (.invalid "hash" (Text.ofInt n ++ " does not fit a 32-bit hash"))

end Shape

end Graft.Entity
