import Graft.Entity.Basic
import Graft.SourceError

/-!
# Relations of a schema

Entities of one schema may refer to one another. First every to-one relation
gets a property for the key of its target, in all entities; then every relation
is held against the entities there are. When an entity cannot be completed, the
entities before it stay completed.
-/

namespace Graft.Schema

open Entity

/-- The property of a name in a list with an index, if it had none. -/
def indexProperty (name : Text) : List Property → List Property
  | [] => []
  | p :: rest =>
    if p.name == name then { p with index := some (p.index.getD {}) } :: rest
    else p :: indexProperty name rest

/-- The property that is made for the key of a relation's target. -/
def foreignKeyProperty (r : ToOne) (var : Variable) : Property :=
  { var
    index := some {}
    isNotNull := r.isNotNull
    isFieldAccessible := false
    virtualTargetName := some (if r.isHandle then r.var.name ++ "ToOne".toList else r.var.name) }

/-- The place of a to-one relation. -/
def toOneLocation (entityName : Text) (r : ToOne) : Location :=
  ⟨entityName, some r.var.name, r.source.map Java.Span.line⟩

/-- The place of a to-many relation. -/
def toManyLocation (entityName : Text) (r : ToMany) : Location :=
  ⟨entityName, some r.var.name, r.source.map Java.Span.line⟩

/-- The properties of an entity with one for the key of a relation's target. -/
def addForeignKey (entityName : Text) (properties : List Property) (r : ToOne) :
    Except SourceError (List Property) :=
  if properties.any (·.name == r.foreignKeyName) then
    .ok (indexProperty r.foreignKeyName properties)
  else match Variable.ofName? (.primitive "long") r.foreignKeyName with
    | some var => .ok (properties ++ [foreignKeyProperty r var])
    | none =>
      .error (.invalidValue (toOneLocation entityName r) "Relation"
        ("idProperty: " ++ Java.invalidIdentifierMessage r.foreignKeyName))

/-- The outcome of work that changes a value and may stop half way: the value it
leaves behind, and the error that stopped it. -/
structure Outcome (α : Type) where
  result : α
  error? : Option SourceError := none
  deriving Inhabited

/-- The relations of an entity with their keys named, and its properties
with those keys. -/
def completeRelations (entityName : Text) :
    List ToOne → List Property → Outcome (List ToOne × List Property)
  | [], properties => ⟨([], properties), none⟩
  | r :: rest, properties =>
    match addForeignKey entityName properties r with
    | .error e => ⟨(r :: rest, properties), some e⟩
    | .ok properties =>
      let later := completeRelations entityName rest properties
      let named := { r with foreignKey := some r.foreignKeyName }
      ⟨(named :: later.result.1, later.result.2), later.error?⟩

/-- An entity with a property for the target's key of each of its
to-one relations. -/
def completeEntity (e : Entity) : Outcome Entity :=
  let done := completeRelations e.name e.toOnes e.properties
  ⟨{ e with toOnes := done.result.1, properties := done.result.2 }, done.error?⟩

/-- Entities completed one by one, up to the first that cannot be. -/
def completeEntities : List Entity → Outcome (List Entity)
  | [] => ⟨[], none⟩
  | e :: rest =>
    let done := completeEntity e
    match done.error? with
    | some error => ⟨done.result :: rest, some error⟩
    | none =>
      let later := completeEntities rest
      ⟨done.result :: later.result, later.error?⟩

/-- Whether a qualified name is that of an entity. -/
def isKnown (schema : List Entity) (name : Text) : Bool := schema.any (·.qualifiedName == name)

/-- The error for a relation to something that the schema does not have. -/
def unresolved (e : Entity) (location : Location) (target : Text) : SourceError :=
  .unresolvedTarget location target e.schemaName

/-- The target of a to-one relation must be an entity of the schema. -/
def checkToOne (schema : List Entity) (e : Entity) (r : ToOne) : Except SourceError Unit :=
  if isKnown schema r.target.qualifiedName then .ok ()
  else .error (unresolved e (toOneLocation e.name r) r.target.qualifiedName)

/-- What is wrong with a pair of joining properties. -/
def joinFault? (e target : Entity) (j : JoinColumns) : Option Text :=
  if !e.hasProperty j.source then
    some ("'" ++ j.source ++ "' is not a property of " ++ e.name)
  else if !target.hasProperty j.target then
    some ("'" ++ j.target ++ "' is not a property of " ++ target.name)
  else none

/-- The other entity must have what a backlink names: a to-one
relation or a property. -/
def checkBacklink (e target : Entity) (r : ToMany) : Except SourceError Unit :=
  match r.backlink with
  | none => .ok ()
  | some backlink =>
    if target.toOnes.any (·.var.name == backlink) || target.hasProperty backlink then .ok ()
    else .error (unresolved e (toManyLocation e.name r) (target.name ++ '.' :: backlink))

/-- A joining entity must be one of the schema. -/
def checkJoinEntity (schema : List Entity) (e : Entity) (r : ToMany) : Except SourceError Unit :=
  match r.joinEntity with
  | none => .ok ()
  | some join =>
    if isKnown schema join.entity then .ok ()
    else .error (unresolved e (toManyLocation e.name r) join.entity)

/-- Joining properties must be properties of the two entities. -/
def checkJoinColumns (e target : Entity) (r : ToMany) : Except SourceError Unit :=
  match r.joinColumns.findSome? (joinFault? e target) with
  | none => .ok ()
  | some reason => .error (.invalidValue (toManyLocation e.name r) "JoinProperty" reason)

/-- A to-many relation needs a target in the schema and one way of linking,
which must be sound. -/
def checkToMany (schema : List Entity) (e : Entity) (r : ToMany) : Except SourceError Unit :=
  match schema.find? (·.qualifiedName == r.target.qualifiedName) with
  | none => .error (unresolved e (toManyLocation e.name r) r.target.qualifiedName)
  | some target =>
    if r.linkCount ≠ 1 then .error (.unclearLink (toManyLocation e.name r) r.linkCount)
    else do
      checkBacklink e target r
      checkJoinEntity schema e r
      checkJoinColumns e target r

/-- Every relation of an entity must be sound. -/
def checkEntity (schema : List Entity) (e : Entity) : Except SourceError Unit := do
  e.toOnes.forM (checkToOne schema e)
  e.toManys.forM (checkToMany schema e)

/-- Completes the entities of a schema and checks their relations. -/
def process (entities : List Entity) : Outcome (List Entity) :=
  let done := completeEntities entities
  match done.error? with
  | some _ => done
  | none =>
    match done.result.forM (checkEntity done.result) with
    | .ok () => done
    | .error e => ⟨done.result, some e⟩

/-- Puts an entity into the schemas that are there, which are sorted by name. -/
def addEntity (e : Entity) : List Schema → List Schema
  | [] => [⟨e.schemaName, [e]⟩]
  | s :: rest =>
    if s.name == e.schemaName then { s with entities := s.entities ++ [e] } :: rest
    else if Text.before e.schemaName s.name then ⟨e.schemaName, [e]⟩ :: s :: rest
    else s :: addEntity e rest

/-- Entities grouped into schemas, which are sorted by name; the entities of a
schema keep their order. -/
def group (entities : List Entity) : List Schema := entities.foldl (fun ss e => addEntity e ss) []

end Graft.Schema
