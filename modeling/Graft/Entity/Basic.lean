import Graft.Code.Hash
import Graft.Entity.Order
import Graft.Java.Identifier
import Graft.Java.Scope

/-!
# Entities

An entity is a class whose objects are stored: its properties, its relations to
other entities, and the members that are not stored but may be generated. A
schema is a list of entities that may refer to one another.
-/

namespace Graft

open Java

namespace Entity

/-- A name with its type: a field, a parameter or a relation. -/
structure Variable where
  type : TypeRef
  name : Text
  deriving Inhabited

/-- The variable of a type and a name, if the name can be used. -/
def Variable.ofName? (type : TypeRef) (name : Text) : Option Variable :=
  if isIdentifier name then some { type, name } else none

/-- Who looks after a member. -/
inductive Provenance where
  /-- It is written by hand and not marked. -/
  | unmarked
  /-- It is marked to be kept as it is. -/
  | keep
  /-- It is generated; the hash of its code may be recorded. -/
  | generated (hash : Option Int32)
  deriving DecidableEq, Repr, Inhabited

namespace Provenance

/-- The hash that the code of a generated member must have. -/
def verifiableHash? : Provenance → Option Int32
  | .generated (some h) => if h = Code.uncheckedHash then none else some h
  | _ => none

/-- Whether the member is generated. -/
def isGenerated : Provenance → Bool
  | .generated _ => true
  | _ => false

end Provenance

/-- What is said of the key property. -/
structure IdInfo where
  autoincrement : Bool
  assignable : Bool
  deriving DecidableEq, Repr, Inhabited

/-- The index of a property. -/
structure PropertyIndex where
  name : Option Text := none
  isUnique : Bool := false
  deriving DecidableEq, Repr, Inhabited

/-- The classes that convert a property, by qualified names. -/
structure CustomType where
  converterClass : Text
  dbType : Text
  deriving DecidableEq, Repr, Inhabited

/-- A property of an entity. -/
structure Property where
  var : Variable
  source : Option Span := none
  id : Option IdInfo := none
  index : Option PropertyIndex := none
  isNotNull : Bool := false
  dbColumnName : Option Text := none
  uid : Option Int := none
  customType : Option CustomType := none
  isUnique : Bool := false
  isFieldAccessible : Bool := true
  /-- The relation that the property was made for, if it is not
  declared itself. -/
  virtualTargetName : Option Text := none
  deriving Inhabited

/-- The name of a property. -/
def Property.name (p : Property) : Text := p.var.name

/-- Whether the property stands in the source. -/
def Property.isDeclared (p : Property) : Bool := p.virtualTargetName.isNone

/-- A field that is not stored. -/
structure TransientField where
  var : Variable
  source : Option Span
  provenance : Provenance
  deriving Inhabited

/-- A method. -/
structure Method where
  name : Text
  parameters : List Variable
  returnType : Text
  source : Option Span
  provenance : Provenance
  deriving Inhabited

/-- A constructor. -/
structure Constructor where
  parameters : List Variable
  source : Option Span
  provenance : Provenance
  deriving Inhabited

/-- A parameter list as it stands in the name of a member. -/
def displayParameters (parameters : List Variable) : Text :=
  "(" ++ Text.join ", ".toList (parameters.map fun p => p.type.spelling) ++ ")"

/-- The name of a method with the types of its parameters. -/
def Method.display (m : Method) : Text := m.name ++ displayParameters m.parameters

/-- The name of a constructor with the types of its parameters. -/
def Constructor.display (c : Constructor) : Text := "<init>" ++ displayParameters c.parameters

/-- A relation to one other entity. -/
structure ToOne where
  var : Variable
  target : TypeRef
  /-- Whether the field holds a handle and not the other object itself. -/
  isHandle : Bool
  foreignKey : Option Text
  dbColumnName : Option Text
  isNotNull : Bool
  isUnique : Bool
  source : Option Span
  deriving Inhabited

/-- The property that holds the key of the other entity: the one named in the
source, or the name of the field and `Id`. -/
def ToOne.foreignKeyName (r : ToOne) : Text := r.foreignKey.getD (r.var.name ++ "Id")

/-- Two properties that must be equal in joined entities. -/
structure JoinColumns where
  source : Text
  target : Text
  deriving DecidableEq, Repr, Inhabited

/-- An entity that joins two others, and its properties that refer to them. -/
structure JoinEntity where
  entity : Text
  sourceProperty : Text
  targetProperty : Text
  deriving DecidableEq, Repr, Inhabited

/-- A relation to many other entities. -/
structure ToMany where
  var : Variable
  target : TypeRef
  backlink : Option Text
  joinColumns : List JoinColumns
  joinEntity : Option JoinEntity
  order : List OrderedProperty
  source : Option Span
  deriving Inhabited

/-- How many ways of linking a to-many relation names. -/
def ToMany.linkCount (r : ToMany) : Nat :=
  r.backlink.isSome.toNat + (!r.joinColumns.isEmpty).toNat + r.joinEntity.isSome.toNat

/-- An index of a table over several properties. -/
structure TableIndex where
  name : Option Text
  properties : List OrderedProperty
  isUnique : Bool
  deriving DecidableEq, Repr, Inhabited

/-- A type declared inside an entity. -/
structure NestedType where
  name : Text
  isStatic : Bool
  deriving DecidableEq, Repr, Inhabited

/-- What the body of a class contributes to an entity. -/
structure Members where
  properties : List Property := []
  transientFields : List TransientField := []
  constructors : List Constructor := []
  methods : List Method := []
  toOnes : List ToOne := []
  toManys : List ToMany := []
  nestedTypes : List NestedType := []
  /-- Where the last field declaration stands. -/
  lastField : Option Span := none
  /-- The first annotation that marks a field as not null, as written. -/
  notNullSpelling : Option Text := none
  deriving Inhabited

/-- What two parts of a body contribute together, the first of them standing
before the second. -/
def Members.append (a b : Members) : Members where
  properties := a.properties ++ b.properties
  transientFields := a.transientFields ++ b.transientFields
  constructors := a.constructors ++ b.constructors
  methods := a.methods ++ b.methods
  toOnes := a.toOnes ++ b.toOnes
  toManys := a.toManys ++ b.toManys
  nestedTypes := a.nestedTypes ++ b.nestedTypes
  lastField := b.lastField.or a.lastField
  notNullSpelling := a.notNullSpelling.or b.notNullSpelling

instance : Append Members := ⟨Members.append⟩

end Entity

open Entity in
/-- An entity, as its source declares it. -/
structure Entity extends Members where
  name : Text
  schemaName : Text
  packageName : Text
  isActive : Bool
  tableName : Option Text
  uid : Option Int
  /-- Whether the whole class is marked to be kept as it is. -/
  isKept : Bool
  generateConstructors : Bool
  generateAccessors : Bool
  indexes : List TableIndex := []
  /-- The path of the source file. -/
  path : Text
  sourceText : Text
  deriving Inhabited

namespace Entity

/-- The name of an entity with its package. -/
def qualifiedName (e : Entity) : Text :=
  if e.packageName.isEmpty then e.name else e.packageName ++ '.' :: e.name

/-- The property of a name. -/
def property? (e : Entity) (name : Text) : Option Property :=
  e.properties.find? (·.name == name)

/-- Whether there is a property of a name. -/
def hasProperty (e : Entity) (name : Text) : Bool := e.properties.any (·.name == name)

/-- The key property. -/
def idProperty? (e : Entity) : Option Property := e.properties.find? (·.id.isSome)

/-- The type of a name declared inside the entity. -/
def nestedType? (e : Entity) (name : Text) : Option NestedType :=
  e.nestedTypes.find? (·.name == name)

end Entity

/-- Entities that belong together. -/
structure Schema where
  name : Text
  entities : List Entity
  deriving Inhabited

/-- The entity of a simple name. -/
def Schema.entity? (s : Schema) (name : Text) : Option Entity := s.entities.find? (·.name == name)

end Graft
