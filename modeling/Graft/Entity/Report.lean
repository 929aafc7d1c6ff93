import Graft.Entity.Basic
import Graft.Output.Value
import Graft.Text.Units

/-!
# Reports on entities

An entity as a document value: every field of every part in a fixed order, and
places as byte offsets into the source.
-/

namespace Graft.Entity

open Java

/-- A record with the fields in the order given. -/
def record (fields : List (String × Value)) : Value :=
  .record (fields.map fun (name, v) => (name.toList, v))

mutual

/-- A type. Its arguments are left out when there are none. -/
def typeValue : TypeRef → Value
  | ⟨qualifiedName, isPrimitive, spelling, arguments⟩ =>
    let common : List (String × Value) :=
      [("qualified_name", .text qualifiedName), ("is_primitive", .boolean isPrimitive),
        ("original_spelling", .text spelling)]
    match arguments with
    | [] => record common
    | a :: rest => record (common ++ [("type_arguments", .list (typeValue a :: typeValues rest))])

/-- Types one by one. -/
def typeValues : List TypeRef → List Value
  | [] => []
  | t :: rest => typeValue t :: typeValues rest

end

/-- A variable. -/
def Variable.toValue (v : Variable) : Value :=
  record [("ty", typeValue v.type), ("name", .text v.name)]

/-- A place in a source, in bytes. -/
def spanValue (source : Text) (s : Span) : Value :=
  record [("line", .ofNat s.line), ("start", .ofNat (source.byteOffset s.start)),
    ("end", .ofNat (source.byteOffset s.stop))]

/-- A place in a source, or null. -/
def placeValue (source : Text) (s : Option Span) : Value := .ofOption (spanValue source) s

/-- Who looks after a member. -/
def Provenance.toValue : Provenance → Value
  | .unmarked => record [("kind", .text "none")]
  | .keep => record [("kind", .text "keep")]
  | .generated hash =>
    record [("kind", .text "generated"), ("hash", .ofOption (fun h => .integer h.toInt) hash)]

/-- What is said of a key. -/
def IdInfo.toValue (i : IdInfo) : Value :=
  record [("autoincrement", .boolean i.autoincrement), ("assignable", .boolean i.assignable)]

/-- The index of a property. -/
def PropertyIndex.toValue (i : PropertyIndex) : Value :=
  record [("name", .ofText? i.name), ("is_unique", .boolean i.isUnique)]

/-- The classes that convert a property. -/
def CustomType.toValue (c : CustomType) : Value :=
  record [("converter_class", .text c.converterClass), ("db_type", .text c.dbType)]

/-- A property. -/
def Property.toValue (source : Text) (p : Property) : Value :=
  record [("variable", p.var.toValue), ("source", placeValue source p.source),
    ("id", .ofOption IdInfo.toValue p.id), ("index", .ofOption PropertyIndex.toValue p.index),
    ("is_not_null", .boolean p.isNotNull), ("db_column_name", .ofText? p.dbColumnName),
    ("uid", .ofOption Value.integer p.uid),
    ("custom_type", .ofOption CustomType.toValue p.customType), ("is_unique", .boolean p.isUnique),
    ("is_field_accessible", .boolean p.isFieldAccessible),
    ("virtual_target_name", .ofText? p.virtualTargetName)]

/-- A field that is not stored. -/
def TransientField.toValue (source : Text) (f : TransientField) : Value :=
  record [("variable", f.var.toValue), ("source", placeValue source f.source),
    ("hint", f.provenance.toValue)]

/-- A constructor. -/
def Constructor.toValue (source : Text) (c : Constructor) : Value :=
  record [("parameters", .ofList Variable.toValue c.parameters),
    ("source", placeValue source c.source), ("hint", c.provenance.toValue)]

/-- A method. -/
def Method.toValue (source : Text) (m : Method) : Value :=
  record [("name", .text m.name), ("parameters", .ofList Variable.toValue m.parameters),
    ("return_type", .text m.returnType), ("source", placeValue source m.source),
    ("hint", m.provenance.toValue)]

/-- A to-one relation. -/
def ToOne.toValue (source : Text) (r : ToOne) : Value :=
  record [("variable", r.var.toValue), ("target", typeValue r.target),
    ("is_handle", .boolean r.isHandle), ("foreign_key_property_name", .ofText? r.foreignKey),
    ("db_column_name", .ofText? r.dbColumnName), ("is_not_null", .boolean r.isNotNull),
    ("is_unique", .boolean r.isUnique), ("source", placeValue source r.source)]

/-- A pair of properties that join entities. -/
def JoinColumns.toValue (j : JoinColumns) : Value :=
  record [("source", .text j.source), ("target", .text j.target)]

/-- A joining entity. -/
def JoinEntity.toValue (j : JoinEntity) : Value :=
  record [("entity", .text j.entity), ("source_property", .text j.sourceProperty),
    ("target_property", .text j.targetProperty)]

/-- An ordered property. -/
def OrderedProperty.toValue (p : OrderedProperty) : Value :=
  record [("name", .text p.name), ("order", .text p.direction.name)]

/-- A to-many relation. -/
def ToMany.toValue (source : Text) (r : ToMany) : Value :=
  record [("variable", r.var.toValue), ("target", typeValue r.target),
    ("backlink_property_name", .ofText? r.backlink),
    ("join_column_pairs", .ofList JoinColumns.toValue r.joinColumns),
    ("join_entity", .ofOption JoinEntity.toValue r.joinEntity),
    ("order", .ofList OrderedProperty.toValue r.order), ("source", placeValue source r.source)]

/-- An index of a table. -/
def TableIndex.toValue (i : TableIndex) : Value :=
  record [("name", .ofText? i.name), ("properties", .ofList OrderedProperty.toValue i.properties),
    ("is_unique", .boolean i.isUnique)]

/-- A type declared inside an entity. -/
def NestedType.toValue (t : NestedType) : Value :=
  record [("name", .text t.name), ("is_static", .boolean t.isStatic)]

/-- A whole entity, without its source text. -/
def toValue (e : Entity) : Value :=
  let source := e.sourceText
  record [("name", .text e.name), ("schema_name", .text e.schemaName),
    ("package_name", .text e.packageName), ("is_active", .boolean e.isActive),
    ("table_name", .ofText? e.tableName), ("uid", .ofOption Value.integer e.uid),
    ("keep_source_entirely", .boolean e.isKept),
    ("generate_constructors", .boolean e.generateConstructors),
    ("generate_accessors", .boolean e.generateAccessors),
    ("properties", .ofList (Property.toValue source) e.properties),
    ("transient_fields", .ofList (TransientField.toValue source) e.transientFields),
    ("constructors", .ofList (Constructor.toValue source) e.constructors),
    ("methods", .ofList (Method.toValue source) e.methods),
    ("one_relations", .ofList (ToOne.toValue source) e.toOnes),
    ("many_relations", .ofList (ToMany.toValue source) e.toManys),
    ("indexes", .ofList TableIndex.toValue e.indexes),
    ("nested_types", .ofList NestedType.toValue e.nestedTypes), ("source_file", .text e.path),
    ("last_field_position", placeValue source e.lastField),
    ("not_null_annotation", .ofText? e.notNullSpelling)]

end Graft.Entity

namespace Graft.Schema

/-- A schema with its entities. -/
def toValue (s : Schema) : Value :=
  .record [("name".toList, .text s.name), ("entities".toList, .ofList Entity.toValue s.entities)]

end Graft.Schema
