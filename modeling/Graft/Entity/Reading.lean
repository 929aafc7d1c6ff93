import Graft.Entity.Basic
import Graft.Entity.Marks
import Graft.Java.Source

/-!
# Entities of source files

The first top-level type of a file that is marked as an entity is read, member
by member. What each member contributes depends on that member and the
surroundings of the type alone; the contributions are put together in source
order, and what concerns several members is checked at the end.
-/

namespace Graft.Entity

open Java

/-- A type inside whose body declarations are read. -/
structure Site where
  source : Text
  path : Text
  entityName : Text
  scope : Scope
  settings : AnnotationSettings

/-- A class that a converted property depends on, by qualified name. -/
structure ClassUse where
  member : Text
  line : Nat
  qualifiedName : Text
  deriving DecidableEq, Repr

/-- What one member contributes, and the classes that it depends on. -/
structure Contribution where
  members : Members := {}
  classUses : List ClassUse := []
  deriving Inhabited

/-- What two members contribute together. -/
def Contribution.append (a b : Contribution) : Contribution :=
  ⟨a.members ++ b.members, a.classUses ++ b.classUses⟩

/-- What members contribute together, in their order. -/
def Contribution.sum (cs : List Contribution) : Contribution :=
  cs.foldl Contribution.append {}

/-- An ambiguous name, as an error at a place. -/
def orAmbiguous {α : Type} (location : Location) (r : Except AmbiguousImport α) :
    Except SourceError α :=
  r.mapError (.ambiguousType location)

/-- What the annotation of a shape says, with errors at a place. -/
def Marks.readAt {α : Type} (m : Marks) (shape : Shape α) (location : Location) :
    Except SourceError (Option α) :=
  (m.read? shape).mapError (ArgumentError.at location shape.name)

/-- Whether there is an annotation of a shape, with errors at a place. -/
def Marks.hasAt {α : Type} (m : Marks) (shape : Shape α) (location : Location) :
    Except SourceError Bool :=
  orAmbiguous location (m.has shape)

namespace Site

/-- The annotations of a declaration. -/
def marks (s : Site) (m : Modifiers) : Marks := ⟨m.annotations, s.scope, s.settings⟩

/-- The place of a member. -/
def location (s : Site) (member : Text) (span : Span) : Location :=
  ⟨s.entityName, some member, some span.line⟩

/-- What the text of a type stands for. -/
def typeAt (s : Site) (text : Text) (location : Location) : Except SourceError TypeRef :=
  orAmbiguous location (s.scope.resolve text)

/-- The variable of a type and a name. -/
def variableOf (s : Site) (type : TypeRef) (name : Text) : Except SourceError Variable :=
  match Variable.ofName? type name with
  | some v => .ok v
  | none => .error (.unreadable s.path (s.entityName ++ ": " ++ invalidIdentifierMessage name))

/-- The code of a member without its mark, on which the recorded
hash is computed. -/
def codeWithout (s : Site) (span mark : Span) : Text :=
  Code.without (span.text s.source) (mark.start - span.start) (mark.stop - span.start)

/-- Who looks after a member. The code of a generated member must have the hash
recorded for it. -/
def provenance (s : Site) (m : Marks) (span : Span) (location : Location) :
    Except SourceError Provenance := do
  if ← m.hasAt Shape.keep location then pure .keep
  else
    match ← orAmbiguous location (m.use? Shape.generated) with
    | none => pure .unmarked
    | some mark =>
      let hash ← (Shape.generated.read (.ofUse s.scope mark)).mapError
        (ArgumentError.at location Shape.generated.name)
      let result := Provenance.generated hash
      match result.verifiableHash? with
      | none => pure result
      | some expected =>
        let actual := Code.structuralHash (s.codeWithout span mark.span)
        if actual = expected then pure result
        else throw (.tamperedCode location expected actual)

/-- Reads a parameter list. -/
def readParameters (s : Site) (location : Location) :
    List Parameter → Except SourceError (List Variable)
  | [] => .ok []
  | p :: rest => do
    let type ← s.typeAt p.typeText location
    let v ← s.variableOf type p.name
    let vs ← s.readParameters location rest
    pure (v :: vs)

/-- Reads a method. -/
def readMethod (s : Site) (m : MethodDecl) : Except SourceError Contribution := do
  let location := s.location m.name m.span
  let provenance ← s.provenance (s.marks m.modifiers) m.span location
  let parameters ← s.readParameters location m.parameters
  let method : Method :=
    { name := m.name, parameters, returnType := m.returnType, source := some m.span, provenance }
  pure { members := { methods := [method] } }

/-- Reads a constructor. -/
def readConstructor (s : Site) (c : ConstructorDecl) : Except SourceError Contribution := do
  let location := s.location "<init>" c.span
  let provenance ← s.provenance (s.marks c.modifiers) c.span location
  let parameters ← s.readParameters location c.parameters
  let constructor : Constructor := { parameters, source := some c.span, provenance }
  pure { members := { constructors := [constructor] } }

/-- The lists that can hold a to-many relation. -/
def listTypes : List Text := List.map String.toList
  ["java.util.List", "java.util.ArrayList", "java.util.Collection"]

/-- Whether a type can hold a to-many relation. -/
def isListLike (s : Site) (type : TypeRef) : Bool :=
  listTypes.contains type.qualifiedName || type.qualifiedName == s.settings.handle "ToMany"

/-- Whether a type is the handle of a to-one relation. -/
def isHandle (s : Site) (type : TypeRef) : Bool :=
  type.qualifiedName == s.settings.handle "ToOne"

/-- The type argument that names the other entity of a relation. -/
def targetArgument (type : TypeRef) (location : Location) : Except SourceError TypeRef :=
  match type.firstArgument? with
  | some target => .ok target
  | none =>
    .error (.invalidValue location "Relation"
      ("'" ++ type.spelling ++ "' needs a type argument naming the target entity"))

/-- Reads a to-many relation. -/
def readToMany (s : Site) (f : FieldDecl) (d : Declarator) (type : TypeRef)
    (relation : RelationMark) (location : Location) : Except SourceError ToMany := do
  let marks := s.marks f.modifiers
  let target ← targetArgument type location
  let join ← marks.readAt Shape.joinEntity location
  let order ← marks.readAt Shape.orderBy location
  let var ← s.variableOf type d.name
  pure {
    var, target
    backlink := relation.backlink
    joinColumns := relation.joinProperties.map fun j => ⟨j.name, j.referencedName⟩
    joinEntity := join.map fun j => ⟨j.entity, j.sourceProperty, j.targetProperty⟩
    order := order.getD []
    source := some f.span }

/-- Reads a to-one relation. -/
def readToOne (s : Site) (f : FieldDecl) (d : Declarator) (type : TypeRef) (relation : RelationMark)
    (isNotNull : Bool) (location : Location) : Except SourceError ToOne := do
  let marks := s.marks f.modifiers
  let isHandle := s.isHandle type
  let target ← if isHandle then targetArgument type location else pure type
  let var ← s.variableOf type d.name
  let dbColumnName ← marks.readAt Shape.nameInDb location
  let isUnique ← marks.hasAt Shape.unique location
  pure {
    var, target, isHandle
    foreignKey := relation.idProperty
    dbColumnName, isNotNull, isUnique
    source := some f.span }

/-- Reads a property, with the classes that its conversion depends on. -/
def readProperty (s : Site) (f : FieldDecl) (d : Declarator) (type : TypeRef) (isNotNull : Bool)
    (location : Location) : Except SourceError (Property × List ClassUse) := do
  let marks := s.marks f.modifiers
  let convert ← marks.readAt Shape.convert location
  let id ← marks.readAt Shape.id location
  let index ← marks.readAt Shape.index location
  let var ← s.variableOf type d.name
  let dbColumnName ← marks.readAt Shape.nameInDb location
  let uid ← marks.readAt Shape.uid location
  let isUnique ← marks.hasAt Shape.unique location
  let property : Property :=
    { var, isNotNull, dbColumnName, uid, isUnique
      source := some f.span
      id := id.map fun i => ⟨i.autoincrement, i.assignable⟩
      index := index.map fun i => ⟨i.name, i.unique⟩
      customType := convert.map fun c => ⟨c.converter, c.dbType⟩
      isFieldAccessible := !f.modifiers.isPrivate }
  let uses := match convert with
    | some c => [c.converter, type.qualifiedName].map (ClassUse.mk d.name f.span.line)
    | none => []
  pure (property, uses)

/-- Reads one variable of a field that is stored. A handle without the
annotation of a relation contributes nothing. -/
def readStored (s : Site) (f : FieldDecl) (d : Declarator) : Except SourceError Contribution := do
  let location := s.location d.name f.span
  let marks := s.marks f.modifiers
  let type ← s.typeAt (f.typeOf d) location
  let notNullSpelling ← orAmbiguous location marks.notNullSpelling?
  let isNotNull := type.isPrimitive || notNullSpelling.isSome
  match ← marks.readAt Shape.relation location with
  | some relation =>
    if s.isListLike type then
      let r ← s.readToMany f d type relation location
      pure { members := { toManys := [r], notNullSpelling } }
    else
      let r ← s.readToOne f d type relation isNotNull location
      pure { members := { toOnes := [r], notNullSpelling } }
  | none =>
    if s.isHandle type then pure { members := { notNullSpelling } }
    else
      let (p, classUses) ← s.readProperty f d type isNotNull location
      pure { members := { properties := [p], notNullSpelling }, classUses }

/-- Reads one variable of a field that is not stored. -/
def readTransient (s : Site) (f : FieldDecl) (provenance : Provenance) (location : Location)
    (d : Declarator) : Except SourceError Contribution := do
  let type ← s.typeAt (f.typeOf d) location
  let var ← s.variableOf type d.name
  pure { members := { transientFields := [{ var, source := some f.span, provenance }] } }

/-- Whether a field is not stored: it is static, transient or marked so. -/
def isTransient (s : Site) (f : FieldDecl) (location : Location) : Except SourceError Bool :=
  if f.modifiers.isStatic || f.modifiers.isTransient then .ok true
  else (s.marks f.modifiers).hasAt Shape.transient location

/-- Reads every variable of a field declaration. -/
def readField (s : Site) (f : FieldDecl) : Except SourceError Contribution := do
  let firstName : Text := match f.declarators with
    | d :: _ => d.name
    | [] => "<field>"
  let location := s.location firstName f.span
  let position : Contribution := { members := { lastField := some f.span } }
  if ← s.isTransient f location then
    let provenance ← s.provenance (s.marks f.modifiers) f.span location
    let parts ← f.declarators.mapM (s.readTransient f provenance location)
    pure (.sum (position :: parts))
  else
    let parts ← f.declarators.mapM (s.readStored f)
    pure (.sum (position :: parts))

/-- Reads a member. -/
def readMember (s : Site) : Declaration → Except SourceError Contribution
  | .field f => s.readField f
  | .method m => s.readMethod m
  | .constructor c => s.readConstructor c
  | .nested t =>
    .ok { members := { nestedTypes := [⟨t.name, t.isEffectivelyStatic⟩] } }

end Site

/-- An entity without members, and the indexes that its table is to have. -/
def readHeader (s : Site) (packageName : Text) (t : TypeDecl) (mark : EntityMark)
    (reader : ReaderSettings) : Except SourceError (Entity × List IndexMark) := do
  let marks := s.marks t.modifiers
  let location : Location := { entity := t.name }
  let table ← marks.readAt Shape.table location
  let nameInDb ← marks.readAt Shape.nameInDb location
  let uid ← marks.readAt Shape.uid location
  let isKept ← marks.hasAt Shape.keep location
  let entity : Entity :=
    { name := t.name
      schemaName := mark.schema.getD reader.defaultSchema
      packageName
      isActive := mark.active
      tableName := (table.bind TableMark.name).or nameInDb
      uid, isKept
      generateConstructors := mark.generateConstructors
      generateAccessors := mark.generateAccessors
      path := s.path
      sourceText := s.source }
  pure (entity, (table.map TableMark.indexes).getD [])

/-- The type declared inside an entity that a qualified name leads through, if
it is not static. -/
def unsupportedClass? (e : Entity) (qualifiedName : Text) : Option Text := do
  let rest ← Text.afterHead? (e.qualifiedName ++ ".".toList) qualifiedName
  let inner := rest.takeWhile (· != '.')
  let nested ← e.nestedType? inner
  if nested.isStatic then none else some inner

/-- Classes that converted properties depend on must not be inner classes. -/
def checkClassUses (e : Entity) : List ClassUse → Except SourceError Unit
  | [] => .ok ()
  | u :: rest =>
    match unsupportedClass? e u.qualifiedName with
    | some inner =>
      .error (.unsupportedInnerType ⟨e.name, some u.member, some u.line⟩ inner)
    | none => checkClassUses e rest

/-- Whether a name can stand in an index: that of a property, of a to-one
relation or of its key. -/
def isIndexable (e : Entity) (name : Text) : Bool :=
  e.hasProperty name || e.toOnes.any fun r => r.var.name == name || r.foreignKeyName == name

/-- The properties that an index of a table lists. -/
def IndexMark.properties (mark : IndexMark) : Except ArgumentError (List OrderedProperty) :=
  match mark.value with
  | none => .error (.invalid "value" "must list the indexed properties")
  | some spec => readOrderArgument spec

/-- Reads an index of a table. -/
def readTableIndex (e : Entity) (mark : IndexMark) : Except SourceError TableIndex :=
  let location : Location := { entity := e.name }
  match mark.properties with
  | .error e => .error (e.at location Shape.index.name)
  | .ok properties =>
    match properties.find? fun p => !isIndexable e p.name with
    | some unknown =>
      .error (.invalidValue location Shape.table.name
        ("index references unknown property '" ++ unknown.name ++ "'"))
    | none => .ok { name := mark.name, properties, isUnique := mark.unique }

/-- Reads the entity that a type is marked as. -/
def ofType (s : Site) (packageName : Text) (t : TypeDecl) (mark : EntityMark)
    (reader : ReaderSettings) : Except SourceError Entity := do
  let (header, indexMarks) ← readHeader s packageName t mark reader
  let parts ← t.members.mapM s.readMember
  let total := Contribution.sum parts
  let entity := { header with toMembers := total.members }
  checkClassUses entity total.classUses
  let indexes ← indexMarks.mapM (readTableIndex entity)
  pure { entity with indexes }

/-- The first entity in a list of top-level types. -/
def ofTypes? (source path : Text) (unit : CompilationUnit) (siblings : List Text)
    (reader : ReaderSettings) (settings : AnnotationSettings) :
    List TypeDecl → Except SourceError (Option Entity)
  | [] => .ok none
  | t :: rest => do
    let scope : Scope :=
      { package := unit.packageName, imports := unit.imports, enclosing := some t.name
        nested := t.nestedTypeNames, siblings }
    let site : Site := { source, path, entityName := t.name, scope, settings }
    match ← (site.marks t.modifiers).readAt Shape.entity { entity := t.name } with
    | some mark => some <$> ofType site unit.packageName t mark reader
    | none => ofTypes? source path unit siblings reader settings rest

/-- The entity of a source file that has been taken apart. -/
def ofUnit? (unit : CompilationUnit) (source path : Text) (siblings : List Text)
    (reader : ReaderSettings) (settings : AnnotationSettings) :
    Except SourceError (Option Entity) :=
  ofTypes? source path unit siblings reader settings unit.types

/-- The entity of a source file. -/
def ofSource? (source path : Text) (siblings : List Text) (reader : ReaderSettings)
    (settings : AnnotationSettings) : Except SourceError (Option Entity) :=
  let unit := CompilationUnit.read source
  if unit.syntaxErrors > 0 && !reader.toleratesSyntaxErrors then
    .error (.unreadable path (Text.ofNat unit.syntaxErrors ++ " syntax error(s)"))
  else ofUnit? unit source path siblings reader settings

end Graft.Entity
