import Graft.Proofs.Entity.Entries
import Graft.Proofs.Text.Cutting

/-!
# Inner classes that properties rely on

A property with a converter relies on two classes: the converter and the class
of its field. Where one of them is declared inside the entity, its qualified
name leads there from type to type (`ReliesOn`). The first type on the way, the
one declared directly in the entity, has to be static, or the entity is refused
(`converted_properties_rely_on_static`). Neither the types further inside are
looked at, nor is the first one where the field is an array of it
(`inner_classes_let_through`).
-/

namespace Graft

open Java

/-- The types that a path of simple names leads through, from one
declared directly in the body on. The first of them counts where several
have the same name. -/
def Java.TypeDecl.along? : TypeDecl → List Text → Option (List TypeDecl)
  | _, [] => some []
  | t, name :: path => do
    let inner ← t.nestedTypes.find? (·.name == name)
    let others ← inner.along? path
    pure (inner :: others)

theorem Java.TypeDecl.along?_eq_cons {t first : TypeDecl} {others : List TypeDecl}
    {path : List Text} (h : t.along? path = some (first :: others)) :
    ∃ name rest, path = name :: rest ∧
      t.nestedTypes.find? (·.name == name) = some first ∧
      first.along? rest = some others := by
  cases path with
  | nil => cases h
  | cons name rest =>
    obtain ⟨inner, hinner, h⟩ := Option.bind_eq_some_iff.mp h
    obtain ⟨types, htypes, h⟩ := Option.bind_eq_some_iff.mp h
    cases h
    exact ⟨name, rest, rfl, hinner, htypes⟩

namespace Entity

/-- The classes that a property relies on for its conversion, with the place of
the property. -/
def Property.classUses (p : Property) : List ClassUse :=
  match p.customType, p.source with
  | some c, some span =>
    [c.converterClass, p.var.type.qualifiedName].map (ClassUse.mk p.name span.line)
  | _, _ => []

theorem Property.of_mem_classUses {p : Property} {u : ClassUse} (h : u ∈ p.classUses) :
    ∃ span, p.source = some span ∧ u.member = p.name ∧ u.line = span.line := by
  unfold classUses at h
  split at h
  · next c span _ hsource =>
    obtain ⟨used, -, rfl⟩ := List.mem_map.mp h
    exact ⟨span, hsource, rfl, rfl⟩
  · cases h

/-- The name of a class or, with array levels behind it, of
arrays of the class. -/
def withLevels (name : Text) (levels : Nat) : Text :=
  name ++ (List.replicate levels "[]".toList).flatten

/-- A converted property relies on a type declared inside the entity, which
is found in the body of `first` along `others`; `levels` counts the array
levels around it. -/
structure ReliesOn (e : Entity) (t : TypeDecl) (p : Property) (levels : Nat)
    (first : TypeDecl) (others : List TypeDecl) : Prop where
  exists_use : ∃ c, p.customType = some c ∧
    ∃ used ∈ [c.converterClass, p.var.type.qualifiedName],
    ∃ path, (∀ name ∈ path, '.' ∉ name) ∧ t.along? path = some (first :: others) ∧
      used = withLevels (e.qualifiedName ++ '.' :: Text.join ".".toList path) levels

/-! ## What members say about classes -/

/-- The types declared in the body of an entity, as they are recorded. -/
def recorded (ts : List TypeDecl) : List NestedType :=
  ts.map fun t => ⟨t.name, t.isEffectivelyStatic⟩

/-- The classes that are used are those that the properties rely on. -/
def Contribution.UsesAreOfProperties (c : Contribution) : Prop :=
  c.classUses = c.members.properties.flatMap Property.classUses

namespace Contribution.UsesAreOfProperties

theorem append {a b : Contribution} (ha : a.UsesAreOfProperties)
    (hb : b.UsesAreOfProperties) :
    (a.append b).UsesAreOfProperties := by
  show a.classUses ++ b.classUses =
    (a.members.properties ++ b.members.properties).flatMap _
  rw [List.flatMap_append, ← ha, ← hb]

theorem sum {parts : List Contribution} (h : ∀ part ∈ parts, part.UsesAreOfProperties) :
    (Contribution.sum parts).UsesAreOfProperties := by
  have key : ∀ total : Contribution, total.UsesAreOfProperties →
      (parts.foldl Contribution.append total).UsesAreOfProperties := by
    induction parts with
    | nil => exact fun _ htotal => htotal
    | cons part rest ih =>
      intro total htotal
      exact ih (fun p hp => h p (List.mem_cons_of_mem _ hp)) _
        (htotal.append (h part List.mem_cons_self))
  exact key {} rfl

end Contribution.UsesAreOfProperties

namespace Site

variable {s : Site} {part : Contribution}

theorem classUses_of_readProperty {f : FieldDecl} {d : Declarator} {type : TypeRef}
    {isNotNull : Bool} {location : Location} {p : Property} {uses : List ClassUse}
    (h : s.readProperty f d type isNotNull location = .ok (p, uses)) :
    uses = p.classUses := by
  have hvar := (readProperty_spec h).1
  unfold readProperty at h
  obtain ⟨convert, -, h⟩ := ok_of_bind h
  obtain ⟨id, -, h⟩ := ok_of_bind h
  obtain ⟨index, -, h⟩ := ok_of_bind h
  obtain ⟨v, -, h⟩ := ok_of_bind h
  obtain ⟨column, -, h⟩ := ok_of_bind h
  obtain ⟨uid, -, h⟩ := ok_of_bind h
  obtain ⟨isUnique, -, h⟩ := ok_of_bind h
  cases h
  obtain rfl : v = { type, name := d.name } := hvar
  cases convert <;> rfl

theorem usesAreOfProperties_of_readStored {f : FieldDecl} {d : Declarator}
    (h : s.readStored f d = .ok part) : part.UsesAreOfProperties := by
  unfold readStored at h
  obtain ⟨type, -, h⟩ := ok_of_bind h
  obtain ⟨spelling, -, h⟩ := ok_of_bind h
  obtain ⟨relation?, -, h⟩ := ok_of_bind h
  cases relation? with
  | some relation =>
    dsimp only at h
    split at h <;>
      · obtain ⟨r, -, h⟩ := ok_of_bind h
        cases h
        rfl
  | none =>
    dsimp only at h
    split at h
    · cases h
      rfl
    · obtain ⟨⟨p, uses⟩, hp, h⟩ := ok_of_bind h
      cases h
      show uses = p.classUses ++ []
      rw [List.append_nil, classUses_of_readProperty hp]

theorem usesAreOfProperties_of_readMember {d : Declaration}
    (h : s.readMember d = .ok part) :
    part.UsesAreOfProperties := by
  -- only a stored field has uses of classes; all other members contribute none
  cases d with
  | field f =>
    unfold readMember readField at h
    obtain ⟨isTransient, -, h⟩ := ok_of_bind h
    split at h
    · obtain ⟨p, -, h⟩ := ok_of_bind h
      obtain ⟨parts, hparts, h⟩ := ok_of_bind h
      cases h
      refine .sum (List.forall_mem_cons.mpr ⟨rfl, fun part hpart => ?_⟩)
      obtain ⟨d, -, hread⟩ := exists_of_mem_of_mapM hparts hpart
      unfold readTransient at hread
      obtain ⟨type, -, hread⟩ := ok_of_bind hread
      obtain ⟨v, -, hread⟩ := ok_of_bind hread
      cases hread
      rfl
    · obtain ⟨parts, hparts, h⟩ := ok_of_bind h
      cases h
      refine .sum (List.forall_mem_cons.mpr ⟨rfl, fun part hpart => ?_⟩)
      obtain ⟨d, -, hread⟩ := exists_of_mem_of_mapM hparts hpart
      exact usesAreOfProperties_of_readStored hread
  | method m =>
    unfold readMember readMethod at h
    obtain ⟨p, -, h⟩ := ok_of_bind h
    obtain ⟨parameters, -, h⟩ := ok_of_bind h
    cases h
    rfl
  | constructor c =>
    unfold readMember readConstructor at h
    obtain ⟨p, -, h⟩ := ok_of_bind h
    obtain ⟨parameters, -, h⟩ := ok_of_bind h
    cases h
    rfl
  | nested t =>
    cases h
    rfl

/-- A declaration is recorded as a nested type exactly if it is one. -/
theorem nestedTypes_of_readMember {d : Declaration} (h : s.readMember d = .ok part) :
    part.members.nestedTypes =
      recorded (match d with | .nested t => [t] | _ => []) := by
  obtain ⟨es, hes, hsum⟩ := enters_of_readMember h
  rw [hsum.nestedTypes]
  cases hes with
  | method | constructor | nested => rfl
  | @transient f fields _ each =>
    have hnone : (fields.map Entry.transientField).filterMap
        Entry.nestedType? = [] := by
      rw [List.filterMap_map]
      exact List.filterMap_eq_nil_iff.mpr fun _ _ => rfl
    exact hnone
  | @stored f entries _ each =>
    refine List.filterMap_eq_nil_iff.mpr fun entry hentry => ?_
    obtain ⟨found, hmem, hsome⟩ := List.mem_flatMap.mp hentry
    obtain ⟨d, -, henters⟩ := exists_of_mem_of_forall₂ each hmem
    cases henters with
    | handle => cases hsome
    | toMany | toOne | property =>
      cases List.mem_singleton.mp hsome
      rfl

theorem nestedTypes_of_readMembers {ds : List Declaration} {parts : List Contribution}
    (h : List.Forall₂ (fun d part => s.readMember d = .ok part) ds parts) :
    (parts.flatMap fun part => part.members.nestedTypes) =
      recorded (ds.filterMap fun | .nested t => some t | _ => none) := by
  induction h with
  | nil => rfl
  | @cons d part ds parts hread _ ih =>
    rw [List.flatMap_cons, ih, nestedTypes_of_readMember hread]
    cases d <;> rfl

/-- A property that is read stands in the source. -/
theorem source_of_readMember {d : Declaration} (h : s.readMember d = .ok part)
    {p : Property} (hp : p ∈ part.members.properties) :
    ∃ span, p.source = some span := by
  obtain ⟨es, hes, hsum⟩ := enters_of_readMember h
  rw [hsum.properties] at hp
  obtain ⟨entry, hentry, heq⟩ := List.mem_filterMap.mp hp
  cases hes with
  | method | constructor | nested =>
    cases List.mem_singleton.mp hentry
    cases heq
  | transient =>
    obtain ⟨field, -, rfl⟩ := List.mem_map.mp hentry
    cases heq
  | @stored f entries _ each =>
    obtain ⟨found, hmem, hsome⟩ := List.mem_flatMap.mp hentry
    obtain ⟨d, -, henters⟩ := exists_of_mem_of_forall₂ each hmem
    cases henters with
    | handle => cases hsome
    | toMany | toOne =>
      cases List.mem_singleton.mp hsome
      cases heq
    | property _ _ _ _ source =>
      cases List.mem_singleton.mp hsome
      cases heq
      exact ⟨_, source⟩

end Site

/-! ## What is checked -/

/-- A check that fails reports one of the classes that are used. -/
theorem checkClassUses_of_mem {e : Entity} {uses : List ClassUse} {u : ClassUse}
    {inner : Text} (hu : u ∈ uses)
    (hinner : unsupportedClass? e u.qualifiedName = some inner) :
    ∃ v ∈ uses, ∃ name, unsupportedClass? e v.qualifiedName = some name ∧
      checkClassUses e uses =
        .error (.unsupportedInnerType ⟨e.name, some v.member, some v.line⟩ name) := by
  induction uses with
  | nil => cases hu
  | cons w rest ih =>
    rw [checkClassUses]
    cases hw : unsupportedClass? e w.qualifiedName with
    | some name => exact ⟨w, List.mem_cons_self, name, hw, rfl⟩
    | none =>
      rcases List.mem_cons.mp hu with rfl | hu
      · rw [hw] at hinner
        cases hinner
      · obtain ⟨v, hv, name, hname, hcheck⟩ := ih hu
        exact ⟨v, List.mem_cons_of_mem _ hv, name, hname, hcheck⟩

/-- A type of an entity is recorded under its name. -/
theorem find?_recorded (ts : List TypeDecl) (name : Text) :
    (recorded ts).find? (·.name == name) =
      (ts.find? (·.name == name)).map fun t => ⟨t.name, t.isEffectivelyStatic⟩ := by
  rw [recorded, List.find?_map]
  rfl

theorem join_cons (name : Text) (path : List Text) :
    Text.join ".".toList (name :: path) =
      name ++ (if path = [] then [] else '.' :: Text.join ".".toList path) := by
  cases path with
  | nil => simp [Text.join, List.intercalate]
  | cons other rest => simp [Text.join, List.intercalate, List.intersperse]

/-- The first type on the way to a class is found in its name, unless the name
is that of arrays of the first type. -/
theorem takeWhile_withLevels {name : Text} (hname : '.' ∉ name) (path : List Text)
    {levels : Nat} (h : levels = 0 ∨ path ≠ []) :
    (withLevels (Text.join ".".toList (name :: path)) levels).takeWhile
      (· != '.') = name := by
  have hall : ∀ c ∈ name, (c != '.') = true := by
    intro c hc
    rw [bne_iff_ne]
    rintro rfl
    exact hname hc
  rw [withLevels, join_cons, List.append_assoc, List.takeWhile_append_of_pos hall]
  rcases h with rfl | hpath
  · split <;> simp
  · simp [hpath]

/-- The name of a class that a property relies on shows the first type
on the way there. -/
theorem unsupportedClass?_of_reliesOn {e : Entity} {t : TypeDecl}
    (ht : e.nestedTypes = recorded t.nestedTypes) {p : Property} {span : Span}
    (hsource : p.source = some span) {levels : Nat} {first : TypeDecl}
    {others : List TypeDecl} (h : ReliesOn e t p levels first others)
    (hlevels : levels = 0 ∨ others ≠ []) :
    ∃ u ∈ p.classUses, unsupportedClass? e u.qualifiedName =
      if first.isEffectivelyStatic then none else some first.name := by
  obtain ⟨c, hc, used, hused, path, hsimple, halong, hname⟩ := h.exists_use
  obtain ⟨name, rest, rfl, hfind, hrest⟩ := TypeDecl.along?_eq_cons halong
  have hpath : levels = 0 ∨ rest ≠ [] := by
    refine hlevels.imp_right ?_
    rintro hothers rfl
    cases hrest
    exact hothers rfl
  have hhead : Text.afterHead? (e.qualifiedName ++ ".".toList) used =
      some (withLevels (Text.join ".".toList (name :: rest)) levels) := by
    rw [Text.afterHead?_eq_some_iff, hname]
    simp [withLevels]
  have hinner : first.name = name := by simpa using List.find?_some hfind
  refine ⟨⟨p.name, span.line, used⟩, ?_, ?_⟩
  · simp only [Property.classUses, hc, hsource, List.mem_map]
    exact ⟨used, hused, rfl⟩
  · simp only [unsupportedClass?, nestedType?, ht, find?_recorded, hhead,
      Option.bind_eq_bind, Option.bind_some,
      takeWhile_withLevels (hsimple name List.mem_cons_self) rest hpath, hfind,
      Option.map_some, hinner]

/-- What is reported is the name of a type that is not static. -/
theorem exists_of_unsupportedClass? {e : Entity} {t : TypeDecl}
    (ht : e.nestedTypes = recorded t.nestedTypes) {qualifiedName name : Text}
    (h : unsupportedClass? e qualifiedName = some name) :
    ∃ inner ∈ t.nestedTypes, inner.name = name ∧ inner.isEffectivelyStatic = false := by
  obtain ⟨rest, -, h⟩ := Option.bind_eq_some_iff.mp h
  obtain ⟨nested, hnested, h⟩ := Option.bind_eq_some_iff.mp h
  rw [nestedType?, ht, find?_recorded] at hnested
  obtain ⟨inner, hfind, rfl⟩ := Option.map_eq_some_iff.mp hnested
  have hname := List.find?_some hfind
  split at h
  · cases h
  · next hstatic =>
    cases h
    exact ⟨inner, List.mem_of_find?_eq_some hfind, by simpa using hname, by
      simpa using hstatic⟩

/-! ## Entities with converted properties -/

/-- All of an entity but its indexes is read of a type: the type is
marked, its header and its members can be read, and the entity holds what
they contribute. -/
inductive BodyIsRead (unit : CompilationUnit) (source path : Text)
    (siblings : List Text) (reader : ReaderSettings) (settings : AnnotationSettings)
    (t : TypeDecl) : Entity → Prop
  | intro {mark : EntityMark} {header : Entity} {indexMarks : List IndexMark}
      {parts : List Contribution} (first : entityType? unit siblings settings = some t)
      (marked : (marksOf unit siblings settings t).read? Shape.entity = .ok (some mark))
      (head : readHeader (siteOf unit source path siblings settings t)
        unit.packageName t mark reader =
        .ok (header, indexMarks))
      (members : t.members.mapM
        (siteOf unit source path siblings settings t).readMember = .ok parts) :
      BodyIsRead unit source path siblings reader settings t
        { header with toMembers := (Contribution.sum parts).members }

section

variable {unit : CompilationUnit} {source path : Text} {siblings : List Text}
    {reader : ReaderSettings} {settings : AnnotationSettings}
    {t : TypeDecl} {e : Entity}

/-- The type that is read is the first one that is marked. -/
theorem ofUnit?_of_entityType {mark : EntityMark}
    (ht : entityType? unit siblings settings = some t)
    (hmark : (marksOf unit siblings settings t).read? Shape.entity =
      .ok (some mark)) :
    ofUnit? unit source path siblings reader settings =
      some <$> ofType (siteOf unit source path siblings settings t) unit.packageName t
        mark reader := by
  unfold ofUnit?
  unfold entityType? at ht
  generalize unit.types = types at ht ⊢
  -- both searches pass over the types in front of the first one that is marked
  induction types with
  | nil => cases ht
  | cons u rest ih =>
    have hat (x)
        (hread : (marksOf unit siblings settings u).read? Shape.entity = .ok x) :
        ((siteOf unit source path siblings settings u).marks u.modifiers).readAt
          Shape.entity
          { entity := u.name } = .ok x := by
      show ((marksOf unit siblings settings u).read? Shape.entity).mapError _ = _
      rw [hread]
      rfl
    unfold firstMarked? at ht
    unfold ofTypes?
    split at ht
    · next hread =>
      cases ht
      rw [hread] at hmark
      cases hmark
      show (((siteOf unit source path siblings settings t).marks t.modifiers).readAt
        Shape.entity
        { entity := t.name } >>= _) = _
      rw [hat _ hread]
      rfl
    · next hread =>
      show (((siteOf unit source path siblings settings u).marks u.modifiers).readAt
        Shape.entity
        { entity := u.name } >>= _) = _
      rw [hat _ hread]
      exact ih ht
    · cases ht

theorem readHeader_name {s : Site} {packageName : Text} {mark : EntityMark}
    {indexMarks : List IndexMark}
    (h : readHeader s packageName t mark reader = .ok (e, indexMarks)) :
    e.name = t.name := by
  unfold readHeader at h
  obtain ⟨table, -, h⟩ := ok_of_bind h
  obtain ⟨nameInDb, -, h⟩ := ok_of_bind h
  obtain ⟨uid, -, h⟩ := ok_of_bind h
  obtain ⟨isKept, -, h⟩ := ok_of_bind h
  cases h
  rfl

namespace BodyIsRead

theorem name (h : BodyIsRead unit source path siblings reader settings t e) :
    e.name = t.name := by
  cases h with
  | intro first marked head members =>
    have hname := readHeader_name head
    exact hname

/-- The types declared in the body of the type are recorded. -/
theorem nestedTypes (h : BodyIsRead unit source path siblings reader settings t e) :
    e.nestedTypes = recorded t.nestedTypes := by
  cases h with
  | intro first marked head members =>
    show (Contribution.sum _).members.nestedTypes = _
    rw [Site.sum_members Members.nestedTypes rfl (fun _ _ => rfl)]
    exact Site.nestedTypes_of_readMembers (mapM_eq_ok_iff.mp members)

theorem exists_source (h : BodyIsRead unit source path siblings reader settings t e)
    {p : Property} (hp : p ∈ e.properties) : ∃ span, p.source = some span := by
  cases h with
  | intro first marked head members =>
    change p ∈ (Contribution.sum _).members.properties at hp
    rw [Site.sum_members Members.properties rfl (fun _ _ => rfl)] at hp
    obtain ⟨part, hpart, hp⟩ := List.mem_flatMap.mp hp
    obtain ⟨d, -, hread⟩ := exists_of_mem_of_mapM members hpart
    exact Site.source_of_readMember hread hp

/-- The classes that properties rely on decide whether the entity is refused or
its indexes are read. -/
theorem ofUnit? (h : BodyIsRead unit source path siblings reader settings t e) :
    ∃ indexMarks :
    List IndexMark, Entity.ofUnit? unit source path siblings reader settings =
      (checkClassUses e (e.properties.flatMap Property.classUses) >>= fun _ =>
        indexMarks.mapM (readTableIndex e) >>= fun indexes =>
          .ok (some { e with indexes })) := by
  cases h with
  | @intro mark header indexMarks parts first marked head members =>
    have huses : (Contribution.sum parts).UsesAreOfProperties :=
      .sum fun part hpart => by
      obtain ⟨d, -, hread⟩ := exists_of_mem_of_mapM members hpart
      exact Site.usesAreOfProperties_of_readMember hread
    have hread : ofType (siteOf unit source path siblings settings t) unit.packageName
        t mark reader =
        (checkClassUses { header with toMembers := (Contribution.sum parts).members }
            (Contribution.sum parts).classUses >>= fun _ =>
          indexMarks.mapM
            (readTableIndex
              { header with toMembers := (Contribution.sum parts).members })
            >>= fun indexes =>
              .ok
                { header with toMembers := (Contribution.sum parts).members, indexes }) := by
      rw [ofType, head]
      show (t.members.mapM
        (siteOf unit source path siblings settings t).readMember >>= _) = _
      rw [members]
      rfl
    refine ⟨indexMarks, ?_⟩
    rw [ofUnit?_of_entityType first marked, hread, huses]
    simp only [map_bind]
    rfl

end BodyIsRead

theorem mem_types_of_entityType? (ht : entityType? unit siblings settings = some t) :
    t ∈ unit.types := by
  unfold entityType? at ht
  generalize unit.types = types at ht ⊢
  induction types with
  | nil => cases ht
  | cons u rest ih =>
    unfold firstMarked? at ht
    split at ht
    · cases ht
      exact List.mem_cons_self
    · exact List.mem_cons_of_mem _ (ih ht)
    · cases ht

theorem exists_mark (ht : entityType? unit siblings settings = some t) :
    ∃ mark, (marksOf unit siblings settings t).read? Shape.entity =
      .ok (some mark) := by
  unfold entityType? at ht
  generalize unit.types = types at ht
  induction types with
  | nil => cases ht
  | cons u rest ih =>
    unfold firstMarked? at ht
    split at ht
    · next mark hread =>
      cases ht
      exact ⟨mark, hread⟩
    · exact ih ht
    · cases ht

/-- An entity that is accepted is one whose body is read, with indexes. -/
theorem exists_bodyIsRead
    (h : ofUnit? unit source path siblings reader settings = .ok (some e)) :
    ∃ t body indexes, entityType? unit siblings settings = some t ∧
      BodyIsRead unit source path siblings reader settings t body ∧
      e = { body with indexes } := by
  obtain ⟨t, -, ht, -⟩ := ofType_of_entityType h
  obtain ⟨mark, hmark⟩ := exists_mark ht
  rw [ofUnit?_of_entityType ht hmark] at h
  obtain ⟨e', h, heq⟩ := ok_of_map h
  cases heq
  unfold ofType at h
  obtain ⟨⟨header, indexMarks⟩, head, h⟩ := ok_of_bind h
  obtain ⟨parts, members, h⟩ := ok_of_bind h
  obtain ⟨-, -, h⟩ := ok_of_bind h
  obtain ⟨indexes, -, h⟩ := ok_of_bind h
  cases h
  exact ⟨t, _, indexes, ht, .intro ht hmark head members, rfl⟩

end

/-- **Properties are converted by means of static classes only.** In an entity
that is accepted, the way to a class that a converted property relies on begins
with a static type, unless the field is an array of the first type on the way.
If a property relies on a class whose way begins otherwise, then an inner class
that is not static is reported for one of the properties. -/
theorem converted_properties_rely_on_static (unit : CompilationUnit)
    (source path : Text) (siblings : List Text) (reader : ReaderSettings)
    (settings : AnnotationSettings) :
    (∀ e, ofUnit? unit source path siblings reader settings = .ok (some e) →
      ∃ t, entityType? unit siblings settings = some t ∧
        ∀ p ∈ e.properties, ∀ levels first others, ReliesOn e t p levels first others →
          levels = 0 ∨ others ≠ [] → first.isEffectivelyStatic = true) ∧
    ∀ t e, BodyIsRead unit source path siblings reader settings t e →
      ∀ p ∈ e.properties, ∀ levels first others, ReliesOn e t p levels first others →
        levels = 0 ∨ others ≠ [] → first.isEffectivelyStatic = false →
          ∃ p' ∈ e.properties, ∃ span, p'.source = some span ∧ ∃ inner ∈ t.nestedTypes,
            inner.isEffectivelyStatic = false ∧
              ofUnit? unit source path siblings reader settings =
                .error (.unsupportedInnerType
                  ⟨t.name, some p'.name, some span.line⟩ inner.name) := by
  have hrefused : ∀ t e, BodyIsRead unit source path siblings reader settings t e →
      ∀ p ∈ e.properties, ∀ levels first others, ReliesOn e t p levels first others →
        levels = 0 ∨ others ≠ [] → first.isEffectivelyStatic = false →
          ∃ p' ∈ e.properties, ∃ span, p'.source = some span ∧ ∃ inner ∈ t.nestedTypes,
            inner.isEffectivelyStatic = false ∧
              ofUnit? unit source path siblings reader settings =
                .error (.unsupportedInnerType
                  ⟨t.name, some p'.name, some span.line⟩ inner.name) := by
    intro t e hbody p hp levels first others hrelies hlevels hfirst
    obtain ⟨span, hsource⟩ := hbody.exists_source hp
    obtain ⟨u, hu, hunsupported⟩ :=
      unsupportedClass?_of_reliesOn hbody.nestedTypes hsource hrelies hlevels
    rw [if_neg (by simp [hfirst])] at hunsupported
    -- the first use that is refused may be an earlier one; the error names that
    -- one
    obtain ⟨v, hv, name, hname, hcheck⟩ :=
      checkClassUses_of_mem (List.mem_flatMap.mpr ⟨p, hp, hu⟩) hunsupported
    obtain ⟨inner, hinner, rfl, hstatic⟩ :=
      exists_of_unsupportedClass? hbody.nestedTypes hname
    obtain ⟨p', hp', hv⟩ := List.mem_flatMap.mp hv
    obtain ⟨span', hsource', hmember, hline⟩ := Property.of_mem_classUses hv
    obtain ⟨indexMarks, hread⟩ := hbody.ofUnit?
    refine ⟨p', hp', span', hsource', inner, hinner, hstatic, ?_⟩
    rw [hread, hcheck, hmember, hline, hbody.name]
    rfl
  refine ⟨fun e h => ?_, hrefused⟩
  obtain ⟨t, body, indexes, ht, hbody, rfl⟩ := exists_bodyIsRead h
  refine ⟨t, ht, fun p hp levels first others hrelies hlevels => ?_⟩
  -- an entity that is read leaves no use to refuse
  by_contra hfirst
  rw [Bool.not_eq_true] at hfirst
  obtain ⟨_, _, _, _, _, _, _, herror⟩ :=
    hrefused t body hbody p hp levels first others ⟨hrelies.exists_use⟩ hlevels hfirst
  rw [h] at herror
  cases herror

namespace InnerClassSample

/-- A class inside a static class of the sample. -/
def conv : TypeDecl := .mk "Conv" .classType {} [] default default none

/-- A static class of the sample. -/
def outer : TypeDecl :=
  .mk "Outer" .classType { keywords := ["static".toList] } [.nested conv]
    default default none

/-- A class of the sample that is not static. -/
def color : TypeDecl := .mk "Color" .classType {} [] default default none

/-- An entity with one property, which has a converter. -/
def typeWith (converter type : Text) : TypeDecl :=
  .mk "A" .classType { annotations := [.mk "m.Entity" .marker default] }
    [.field {
        modifiers := { annotations := [.mk "m.Convert"
          (.named [("converter".toList, .classLiteral converter),
            ("dbType".toList, .classLiteral "Integer".toList)]) default] }
        typeText := type
        declarators := [⟨"a", []⟩]
        span := ⟨0, 0, 3⟩
        doc := none },
      .nested outer, .nested color] default default none

/-- A source file with the entity. -/
def unitWith (converter type : Text) : CompilationUnit :=
  { types := [typeWith converter type] }

/-- What is read of it. -/
def read (converter type : Text) : Except SourceError (Option Entity) :=
  ofUnit? (unitWith converter type) [] "A.java" [] {} { package := "m" }

/-- What is read of its body. -/
def readBody (converter type : Text) : Except SourceError Entity := do
  let t := typeWith converter type
  let site := siteOf (unitWith converter type) [] "A.java" [] { package := "m" } t
  let (header, _) ← readHeader site [] t ⟨none, false, true, true⟩ {}
  let parts ← t.members.mapM site.readMember
  pure { header with toMembers := (Contribution.sum parts).members }

/-- The name of an entity, and the classes that its properties rely on. -/
def usedIn (e : Entity) : Text × List (Option Text × Text) :=
  (e.qualifiedName, e.properties.map fun p =>
    (p.customType.map CustomType.converterClass, p.var.type.qualifiedName))

variable {e : Entity} {p : Property} {converter type : Text}

/-- A property of the sample that uses a class relies on it. -/
theorem reliesOn (path : List Text) (hname : e.qualifiedName = "A".toList)
    (hp : (p.customType.map CustomType.converterClass, p.var.type.qualifiedName) =
      (some converter, type))
    {used : Text} (hused : used ∈ [converter, type]) {levels : Nat}
    (heq : used = withLevels ("A.".toList ++ Text.join ".".toList path) levels)
    (hsimple : ∀ name ∈ path, '.' ∉ name) {t first : TypeDecl}
    {others : List TypeDecl} (halong : t.along? path = some (first :: others)) :
    ReliesOn e t p levels first others := by
  obtain ⟨hconverter, rfl⟩ := Prod.mk.inj hp
  obtain ⟨custom, hcustom, rfl⟩ := Option.map_eq_some_iff.mp hconverter
  exact ⟨custom, hcustom, used, hused, path, hsimple, halong, by rw [heq, hname]; rfl⟩

theorem exists_property (h : usedIn e = ("A".toList, [(some converter, type)])) :
    e.qualifiedName = "A".toList ∧ ∃ p ∈ e.properties,
      (p.customType.map CustomType.converterClass, p.var.type.qualifiedName) =
        (some converter, type) := by
  obtain ⟨hname, hproperties⟩ := Prod.mk.inj h
  obtain ⟨p, rest, hp, hhead, -⟩ := List.map_eq_cons_iff.mp hproperties
  exact ⟨hname, p, by simp [hp], hhead⟩

/-- An entity of the sample that is accepted. -/
theorem exists_entity {e' : Text × List (Option Text × Text)}
    (h : (read converter type).toOption.join.map usedIn = some e') :
    ∃ e, read converter type = .ok (some e) ∧ usedIn e = e' := by
  obtain ⟨e, he, hused⟩ := Option.map_eq_some_iff.mp h
  exact ⟨e, eq_ok_of_toOption (Option.join_eq_some_iff.mp he), hused⟩

theorem bodyIsRead (hread : readBody converter type = .ok e)
    (hfirst :
      (entityType? (unitWith converter type) [] { package := "m" }).isSome = true)
    (hmark :
      (marksOf (unitWith converter type) [] { package := "m" }
        (typeWith converter type)).read?
      Shape.entity = .ok (some ⟨none, false, true, true⟩)) :
    BodyIsRead (unitWith converter type) [] "A.java" [] {} { package := "m" }
      (typeWith converter type)
      e := by
  obtain ⟨t, ht⟩ := Option.isSome_iff_exists.mp hfirst
  obtain rfl := List.mem_singleton.mp (mem_types_of_entityType? ht)
  obtain ⟨⟨header, indexMarks⟩, hhead, hread⟩ := ok_of_bind hread
  obtain ⟨parts, hparts, hread⟩ := ok_of_bind hread
  cases hread
  exact .intro ht hmark hhead hparts

end InnerClassSample

open InnerClassSample in
/-- An inner class is let through where it is declared in a static one, and
where the field is an array of it. -/
theorem inner_classes_let_through :
    ∃ e, ofUnit? (unitWith "Outer.Conv" "Color[]") [] "A.java" [] {}
      { package := "m" } = .ok (some e) ∧
      ∃ p ∈ e.properties,
        ReliesOn e (typeWith "Outer.Conv" "Color[]") p 0 outer [conv] ∧
        conv.isEffectivelyStatic = false ∧
        ReliesOn e (typeWith "Outer.Conv" "Color[]") p 1 color [] ∧
        color.isEffectivelyStatic = false := by
  have hread : (read "Outer.Conv" "Color[]").toOption.join.map usedIn =
      some ("A".toList, [(some "A.Outer.Conv".toList, "A.Color[]".toList)]) := by
        decide +kernel
  obtain ⟨e, he, hused⟩ := exists_entity hread
  obtain ⟨hname, p, hp, huses⟩ := exists_property hused
  refine ⟨e, he, p, hp, ?_, rfl, ?_, rfl⟩
  · exact reliesOn ["Outer".toList, "Conv".toList] hname huses
      List.mem_cons_self (by decide)
      (by decide) rfl
  · exact reliesOn ["Color".toList] hname huses
      (List.mem_cons_of_mem _ List.mem_cons_self) (by decide) (by decide) rfl

open InnerClassSample in
/-- In the sample, the way to an accepted converter begins with a static class,
and a converter that is not static is reported. -/
theorem converted_properties_rely_on_static_sample :
    (∃ e, read "Outer.Conv" "String" = .ok (some e) ∧ ∃ p ∈ e.properties,
      ReliesOn e (typeWith "Outer.Conv" "String") p 0 outer [conv] ∧
      outer.isEffectivelyStatic = true) ∧
    ∃ e, BodyIsRead (unitWith "Color" "String") [] "A.java" [] {} { package := "m" }
        (typeWith "Color" "String") e ∧
      ∃ p ∈ e.properties, ReliesOn e (typeWith "Color" "String") p 0 color [] ∧
        color.isEffectivelyStatic = false ∧ ∃ location name,
          read "Color" "String" = .error (.unsupportedInnerType location name) := by
  constructor
  · have hread : (read "Outer.Conv" "String").toOption.join.map usedIn =
        some ("A".toList,
          [(some "A.Outer.Conv".toList, "java.lang.String".toList)]) := by
            decide +kernel
    obtain ⟨e, he, hused⟩ := exists_entity hread
    obtain ⟨hname, p, hp, huses⟩ := exists_property hused
    have hrelies : ReliesOn e (typeWith "Outer.Conv" "String") p 0 outer [conv] :=
      reliesOn ["Outer".toList, "Conv".toList] hname huses
        List.mem_cons_self (by decide)
        (by decide) rfl
    obtain ⟨t, ht, hstatic⟩ := (converted_properties_rely_on_static _ _ _ _ _ _).1 e he
    obtain rfl := List.mem_singleton.mp (mem_types_of_entityType? ht)
    exact ⟨e, he, p, hp, hrelies, hstatic p hp 0 outer [conv] hrelies (.inl rfl)⟩
  · have hread : (readBody "Color" "String").toOption.map usedIn =
        some ("A".toList, [(some "A.Color".toList, "java.lang.String".toList)]) := by
          decide +kernel
    obtain ⟨e, he, hused⟩ := Option.map_eq_some_iff.mp hread
    have hbody :=
      bodyIsRead (eq_ok_of_toOption he) (by decide +kernel) (by decide +kernel)
    obtain ⟨hname, p, hp, huses⟩ := exists_property hused
    have hrelies : ReliesOn e (typeWith "Color" "String") p 0 color [] :=
      reliesOn ["Color".toList] hname huses List.mem_cons_self (by decide)
        (by decide) rfl
    obtain ⟨_, _, _, _, inner, _, _, herror⟩ :=
      (converted_properties_rely_on_static _ _ _ _ _ _).2
        _ e hbody p hp 0 color [] hrelies (.inl rfl) rfl
    exact ⟨e, hbody, p, hp, hrelies, rfl, _, inner.name, herror⟩

end Entity

end Graft
