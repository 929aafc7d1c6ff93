import Graft.Proofs.Entity.Members
import Graft.Proofs.Schema.Completion

/-!
# Closed schemas

A schema is *closed* when all that its relations refer to is in it (`IsClosed`),
and a to-many relation says in one way how it is linked (`Linked`). The checks
of a run accept the closed schemas and no others (`checks_iff`); the names that
they go by are those of the completed entities, so that a key made for one
relation can be what another one refers to.
-/

namespace Graft.Schema

open Entity

/-- A to-many relation says in one way how it is linked, and what it
refers to is there. -/
inductive Linked (schema : List Entity) (e target : Entity) (r : ToMany) : Prop
  | backlink (name : Text)
      (only : r.backlink = some name ∧ r.joinColumns = [] ∧ r.joinEntity = none)
      (found : (∃ o ∈ target.toOnes, o.var.name = name) ∨ ∃ p ∈ target.properties,
        p.name = name)
  | columns (only : r.backlink = none ∧ r.joinColumns ≠ [] ∧ r.joinEntity = none)
      (found : ∀ j ∈ r.joinColumns,
        (∃ p ∈ e.properties, p.name = j.source) ∧ ∃ p ∈ target.properties,
        p.name = j.target)
  | joined (join : JoinEntity)
      (only : r.backlink = none ∧ r.joinColumns = [] ∧ r.joinEntity = some join)
      (found : ∃ x ∈ schema, x.qualifiedName = join.entity)

/-- All that the relations of some entities refer to is among them.
Where several entities have one name, that of a to-many relation is
the first of them. -/
structure IsClosed (schema : List Entity) : Prop where
  toOnes : ∀ e ∈ schema, ∀ r ∈ e.toOnes,
    ∃ target ∈ schema, target.qualifiedName = r.target.qualifiedName
  toManys : ∀ e ∈ schema, ∀ r ∈ e.toManys, ∃ target,
    schema.find? (·.qualifiedName == r.target.qualifiedName) = some target ∧
      Linked schema e target r

/-! ## The checks -/

section

variable {schema : List Entity} {e target : Entity}

theorem isKnown_iff {name : Text} :
    isKnown schema name = true ↔ ∃ x ∈ schema, x.qualifiedName = name := by
  simp [isKnown]

theorem hasProperty_iff {name : Text} :
    e.hasProperty name = true ↔ ∃ p ∈ e.properties, p.name = name := by
  simp [hasProperty]

theorem checkToOne_iff {r : ToOne} : checkToOne schema e r = .ok () ↔
    ∃ target ∈ schema, target.qualifiedName = r.target.qualifiedName := by
  rw [checkToOne, ← isKnown_iff]
  split <;> simp [*]

theorem checkBacklink_iff {r : ToMany} : checkBacklink e target r = .ok () ↔
    ∀ name, r.backlink = some name →
      (∃ o ∈ target.toOnes, o.var.name = name) ∨ ∃ p ∈ target.properties,
      p.name = name := by
  rw [checkBacklink]
  cases r.backlink with
  | none => simp
  | some name =>
    have hfound :
        (target.toOnes.any (·.var.name == name) || target.hasProperty name) = true ↔
        (∃ o ∈ target.toOnes, o.var.name = name) ∨ ∃ p ∈ target.properties,
        p.name = name := by
      rw [Bool.or_eq_true, hasProperty_iff]
      simp
    simp only [Option.some.injEq, forall_eq', ← hfound]
    split <;> simp [*]

theorem checkJoinEntity_iff {r : ToMany} : checkJoinEntity schema e r = .ok () ↔
    ∀ join, r.joinEntity = some join → ∃ x ∈ schema, x.qualifiedName = join.entity := by
  rw [checkJoinEntity]
  cases r.joinEntity with
  | none => simp
  | some join =>
    simp only [Option.some.injEq, forall_eq', ← isKnown_iff]
    split <;> simp [*]

theorem joinFault?_eq_none_iff {j : JoinColumns} : joinFault? e target j = none ↔
    (∃ p ∈ e.properties, p.name = j.source) ∧ ∃ p ∈ target.properties,
    p.name = j.target := by
  rw [joinFault?, ← hasProperty_iff, ← hasProperty_iff]
  cases e.hasProperty j.source <;> cases target.hasProperty j.target <;> simp

theorem checkJoinColumns_iff {r : ToMany} : checkJoinColumns e target r = .ok () ↔
    ∀ j ∈ r.joinColumns,
      (∃ p ∈ e.properties, p.name = j.source) ∧ ∃ p ∈ target.properties,
      p.name = j.target := by
  have hnone : r.joinColumns.findSome? (joinFault? e target) = none ↔
      ∀ j ∈ r.joinColumns,
      (∃ p ∈ e.properties, p.name = j.source) ∧ ∃ p ∈ target.properties,
      p.name = j.target := by
    rw [List.findSome?_eq_none_iff]
    exact forall₂_congr fun j _ => joinFault?_eq_none_iff
  rw [checkJoinColumns, ← hnone]
  split <;> simp [*]

theorem linkCount_eq_one_iff {r : ToMany} : r.linkCount = 1 ↔
    (∃ name, r.backlink = some name ∧ r.joinColumns = [] ∧ r.joinEntity = none) ∨
    (r.backlink = none ∧ r.joinColumns ≠ [] ∧ r.joinEntity = none) ∨
    ∃ join, r.backlink = none ∧ r.joinColumns = [] ∧ r.joinEntity = some join := by
  rw [ToMany.linkCount]
  cases r.backlink <;> cases r.joinColumns <;> cases r.joinEntity <;> simp

/-- The ways of linking are counted first, then each of them is checked
where it is named. -/
theorem linked_iff {r : ToMany} : Linked schema e target r ↔ r.linkCount = 1 ∧
    checkBacklink e target r = .ok () ∧ checkJoinEntity schema e r = .ok () ∧
    checkJoinColumns e target r = .ok () := by
  rw [linkCount_eq_one_iff, checkBacklink_iff, checkJoinEntity_iff,
    checkJoinColumns_iff]
  constructor
  · intro h
    cases h with
    | backlink name only found => simpa [only.1, only.2.1, only.2.2] using found
    | columns only found => simpa [only.1, only.2.1, only.2.2] using found
    | joined join only found => simpa [only.1, only.2.1, only.2.2] using found
  · rintro ⟨⟨name, only⟩ | only | ⟨join, only⟩, hback, hjoin, hcolumns⟩
    · exact .backlink name only (hback name only.1)
    · exact .columns only hcolumns
    · exact .joined join only (hjoin join only.2.2)

theorem checkToMany_iff {r : ToMany} : checkToMany schema e r = .ok () ↔ ∃ target,
    schema.find? (·.qualifiedName == r.target.qualifiedName) = some target ∧
      Linked schema e target r := by
  rw [checkToMany]
  cases schema.find? (·.qualifiedName == r.target.qualifiedName) with
  | none => simp
  | some target =>
    simp only [Option.some.injEq, exists_eq_left', linked_iff]
    by_cases hcount : r.linkCount = 1
    · rw [if_neg (not_not.mpr hcount), check_then_eq_ok_iff, check_then_eq_ok_iff]
      exact (and_iff_right hcount).symm
    · rw [if_pos hcount]
      simp [hcount]

theorem checkEntity_iff : checkEntity schema e = .ok () ↔
    (∀ r ∈ e.toOnes, ∃ target ∈ schema, target.qualifiedName = r.target.qualifiedName) ∧
    ∀ r ∈ e.toManys, ∃ target,
      schema.find? (·.qualifiedName == r.target.qualifiedName) = some target ∧
        Linked schema e target r := by
  rw [checkEntity, check_then_eq_ok_iff, forM_eq_ok_iff, forM_eq_ok_iff]
  simp only [checkToOne_iff, checkToMany_iff]

theorem checks_iff : schema.forM (checkEntity schema) = .ok () ↔ IsClosed schema := by
  rw [forM_eq_ok_iff]
  constructor
  · intro h
    exact ⟨fun e he => (checkEntity_iff.mp (h e he)).1,
      fun e he => (checkEntity_iff.mp (h e he)).2⟩
  · intro h e he
    exact checkEntity_iff.mpr ⟨h.toOnes e he, h.toManys e he⟩

end

/-! ## Accepted schemas -/

/-- A run goes through when all keys are usable and the completed entities refer
to one another. -/
theorem process_error_iff {es : List Entity} : (process es).error? = none ↔
    (∀ e ∈ es, HasUsableKeys e) ∧ IsClosed (es.map withKeys) := by
  rw [process, ← completeEntities_error_iff]
  cases hdone : (completeEntities es).error? with
  | some error => simp [hdone]
  | none =>
    have hall := completeEntities_error_iff.mp hdone
    rw [← checks_iff, completeEntities_of_usable hall]
    dsimp only
    split <;> simp [*]

theorem process_result_of_usable {es : List Entity} (h : ∀ e ∈ es, HasUsableKeys e) :
    (process es).result = es.map withKeys := by
  rw [process_result, completeEntities_of_usable h]

/-- In a completed entity, the key of every to-one relation is named, and an
indexed property. -/
theorem exists_indexed_key {e : Entity} {r' : ToOne} (hr' : r' ∈ (withKeys e).toOnes) :
    ∃ key p, r'.foreignKey = some key ∧ (withKeys e).property? key = some p ∧
      p.index.isSome := by
  obtain ⟨r, hr, rfl⟩ := List.mem_map.mp hr'
  obtain ⟨old, made, heq, keyed⟩ := exists_keyed e.toOnes e.properties
  obtain ⟨p, hp, hindex⟩ := keyed.indexed r hr
  refine ⟨r.foreignKeyName, p, rfl, ?_, hindex⟩
  rw [property?, show (withKeys e).properties = old ++ made from heq]
  exact hp

theorem hasProperty_withKeys {e : Entity} {name : Text} :
    (withKeys e).hasProperty name = true ↔
    e.hasProperty name = true ∨ ∃ r ∈ e.toOnes, r.foreignKeyName = name := by
  rw [hasProperty_iff, hasProperty_iff, ← List.mem_map, ← List.mem_map]
  exact mem_names_foldl_withKey e.toOnes

/-! ## Indexes of tables -/

theorem isIndexable_of_readTableIndex {e : Entity} {mark : IndexMark}
    {index : TableIndex} (h : readTableIndex e mark = .ok index) :
    ∀ column ∈ index.properties, isIndexable e column.name = true := by
  rw [readTableIndex] at h
  split at h
  · cases h
  · next properties _ =>
    split at h
    · cases h
    · next hnone =>
      cases h
      simpa using hnone

/-- What an index of a table lists is a property, a to-one relation or
the key of one. -/
theorem isIndexable_of_ofUnit? {unit : Java.CompilationUnit} {source path : Text}
    {siblings : List Text} {reader : ReaderSettings} {settings : AnnotationSettings}
    {e : Entity}
    (h : ofUnit? unit source path siblings reader settings = .ok (some e)) :
    ∀ index ∈ e.indexes, ∀ column ∈ index.properties,
      isIndexable e column.name = true := by
  obtain ⟨t, -, mark, h⟩ := ofType_of_ofUnit? h
  rw [ofType] at h
  obtain ⟨⟨header, marks⟩, -, h⟩ := ok_of_bind h
  obtain ⟨parts, -, h⟩ := ok_of_bind h
  obtain ⟨-, -, h⟩ := ok_of_bind h
  obtain ⟨indexes, hindexes, h⟩ := ok_of_bind h
  cases h
  intro index hindex
  obtain ⟨mark, -, hread⟩ := exists_of_mem_of_mapM hindexes hindex
  exact isIndexable_of_readTableIndex hread

/-- When the keys are properties, what can be indexed is a property or a
to-one relation. -/
theorem isIndexable_iff {e : Entity} {name : Text} : isIndexable e name = true ↔
    (withKeys e).hasProperty name = true ∨ ∃ r ∈ (withKeys e).toOnes,
    r.var.name = name := by
  have htoOnes : (∃ r ∈ (withKeys e).toOnes, r.var.name = name) ↔
      ∃ r ∈ e.toOnes, r.var.name = name := by
    simp [withKeys]
  rw [htoOnes, hasProperty_withKeys, isIndexable]
  simp only [Bool.or_eq_true, List.any_eq_true, beq_iff_eq]
  grind

/-- **A run accepts the closed schemas and no others.** It goes through exactly
when every key that is no property yet has a name that a property can have, and
the entities with their keys refer to each other only. It leaves these entities
then: every to-one relation in them names its key, which is a property with an
index, and what the index of a table lists, in an entity as it is read, is a
property or a to-one relation. -/
theorem process_accepts_closed (es : List Entity) :
    ((process es).error? = none ↔
      (∀ e ∈ es, ∀ r ∈ e.toOnes, (∀ p ∈ e.properties, p.name ≠ r.foreignKeyName) →
        Java.isIdentifier r.foreignKeyName = true) ∧ IsClosed (es.map withKeys)) ∧
    ((process es).error? = none → (process es).result = es.map withKeys ∧ ∀ e ∈ es,
      (∀ r ∈ (withKeys e).toOnes, ∃ key p, r.foreignKey = some key ∧
        (withKeys e).property? key = some p ∧ p.index.isSome) ∧
      ∀ (unit : Java.CompilationUnit) (source path : Text) (siblings : List Text)
        (reader : ReaderSettings) (settings : AnnotationSettings),
        ofUnit? unit source path siblings reader settings = .ok (some e) →
        ∀ index ∈ (withKeys e).indexes, ∀ column ∈ index.properties,
          (∃ p ∈ (withKeys e).properties, p.name = column.name) ∨
            ∃ r ∈ (withKeys e).toOnes, r.var.name = column.name) := by
  constructor
  · rw [process_error_iff]
    refine and_congr_left' (forall₂_congr fun e _ => forall₂_congr fun r _ => ?_)
    exact isUsable_iff
  · intro haccepted
    refine ⟨process_result_of_usable (process_error_iff.mp haccepted).1,
      fun e _ => ⟨?_, ?_⟩⟩
    · exact fun r hr => exists_indexed_key hr
    · intro unit source path siblings reader settings hread index hindex column hcolumn
      have hlisted := isIndexable_of_ofUnit? hread index hindex column hcolumn
      rwa [isIndexable_iff, hasProperty_iff] at hlisted

namespace ClosedSample

/-- An entity that refers to itself, with an index over the key
that is to be made. -/
def source : Text :=
  "@m.Entity @m.Table(indexes = @m.Index(\"nextId\")) class A \x7b @m.Relation A next;" ++
    " @m.Relation(backlink = \"next\") java.util.List<A> before; \x7d"

/-- What reading the source gives. -/
def read : Except SourceError (Option Entity) :=
  ofUnit? (Java.CompilationUnit.read source) source "A.java" [] {} { package := "m" }

/-- The entity as it is read. -/
def entity : Entity := read.toOption.join.getD default

end ClosedSample

/-- The sample is accepted, and its index lists a property that was none
when it was read. -/
theorem process_accepts_closed_sample :
    (process [ClosedSample.entity]).error? = none ∧
    IsClosed [withKeys ClosedSample.entity] ∧
    ClosedSample.entity.properties.map Property.name = [] ∧
    ∀ index ∈ (withKeys ClosedSample.entity).indexes, ∀ column ∈ index.properties,
      (∃ p ∈ (withKeys ClosedSample.entity).properties, p.name = column.name) ∨
        ∃ r ∈ (withKeys ClosedSample.entity).toOnes, r.var.name = column.name := by
  obtain ⟨hsome, haccepted, hnone⟩ : ClosedSample.read.toOption.join.isSome = true ∧
      (process [ClosedSample.entity]).error? = none ∧
      ClosedSample.entity.properties.map Property.name = [] := by
    decide +kernel
  obtain ⟨e, he⟩ := Option.isSome_iff_exists.mp hsome
  have hread : ClosedSample.read = .ok (some ClosedSample.entity) := by
    rw [ClosedSample.entity, he]
    exact eq_ok_of_toOption (Option.join_eq_some_iff.mp he)
  have hsample := process_accepts_closed [ClosedSample.entity]
  refine ⟨haccepted, (hsample.1.mp haccepted).2, hnone, ?_⟩
  exact ((hsample.2 haccepted).2 _ List.mem_cons_self).2 _ _ _ _ _ _ hread

end Graft.Schema
