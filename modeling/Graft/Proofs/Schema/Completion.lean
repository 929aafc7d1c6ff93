import Graft.Entity.Reading
import Graft.Proofs.Schema.ForeignKeys

/-!
# Completing the entities of a schema

A run completes the entities one by one, and the relations of each one by one,
up to the first key that is not usable. `RunLeaves` says what that leaves of a
schema; what a run leaves, another one does not change
(`completeEntities_idem`), whether it went through or stopped.
-/

namespace Graft.Schema

open Entity

/-! ## The relations of an entity -/

section

variable {properties : List Property}

theorem completeRelations_append (entityName : Text) {reached : List ToOne}
    (usable : ∀ r ∈ reached, isUsable properties r = true) (rest : List ToOne) :
    completeRelations entityName (reached ++ rest) properties =
      let later := completeRelations entityName rest (reached.foldl withKey properties)
      ⟨(reached.map named ++ later.result.1, later.result.2), later.error?⟩ := by
  induction reached generalizing properties with
  | nil => rfl
  | cons r reached ih =>
    have hr := usable r List.mem_cons_self
    have hreached : ∀ r' ∈ reached, isUsable (withKey properties r) r' = true := by
      intro r' hr'
      rw [isUsable_withKey hr]
      exact usable r' (List.mem_cons_of_mem _ hr')
    rw [List.cons_append, completeRelations, addForeignKey_eq, if_pos hr]
    dsimp only
    rw [ih hreached]
    rfl

theorem completeRelations_of_usable (entityName : Text) {rs : List ToOne}
    (usable : ∀ r ∈ rs, isUsable properties r = true) :
    completeRelations entityName rs properties =
      ⟨(rs.map named, rs.foldl withKey properties), none⟩ := by
  have h := completeRelations_append entityName usable []
  rw [List.append_nil] at h
  rw [h]
  simp [completeRelations]

theorem isUsable_foldl {reached : List ToOne}
    (usable : ∀ r ∈ reached, isUsable properties r = true) :
    isUsable (reached.foldl withKey properties) = isUsable properties := by
  induction reached generalizing properties with
  | nil => rfl
  | cons r reached ih =>
    have hr := isUsable_withKey (usable r List.mem_cons_self)
    rw [List.foldl_cons, ih, hr]
    intro r' hr'
    rw [hr]
    exact usable r' (List.mem_cons_of_mem _ hr')

theorem completeRelations_of_unusable (entityName : Text) {reached rest : List ToOne}
    {r : ToOne} (usable : ∀ r ∈ reached, isUsable properties r = true)
    (unusable : isUsable properties r = false) :
    completeRelations entityName (reached ++ r :: rest) properties =
      ⟨(reached.map named ++ r :: rest, reached.foldl withKey properties),
        some (keyError entityName r)⟩ := by
  rw [completeRelations_append entityName usable, completeRelations, addForeignKey_eq,
    isUsable_foldl usable, unusable]
  rfl

theorem foldl_withKey_of_isIndexed {rs : List ToOne}
    (h : ∀ r ∈ rs, IsIndexed properties r.foreignKeyName) :
    rs.foldl withKey properties = properties := by
  induction rs with
  | nil => rfl
  | cons r rest ih =>
    rw [List.foldl_cons, withKey_of_isIndexed (h r List.mem_cons_self)]
    exact ih fun r' hr' => h r' (List.mem_cons_of_mem _ hr')

/-- Relations whose keys are named and made find them. -/
theorem foldl_withKey_named (rs : List ToOne) :
    (rs.map named).foldl withKey (rs.foldl withKey properties) =
      rs.foldl withKey properties := by
  apply foldl_withKey_of_isIndexed
  intro r' hr'
  obtain ⟨r, hr, rfl⟩ := List.mem_map.mp hr'
  obtain ⟨old, made, heq, keyed⟩ := exists_keyed rs properties
  rw [heq, foreignKeyName_named]
  exact keyed.indexed r hr

/-- Relations can all be completed, or the first that cannot stands
behind some that can. -/
theorem usable_or_exists (properties : List Property) (rs : List ToOne) :
    (∀ r ∈ rs, isUsable properties r = true) ∨
      ∃ reached r rest, rs = reached ++ r :: rest ∧
        (∀ r ∈ reached, isUsable properties r = true) ∧
        isUsable properties r = false := by
  cases h : rs.find? fun r => !isUsable properties r with
  | none =>
    left
    simpa using h
  | some r =>
    right
    obtain ⟨hr, reached, rest, heq, hreached⟩ := List.find?_eq_some_iff_append.mp h
    exact ⟨reached, r, rest, heq, by simpa using hreached, by simpa using hr⟩

/-- What is done is found done, and the error is met again where it was. -/
theorem completeRelations_idem (entityName : Text) (rs : List ToOne)
    (properties : List Property) :
    let done := completeRelations entityName rs properties
    completeRelations entityName done.result.1 done.result.2 = done := by
  have hnamed (reached : List ToOne)
      (usable : ∀ r ∈ reached, isUsable properties r = true) :
      ∀ r ∈ reached.map named,
        isUsable (reached.foldl withKey properties) r = true := by
    intro r' hr'
    obtain ⟨r, hr, rfl⟩ := List.mem_map.mp hr'
    rw [isUsable_foldl usable]
    exact usable r hr
  have hmap (reached : List ToOne) : (reached.map named).map named =
      reached.map named := by
    simp
  rcases usable_or_exists properties rs with
    usable | ⟨reached, r, rest, rfl, usable, unusable⟩
  · rw [completeRelations_of_usable entityName usable]
    dsimp only
    rw [completeRelations_of_usable entityName (hnamed rs usable), hmap,
      foldl_withKey_named]
  · rw [completeRelations_of_unusable entityName usable unusable]
    dsimp only
    rw [completeRelations_of_unusable entityName (hnamed reached usable), hmap,
      foldl_withKey_named]
    rw [isUsable_foldl usable]
    exact unusable

end

/-! ## The entities of a schema -/

/-- An entity with a property for the key of each of its to-one relations. -/
def withKeys (e : Entity) : Entity :=
  { e with
    toOnes := e.toOnes.map named
    properties := e.toOnes.foldl withKey e.properties }

/-- All keys of an entity are properties or could be. -/
def HasUsableKeys (e : Entity) : Prop := ∀ r ∈ e.toOnes, isUsable e.properties r = true

theorem completeEntity_of_usable {e : Entity} (h : HasUsableKeys e) :
    completeEntity e = ⟨withKeys e, none⟩ := by
  rw [completeEntity, completeRelations_of_usable e.name h]
  rfl

theorem completeEntity_error_iff {e : Entity} :
    (completeEntity e).error? = none ↔ HasUsableKeys e := by
  constructor
  · intro h
    rcases usable_or_exists e.properties e.toOnes with
      usable | ⟨reached, r, rest, heq, usable, unusable⟩
    · exact usable
    · rw [completeEntity, heq,
        completeRelations_of_unusable e.name usable unusable] at h
      cases h
  · intro h
    rw [completeEntity_of_usable h]

theorem completeEntity_idem (e : Entity) :
    completeEntity (completeEntity e).result = completeEntity e := by
  have h := completeRelations_idem e.name e.toOnes e.properties
  dsimp only at h
  simp only [completeEntity, h]

theorem completeEntities_idem (es : List Entity) :
    completeEntities (completeEntities es).result = completeEntities es := by
  induction es with
  | nil => rfl
  | cons e rest ih =>
    cases h : (completeEntity e).error? with
    | none => simp only [completeEntities, completeEntity_idem, h, ih]
    | some error => simp only [completeEntities, completeEntity_idem, h]

theorem completeEntities_error_iff {es : List Entity} :
    (completeEntities es).error? = none ↔ ∀ e ∈ es, HasUsableKeys e := by
  induction es with
  | nil => exact ⟨fun _ e he => absurd he List.not_mem_nil, fun _ => rfl⟩
  | cons e rest ih =>
    rw [List.forall_mem_cons, ← completeEntity_error_iff, ← ih, completeEntities]
    cases (completeEntity e).error? <;> simp

theorem completeEntities_of_usable {es : List Entity} (h : ∀ e ∈ es, HasUsableKeys e) :
    completeEntities es = ⟨es.map withKeys, none⟩ := by
  induction es with
  | nil => rfl
  | cons e rest ih =>
    rw [List.forall_mem_cons] at h
    rw [completeEntities, completeEntity_of_usable h.1, ih h.2]
    rfl

/-- What completing the first relations of an entity makes of it. -/
structure Completes (reached rest : List ToOne) (e e' : Entity) : Prop where
  relations : e.toOnes = reached ++ rest
  toOnes : e'.toOnes = reached.map named ++ rest
  properties : ∃ old made, e'.properties = old ++ made ∧
    Keyed reached e.properties old made
  others : e' = { e with toOnes := e'.toOnes, properties := e'.properties }

/-- What a run leaves of entities: it completes them in their order, and stops
at the first key that is neither a property nor a name that one could have. -/
inductive RunLeaves : List Entity → List Entity → Prop
  | nil : RunLeaves [] []
  | complete {e e' : Entity} {rest rest' : List Entity} (usable : HasUsableKeys e)
      (completes : Completes e.toOnes [] e e') (later : RunLeaves rest rest') :
      RunLeaves (e :: rest) (e' :: rest')
  | stop {e e' : Entity} {rest : List Entity} {reached behind : List ToOne}
      {r : ToOne} (usable : ∀ r ∈ reached, isUsable e.properties r = true)
      (unusable : isUsable e.properties r = false)
      (completes : Completes reached (r :: behind) e e') :
      RunLeaves (e :: rest) (e' :: rest)

theorem completes_withKeys (e : Entity) : Completes e.toOnes [] e (withKeys e) where
  relations := (List.append_nil _).symm
  toOnes := (List.append_nil _).symm
  properties := exists_keyed e.toOnes e.properties
  others := rfl

theorem Completes.nodup_names {reached rest : List ToOne} {e e' : Entity}
    (h : Completes reached rest e e')
    (hunique : (e.properties.map Property.name).Nodup) :
    (e'.properties.map Property.name).Nodup := by
  obtain ⟨old, made, heq, keyed⟩ := h.properties
  rw [heq]
  exact keyed.nodup_names hunique

theorem runLeaves_completeEntities (es : List Entity) :
    RunLeaves es (completeEntities es).result := by
  induction es with
  | nil => exact .nil
  | cons e rest ih =>
    rcases usable_or_exists e.properties e.toOnes with
      usable | ⟨reached, r, behind, heq, usable, unusable⟩
    · rw [completeEntities, completeEntity_of_usable usable]
      exact .complete usable (completes_withKeys e) ih
    · rw [completeEntities, completeEntity, heq,
        completeRelations_of_unusable e.name usable unusable]
      exact .stop usable unusable ⟨heq, rfl, exists_keyed reached e.properties, rfl⟩

theorem RunLeaves.forall₂ {es es' : List Entity} (h : RunLeaves es es') :
    List.Forall₂ (fun e e' => ∃ reached rest, Completes reached rest e e') es es' := by
  induction h with
  | nil => exact .nil
  | complete _ completes _ ih => exact .cons ⟨_, _, completes⟩ ih
  | stop _ _ completes =>
    refine .cons ⟨_, _, completes⟩ (List.forall₂_same.mpr fun e _ => ?_)
    exact ⟨[], e.toOnes, rfl, rfl, ⟨_, [], (List.append_nil _).symm, .nothing _⟩, rfl⟩

/-! ## Runs -/

theorem process_result (es : List Entity) :
    (process es).result = (completeEntities es).result := by
  rw [process]
  cases h : (completeEntities es).error? with
  | some error => rfl
  | none =>
    dsimp only
    split <;> rfl

theorem process_congr {es es' : List Entity}
    (h : completeEntities es = completeEntities es') :
    process es = process es' := by
  rw [process, process, h]

/-- **A second run changes nothing, and a run touches nothing but keys.** What a
run leaves of a schema, with an error or without, is left so by the next one,
with the same error or none. The properties of an entity stay where they are,
but for the index that a key is to have; behind them one is made for each key
that was none of them, so that names stay distinct; of the rest, only the names
of keys are written into the relations. A run that meets a key that is not
usable does this for the relations in front of it and for no other. -/
theorem process_touches_keys (es : List Entity) :
    process (process es).result = process es ∧
      RunLeaves es (process es).result ∧
      List.Forall₂ (fun e e' => (e.properties.map Property.name).Nodup →
        (e'.properties.map Property.name).Nodup) es (process es).result := by
  have hrun := runLeaves_completeEntities es
  refine ⟨?_, ?_, ?_⟩
  · rw [process_result]
    exact process_congr (completeEntities_idem es)
  · rw [process_result]
    exact hrun
  · rw [process_result]
    refine hrun.forall₂.imp ?_
    rintro e e' ⟨reached, rest, completes⟩
    exact completes.nodup_names

namespace StopSample

/-- An entity with a key that no property can have, and one that a property can
have behind it. -/
def source : Text :=
  "@io.objectbox.annotation.Entity\nclass Order \x7b\n    long id;\n" ++
    "    @io.objectbox.annotation.Relation(idProperty = \"1x\") Customer a;\n" ++
    "    @io.objectbox.annotation.Relation Customer b;\n\x7d\n"

/-- The entity as it is read. -/
def entity : Entity :=
  ((ofSource? source "Order.java" ["Customer", "Order"] {} {}).toOption.join).getD
    default

end StopSample

/-- A run that stops makes no property for the key it stops at, and none for
those behind. -/
theorem stopped_run_makes_no_key :
    StopSample.entity.properties.map Property.name = ["id".toList] ∧
    StopSample.entity.toOnes.map ToOne.foreignKeyName = ["1x".toList, "bId".toList] ∧
    (process [StopSample.entity]).error? =
      some (.invalidValue ⟨"Order", some "a", some 4⟩ "Relation"
      "idProperty: '1x' is not a valid Java identifier") ∧
    (process [StopSample.entity]).result.map (fun e => e.properties.map Property.name) =
      [["id".toList]] := by
  decide +kernel

end Graft.Schema
