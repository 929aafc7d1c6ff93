import Graft.Proofs.Results
import Graft.Schema.Relations
import Mathlib.Data.List.Nodup

/-!
# Foreign keys

Every to-one relation gets a property for the key of its target. Such a key is
*usable* when a property has its name or when a property could be given it
(`isUsable`). What the keys of relations make of the properties of an entity is
said for one relation first, and from it for any number of them (`Keyed`).
-/

namespace Graft.Schema

open Entity

/-! ## One relation -/

/-- A relation with its key named. -/
def named (r : ToOne) : ToOne := { r with foreignKey := some r.foreignKeyName }

@[simp] theorem foreignKeyName_named (r : ToOne) :
    (named r).foreignKeyName = r.foreignKeyName := rfl

@[simp] theorem named_named (r : ToOne) : named (named r) = named r := rfl

@[simp] theorem var_named (r : ToOne) : (named r).var = r.var := rfl

/-- The property that is made for the key of a relation. -/
def keyProperty (r : ToOne) : Property :=
  foreignKeyProperty r ⟨.primitive "long", r.foreignKeyName⟩

@[simp] theorem name_keyProperty (r : ToOne) :
    (keyProperty r).name = r.foreignKeyName := rfl

/-- Whether the key of a relation is a property, or could be one. -/
def isUsable (properties : List Property) (r : ToOne) : Bool :=
  properties.any (·.name == r.foreignKeyName) || Java.isIdentifier r.foreignKeyName

/-- Properties with one for the key of a relation. -/
def withKey (properties : List Property) (r : ToOne) : List Property :=
  if properties.any (·.name == r.foreignKeyName) then indexProperty
    r.foreignKeyName properties
  else properties ++ [keyProperty r]

/-- The error for a key that is not usable. -/
def keyError (entityName : Text) (r : ToOne) : SourceError :=
  .invalidValue (toOneLocation entityName r) "Relation"
    ("idProperty: " ++ Java.invalidIdentifierMessage r.foreignKeyName)

theorem addForeignKey_eq (entityName : Text) (properties : List Property) (r : ToOne) :
    addForeignKey entityName properties r =
      if isUsable properties r then .ok (withKey properties r)
      else .error (keyError entityName r) := by
  rw [addForeignKey, isUsable, withKey]
  by_cases hproperty : properties.any (·.name == r.foreignKeyName)
  · simp [hproperty]
  · by_cases hname : Java.isIdentifier r.foreignKeyName
    · simp [hproperty, hname, Variable.ofName?, keyProperty]
    · simp [hproperty, hname, Variable.ofName?, keyError]

theorem isUsable_iff {properties : List Property} {r : ToOne} :
    isUsable properties r = true ↔
      (∀ p ∈ properties, p.name ≠ r.foreignKeyName) →
      Java.isIdentifier r.foreignKeyName = true := by
  simp only [isUsable, Bool.or_eq_true, List.any_eq_true, beq_iff_eq]
  grind

/-! ## Indexing a property -/

/-- A property with an index, the default one if it had none. -/
def indexed (p : Property) : Property := { p with index := some (p.index.getD {}) }

/-- The first property of a name has an index. -/
def IsIndexed (properties : List Property) (name : Text) : Prop :=
  ∃ p, properties.find? (·.name == name) = some p ∧ p.index.isSome

section

variable {name : Text} {p : Property} {rest properties : List Property}

theorem isIndexed_cons_of_eq (h : p.name = name) :
    IsIndexed (p :: rest) name ↔ p.index.isSome = true := by
  simp [IsIndexed, h]

theorem isIndexed_cons_of_ne (h : p.name ≠ name) :
    IsIndexed (p :: rest) name ↔ IsIndexed rest name := by
  simp [IsIndexed, h]

theorem indexProperty_cons_of_eq (h : p.name = name) :
    indexProperty name (p :: rest) = indexed p :: rest := by
  rw [indexProperty, if_pos (beq_iff_eq.mpr h), indexed]

theorem indexProperty_cons_of_ne (h : p.name ≠ name) :
    indexProperty name (p :: rest) = p :: indexProperty name rest := by
  rw [indexProperty, if_neg (by simpa using h)]

@[simp] theorem map_name_indexProperty :
    (indexProperty name properties).map Property.name =
      properties.map Property.name := by
  induction properties with
  | nil => rfl
  | cons p rest ih =>
    by_cases h : p.name = name
    · rw [indexProperty_cons_of_eq h]
      rfl
    · rw [indexProperty_cons_of_ne h, List.map_cons, List.map_cons, ih]

theorem indexProperty_append_of_mem (h : name ∈ properties.map Property.name)
    (later : List Property) :
    indexProperty name (properties ++ later) =
      indexProperty name properties ++ later := by
  induction properties with
  | nil => cases h
  | cons p rest ih =>
    by_cases hp : p.name = name
    · rw [List.cons_append, indexProperty_cons_of_eq hp, indexProperty_cons_of_eq hp,
        List.cons_append]
    · have hrest := (List.mem_cons.mp h).resolve_left (Ne.symm hp)
      rw [List.cons_append, indexProperty_cons_of_ne hp, indexProperty_cons_of_ne hp,
        ih hrest, List.cons_append]

/-- An index that is there is not touched. -/
theorem indexProperty_of_isIndexed (h : IsIndexed properties name) :
    indexProperty name properties = properties := by
  induction properties with
  | nil => rfl
  | cons p rest ih =>
    by_cases hp : p.name = name
    · obtain ⟨index, hindex⟩ :=
        Option.isSome_iff_exists.mp ((isIndexed_cons_of_eq hp).mp h)
      rw [indexProperty_cons_of_eq hp, indexed, hindex, Option.getD_some, ← hindex]
    · rw [indexProperty_cons_of_ne hp, ih ((isIndexed_cons_of_ne hp).mp h)]

theorem isIndexed_indexProperty (h : name ∈ properties.map Property.name) :
    IsIndexed (indexProperty name properties) name := by
  induction properties with
  | nil => cases h
  | cons p rest ih =>
    by_cases hp : p.name = name
    · rw [indexProperty_cons_of_eq hp]
      exact (isIndexed_cons_of_eq (p := indexed p) hp).mpr rfl
    · rw [indexProperty_cons_of_ne hp]
      exact (isIndexed_cons_of_ne hp).mpr
        (ih ((List.mem_cons.mp h).resolve_left (Ne.symm hp)))

theorem IsIndexed.append (h : IsIndexed properties name) (later : List Property) :
    IsIndexed (properties ++ later) name := by
  obtain ⟨p, hp, hindex⟩ := h
  exact ⟨p, by rw [List.find?_append, hp, Option.some_or], hindex⟩

theorem IsIndexed.indexProperty (h : IsIndexed properties name) (other : Text) :
    IsIndexed (indexProperty other properties) name := by
  induction properties with
  | nil => exact h
  | cons p rest ih =>
    by_cases hother : p.name = other
    · rw [indexProperty_cons_of_eq hother]
      by_cases hp : p.name = name
      · exact (isIndexed_cons_of_eq (p := indexed p) hp).mpr rfl
      · exact (isIndexed_cons_of_ne (p := indexed p) hp).mpr
          ((isIndexed_cons_of_ne hp).mp h)
    · rw [indexProperty_cons_of_ne hother]
      by_cases hp : p.name = name
      · exact (isIndexed_cons_of_eq hp).mpr ((isIndexed_cons_of_eq hp).mp h)
      · exact (isIndexed_cons_of_ne hp).mpr (ih ((isIndexed_cons_of_ne hp).mp h))

end

/-! ## Properties with keys -/

section

variable {properties : List Property} {r : ToOne}

theorem withKey_of_mem (h : r.foreignKeyName ∈ properties.map Property.name) :
    withKey properties r = indexProperty r.foreignKeyName properties := by
  rw [withKey, if_pos]
  simpa using h

theorem withKey_of_not_mem (h : r.foreignKeyName ∉ properties.map Property.name) :
    withKey properties r = properties ++ [keyProperty r] := by
  rw [withKey, if_neg]
  simpa using h

theorem isIndexed_withKey : IsIndexed (withKey properties r) r.foreignKeyName := by
  by_cases h : r.foreignKeyName ∈ properties.map Property.name
  · rw [withKey_of_mem h]
    exact isIndexed_indexProperty h
  · rw [withKey_of_not_mem h]
    have hnone : properties.find? (·.name == r.foreignKeyName) = none := by
      simpa using h
    exact ⟨keyProperty r, by simp [List.find?_append, hnone], rfl⟩

theorem IsIndexed.withKey {name : Text} (h : IsIndexed properties name) (r : ToOne) :
    IsIndexed (withKey properties r) name := by
  rw [Schema.withKey]
  split
  · exact h.indexProperty _
  · exact h.append _

theorem withKey_of_isIndexed (h : IsIndexed properties r.foreignKeyName) :
    withKey properties r = properties := by
  obtain ⟨p, hp, -⟩ := id h
  have hname : p.name = r.foreignKeyName := by simpa using List.find?_some hp
  rw [withKey_of_mem (hname ▸ List.mem_map_of_mem (List.mem_of_find?_eq_some hp)),
    indexProperty_of_isIndexed h]

theorem mem_names_withKey {name : Text} :
    name ∈ (withKey properties r).map Property.name ↔
      name ∈ properties.map Property.name ∨ name = r.foreignKeyName := by
  by_cases h : r.foreignKeyName ∈ properties.map Property.name
  · rw [withKey_of_mem h, map_name_indexProperty]
    exact ⟨.inl, fun hname => hname.elim id fun hname => hname ▸ h⟩
  · simp [withKey_of_not_mem h]

theorem mem_names_foldl_withKey {name : Text} (rs : List ToOne) :
    name ∈ (rs.foldl withKey properties).map Property.name ↔
      name ∈ properties.map Property.name ∨ ∃ r ∈ rs, r.foreignKeyName = name := by
  induction rs generalizing properties with
  | nil => simp
  | cons r rest ih =>
    rw [List.foldl_cons, ih, mem_names_withKey, or_assoc, eq_comm (a := name)]
    simp

/-- The key of a relation makes no other key usable. -/
theorem isUsable_withKey (h : isUsable properties r = true) :
    isUsable (withKey properties r) = isUsable properties := by
  funext r'
  have hany (ps : List Property) : ps.any (·.name == r'.foreignKeyName) =
      decide (r'.foreignKeyName ∈ ps.map Property.name) := by
    rw [Bool.eq_iff_iff]
    simp
  by_cases hkey : r'.foreignKeyName = r.foreignKeyName
  · have hr' : isUsable properties r' = true := by
      rw [isUsable, hkey]
      exact h
    rw [hr', isUsable, hany]
    simp [mem_names_withKey, hkey]
  · rw [isUsable, isUsable, hany, hany]
    simp [mem_names_withKey, hkey]

end

/-! ## What keys make of properties -/

/-- A property is as it was, or one of some names that has got the
index it lacked. -/
def IndexedFor (names : List Text) (p p' : Property) : Prop :=
  p' = p ∨ (p.name ∈ names ∧ p.index = none ∧ p' = { p with index := some {} })

/-- What the keys of some relations make of properties: the old ones
stay in their places, and behind them one is made for each name that
none of them has. -/
structure Keyed (rs : List ToOne) (before old made : List Property) : Prop where
  kept : List.Forall₂ (IndexedFor (rs.map ToOne.foreignKeyName)) before old
  /-- A property is made for the first relation that has its name for a key. -/
  made_for : ∀ p ∈ made,
    ∃ r, rs.find? (·.foreignKeyName == p.name) = some r ∧ p = keyProperty r
  names : ∀ name, name ∈ made.map Property.name ↔
    name ∈ rs.map ToOne.foreignKeyName ∧ name ∉ before.map Property.name
  distinct : (made.map Property.name).Nodup
  indexed : ∀ r ∈ rs, IsIndexed (old ++ made) r.foreignKeyName

theorem IndexedFor.mono {names names' : List Text} {p p' : Property}
    (h : IndexedFor names p p') (hsub : ∀ name ∈ names, name ∈ names') :
    IndexedFor names' p p' := by
  rcases h with rfl | ⟨hname, hnone, rfl⟩
  · exact .inl rfl
  · exact .inr ⟨hsub _ hname, hnone, rfl⟩

theorem IndexedFor.name_eq {names : List Text} {p p' : Property}
    (h : IndexedFor names p p') :
    p'.name = p.name := by
  rcases h with rfl | ⟨-, -, rfl⟩ <;> rfl

theorem IndexedFor.indexed {names : List Text} {p p' : Property}
    (h : IndexedFor names p p') (hname : p.name ∈ names) :
    IndexedFor names p (indexed p') := by
  rcases h with rfl | ⟨-, hnone, rfl⟩
  · cases hindex : p'.index with
    | none =>
      exact .inr ⟨hname, hindex, by rw [Schema.indexed, hindex, Option.getD_none]⟩
    | some index =>
      exact .inl (by rw [Schema.indexed, hindex, Option.getD_some, ← hindex])
  · exact .inr ⟨hname, hnone, rfl⟩

theorem indexedFor_indexProperty {names : List Text} {before old : List Property}
    {name : Text} (h : List.Forall₂ (IndexedFor names) before old)
    (hname : name ∈ names) :
    List.Forall₂ (IndexedFor names) before (indexProperty name old) := by
  induction h with
  | nil => exact .nil
  | @cons p p' before old hp hrest ih =>
    by_cases hp' : p'.name = name
    · rw [indexProperty_cons_of_eq hp']
      exact .cons (hp.indexed (hp.name_eq ▸ hp' ▸ hname)) hrest
    · rw [indexProperty_cons_of_ne hp']
      exact .cons hp ih

namespace Keyed

variable {rs : List ToOne} {before old made : List Property}

theorem nothing (before : List Property) : Keyed [] before before [] where
  kept := List.forall₂_same.mpr fun _ _ => .inl rfl
  made_for p hp := absurd hp List.not_mem_nil
  names := by simp
  distinct := .nil
  indexed r hr := absurd hr List.not_mem_nil

theorem map_name_old (h : Keyed rs before old made) :
    old.map Property.name = before.map Property.name := by
  have hkept := h.kept
  clear h
  induction hkept with
  | nil => rfl
  | cons hp _ ih => rw [List.map_cons, List.map_cons, hp.name_eq, ih]

theorem nodup_names (h : Keyed rs before old made)
    (hbefore : (before.map Property.name).Nodup) :
    ((old ++ made).map Property.name).Nodup := by
  rw [List.map_append, h.map_name_old]
  refine hbefore.append h.distinct ?_
  intro name hold hmade
  exact ((h.names name).mp hmade).2 hold

/-! One more relation: its key is an old property, one that is made already, or
one to be made. -/

theorem kept_snoc (h : Keyed rs before old made) (r : ToOne) :
    List.Forall₂ (IndexedFor ((rs ++ [r]).map ToOne.foreignKeyName)) before old := by
  refine h.kept.imp fun p p' hp => hp.mono fun name hname => ?_
  rw [List.map_append]
  exact List.mem_append_left _ hname

theorem made_for_snoc (h : Keyed rs before old made) (r : ToOne) :
    ∀ p ∈ made, ∃ r', (rs ++ [r]).find? (·.foreignKeyName == p.name) = some r' ∧
      p = keyProperty r' := by
  intro p hp
  obtain ⟨r', hr', hmade⟩ := h.made_for p hp
  exact ⟨r', by rw [List.find?_append, hr', Option.some_or], hmade⟩

theorem indexed_snoc (h : Keyed rs before old made) (r : ToOne) :
    ∀ r' ∈ rs ++ [r], IsIndexed (withKey (old ++ made) r) r'.foreignKeyName := by
  intro r' hr'
  rcases List.mem_append.mp hr' with hr' | hr'
  · exact (h.indexed r' hr').withKey r
  · rw [List.mem_singleton.mp hr']
    exact isIndexed_withKey

theorem mem_keys_snoc {r : ToOne} {name : Text} :
    name ∈ (rs ++ [r]).map ToOne.foreignKeyName ↔
      name ∈ rs.map ToOne.foreignKeyName ∨ name = r.foreignKeyName := by
  simp

theorem step_old (h : Keyed rs before old made) {r : ToOne}
    (hold : r.foreignKeyName ∈ old.map Property.name) :
    withKey (old ++ made) r = indexProperty r.foreignKeyName old ++ made ∧
      Keyed (rs ++ [r]) before (indexProperty r.foreignKeyName old) made := by
  have heq : withKey (old ++ made) r = indexProperty r.foreignKeyName old ++ made := by
    rw [withKey_of_mem, indexProperty_append_of_mem hold]
    rw [List.map_append]
    exact List.mem_append_left _ hold
  refine ⟨heq, ?_, h.made_for_snoc r, fun name => ?_, h.distinct,
    heq ▸ h.indexed_snoc r⟩
  · exact indexedFor_indexProperty (h.kept_snoc r) (mem_keys_snoc.mpr (.inr rfl))
  · rw [h.names, mem_keys_snoc]
    rw [h.map_name_old] at hold
    grind

theorem step_made (h : Keyed rs before old made) {r : ToOne}
    (hmade : r.foreignKeyName ∈ made.map Property.name) :
    withKey (old ++ made) r = old ++ made ∧ Keyed (rs ++ [r]) before old made := by
  have hkey := ((h.names _).mp hmade).1
  obtain ⟨r', hr', hname⟩ := List.mem_map.mp hkey
  have heq : withKey (old ++ made) r = old ++ made :=
    withKey_of_isIndexed (hname ▸ h.indexed r' hr')
  refine ⟨heq, h.kept_snoc r, h.made_for_snoc r, fun name => ?_, h.distinct,
    heq ▸ h.indexed_snoc r⟩
  rw [h.names, mem_keys_snoc]
  grind

theorem step_new (h : Keyed rs before old made) {r : ToOne}
    (hold : r.foreignKeyName ∉ old.map Property.name)
    (hmade : r.foreignKeyName ∉ made.map Property.name) :
    withKey (old ++ made) r = old ++ (made ++ [keyProperty r]) ∧
      Keyed (rs ++ [r]) before old (made ++ [keyProperty r]) := by
  have hnew : r.foreignKeyName ∉ (old ++ made).map Property.name := by
    rw [List.map_append, List.mem_append]
    exact not_or.mpr ⟨hold, hmade⟩
  have heq : withKey (old ++ made) r = old ++ (made ++ [keyProperty r]) := by
    rw [withKey_of_not_mem hnew, List.append_assoc]
  rw [h.map_name_old] at hold
  refine ⟨heq, h.kept_snoc r, fun p hp => ?_, fun name => ?_, ?_,
    heq ▸ h.indexed_snoc r⟩
  · rcases List.mem_append.mp hp with hp | hp
    · exact h.made_for_snoc r p hp
    · -- no relation in front has this key, or its property would be there
      have hnone : rs.find? (·.foreignKeyName == r.foreignKeyName) = none := by
        have hkey : r.foreignKeyName ∉ rs.map ToOne.foreignKeyName := fun hkey =>
          hmade ((h.names _).mpr ⟨hkey, hold⟩)
        simpa using hkey
      rw [List.mem_singleton.mp hp]
      exact ⟨r, by simp [List.find?_append, hnone], rfl⟩
  · rw [List.map_append, List.mem_append, h.names, mem_keys_snoc]
    simp only [List.map_cons, List.map_nil, List.mem_singleton, name_keyProperty]
    grind
  · rw [List.map_append, List.nodup_append]
    refine ⟨h.distinct, List.nodup_singleton _, ?_⟩
    rintro name hname _ hr rfl
    have hkey : name = r.foreignKeyName := List.mem_singleton.mp hr
    exact hmade (hkey ▸ hname)

theorem step (h : Keyed rs before old made) (r : ToOne) :
    ∃ old' made', withKey (old ++ made) r = old' ++ made' ∧
      Keyed (rs ++ [r]) before old' made' := by
  by_cases hold : r.foreignKeyName ∈ old.map Property.name
  · exact ⟨_, _, h.step_old hold⟩
  · by_cases hmade : r.foreignKeyName ∈ made.map Property.name
    · exact ⟨_, _, h.step_made hmade⟩
    · exact ⟨_, _, h.step_new hold hmade⟩

/-- Any number of relations more. -/
theorem run (h : Keyed rs before old made) (later : List ToOne) :
    ∃ old' made', later.foldl withKey (old ++ made) = old' ++ made' ∧
      Keyed (rs ++ later) before old' made' := by
  induction later generalizing rs old made with
  | nil => exact ⟨old, made, rfl, by rwa [List.append_nil]⟩
  | cons r later ih =>
    obtain ⟨old', made', heq, hstep⟩ := h.step r
    obtain ⟨old'', made'', hrun, hkeyed⟩ := ih hstep
    refine ⟨old'', made'', ?_, ?_⟩
    · rw [List.foldl_cons, heq, hrun]
    · rwa [List.append_assoc] at hkeyed

end Keyed

/-- The properties of an entity with one for each key of some relations. -/
theorem exists_keyed (rs : List ToOne) (properties : List Property) :
    ∃ old made, rs.foldl withKey properties = old ++ made ∧
      Keyed rs properties old made := by
  have h := (Keyed.nothing properties).run rs
  rwa [List.append_nil] at h

end Graft.Schema
