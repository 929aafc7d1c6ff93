import Graft.Proofs.Schema.Closed
import Graft.Proofs.Schema.Grouping

/-!
# Schemas of entities in another order

The same entities in another order make the same schemas, each with its entities
in another order (`group_perm`). A run looks entities up by their names; where
these are different, it finds the same ones in any order, so that it accepts
both or neither (`process_perm`).
-/

namespace Graft.Schema

open Entity

/-! ## Looking up by name -/

section

variable {es es' : List Entity}

theorem find?_eq_some_iff (distinct : (es.map qualifiedName).Nodup) {name : Text}
    {e : Entity} :
    es.find? (·.qualifiedName == name) = some e ↔ e ∈ es ∧ e.qualifiedName = name := by
  induction es with
  | nil => simp
  | cons x rest ih =>
    rw [List.map_cons, List.nodup_cons] at distinct
    by_cases hx : x.qualifiedName = name
    · have hrest : ∀ y ∈ rest, y.qualifiedName ≠ name := by
        rintro y hy rfl
        exact distinct.1 (hx ▸ List.mem_map_of_mem hy)
      simp only [List.find?_cons, hx, beq_self_eq_true, Option.some.injEq,
        List.mem_cons]
      grind
    · simp only [List.find?_cons, beq_eq_false_iff_ne.mpr hx, List.mem_cons,
        ih distinct.2]
      grind

theorem find?_perm (h : es.Perm es') (distinct : (es.map qualifiedName).Nodup)
    (name : Text) :
    es.find? (·.qualifiedName == name) = es'.find? (·.qualifiedName == name) := by
  have distinct' := (h.map qualifiedName).nodup_iff.mp distinct
  ext e
  rw [find?_eq_some_iff distinct, find?_eq_some_iff distinct', h.mem_iff]

/-! ## Runs -/

theorem Linked.of_subset {e target : Entity} {r : ToMany} (h : Linked es e target r)
    (hsub : ∀ x ∈ es, x ∈ es') : Linked es' e target r := by
  cases h with
  | backlink name only found => exact .backlink name only found
  | columns only found => exact .columns only found
  | joined join only found =>
    obtain ⟨x, hx, hname⟩ := found
    exact .joined join only ⟨x, hsub x hx, hname⟩

theorem IsClosed.perm (closed : IsClosed es) (h : es.Perm es')
    (distinct : (es.map qualifiedName).Nodup) : IsClosed es' where
  toOnes e he r hr := by
    obtain ⟨target, htarget, hname⟩ := closed.toOnes e (h.mem_iff.mpr he) r hr
    exact ⟨target, h.mem_iff.mp htarget, hname⟩
  toManys e he r hr := by
    obtain ⟨target, hfind, linked⟩ := closed.toManys e (h.mem_iff.mpr he) r hr
    refine ⟨target, ?_, linked.of_subset fun x hx => h.mem_iff.mp hx⟩
    rw [← find?_perm h distinct]
    exact hfind

theorem map_qualifiedName_withKeys (es : List Entity) :
    (es.map withKeys).map qualifiedName = es.map qualifiedName := by
  rw [List.map_map]
  rfl

theorem process_accepts_perm (h : es.Perm es') (distinct : (es.map qualifiedName).Nodup)
    (accepted : (process es).error? = none) : (process es').error? = none := by
  obtain ⟨usable, closed⟩ := process_error_iff.mp accepted
  refine process_error_iff.mpr ⟨fun e he => usable e (h.mem_iff.mpr he), ?_⟩
  refine closed.perm (h.map withKeys) ?_
  rwa [map_qualifiedName_withKeys]

theorem process_perm (h : es.Perm es') (distinct : (es.map qualifiedName).Nodup) :
    (process es).error? = none ↔ (process es').error? = none :=
  ⟨process_accepts_perm h distinct,
    process_accepts_perm h.symm ((h.map qualifiedName).nodup_iff.mp distinct)⟩

theorem process_result_perm (h : es.Perm es') (accepted : (process es).error? = none)
    (accepted' : (process es').error? = none) :
    (process es).result.Perm (process es').result := by
  rw [process_result_of_usable (process_error_iff.mp accepted).1,
    process_result_of_usable (process_error_iff.mp accepted').1]
  exact h.map withKeys

/-! ## Schemas -/

theorem Grouped.eq_map {ss : List Schema} (h : Grouped es ss) :
    ss = (ss.map Schema.name).map fun name =>
      ⟨name, es.filter (·.schemaName == name)⟩ := by
  rw [List.map_map]
  conv_lhs => rw [← List.map_id ss]
  refine List.map_congr_left fun s hs => ?_
  rw [Function.comp_apply, ← h.entities s hs, id]

theorem Grouped.names_perm {ss ss' : List Schema} (h : Grouped es ss)
    (h' : Grouped es' ss') (hperm : es.Perm es') :
    ss.map Schema.name = ss'.map Schema.name := by
  have hsorted (ss : List Schema) (hss : IsSorted ss) :
      (ss.map Schema.name).Pairwise (· < ·) :=
    List.pairwise_map.mpr hss
  have hmem (name : Text) : name ∈ ss.map Schema.name ↔ name ∈ ss'.map Schema.name := by
    rw [h.names, h'.names, (hperm.map schemaName).mem_iff]
  exact (hsorted ss h.sorted).eq_of_mem_iff (hsorted ss' h'.sorted) hmem

theorem group_perm (h : es.Perm es') :
    List.Forall₂ (fun s s' => s.name = s'.name ∧ s.entities.Perm s'.entities)
      (group es) (group es') := by
  have hgroup := grouped_group es
  have hgroup' := grouped_group es'
  rw [hgroup.eq_map, hgroup'.eq_map, hgroup.names_perm hgroup' h,
    List.forall₂_map_left_iff, List.forall₂_map_right_iff]
  exact List.forall₂_same.mpr fun name _ => ⟨rfl, h.filter _⟩

/-- No two entities of one schema have one name. -/
def HasDistinctNames (es : List Entity) : Prop :=
  (es.map fun e => (e.schemaName, e.qualifiedName)).Nodup

instance : Decidable (HasDistinctNames es) := inferInstanceAs (Decidable (List.Nodup _))

theorem HasDistinctNames.of_mem_group (h : HasDistinctNames es) {s : Schema}
    (hs : s ∈ group es) :
    (s.entities.map qualifiedName).Nodup := by
  rw [(grouped_group es).entities s hs]
  have hpairs : ((es.filter (·.schemaName == s.name)).map
      fun e => (e.schemaName, e.qualifiedName)).Nodup :=
        h.sublist (List.filter_sublist.map _)
  have heq :
      ((es.filter (·.schemaName == s.name)).map fun e =>
        (e.schemaName, e.qualifiedName)) =
      ((es.filter (·.schemaName == s.name)).map qualifiedName).map
        (Prod.mk s.name) := by
    rw [List.map_map]
    refine List.map_congr_left fun e he => ?_
    rw [Function.comp_apply, beq_iff_eq.mp (List.mem_filter.mp he).2]
  rw [heq] at hpairs
  exact hpairs.of_map _

/-- The schemas of entities in another order, one by one: a run accepts
both or neither. -/
theorem group_accepts_perm (h : es.Perm es') (distinct : HasDistinctNames es) :
    List.Forall₂ (fun s s' => s.name = s'.name ∧ s.entities.Perm s'.entities ∧
      ((process s.entities).error? = none ↔ (process s'.entities).error? = none))
        (group es) (group es') := by
  have hdistinct : ∀ s ∈ group es, (s.entities.map qualifiedName).Nodup :=
    fun s hs => distinct.of_mem_group hs
  refine ((List.forall₂_and_left _ _).mpr ⟨hdistinct, group_perm h⟩).imp ?_
  rintro s s' ⟨hnodup, hname, hperm⟩
  exact ⟨hname, hperm, process_perm hperm hnodup⟩

end

end Graft.Schema
