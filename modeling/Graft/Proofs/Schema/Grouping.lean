import Graft.Proofs.Text.Order
import Graft.Schema.Relations

/-!
# Grouping entities into schemas

Entities are put into the schemas one by one (`Grouped.add`). The schemas stay
sorted by name, and each holds the entities of its name in their order; so the
schemas of a list of entities are determined by which names there are, and no
entity is lost or held twice (`group_flatMap`).
-/

namespace Graft

namespace Schema

/-! ## One entity more -/

/-- Some schemas are sorted by their names, which are different. -/
def IsSorted (ss : List Schema) : Prop := ss.Pairwise fun s s' => s.name < s'.name

/-- What an entity changes in schemas that are sorted: it joins the one
of its name, or it opens one between those that come before and those
that come behind. -/
inductive Added (e : Entity) : List Schema → List Schema → Prop
  | joined (front back : List Schema) {s : Schema} (name : s.name = e.schemaName) :
      Added e (front ++ s :: back)
        (front ++ { s with entities := s.entities ++ [e] } :: back)
  | opened (front back : List Schema) (before : ∀ s ∈ front, s.name < e.schemaName)
      (behind : ∀ s ∈ back, e.schemaName < s.name) :
      Added e (front ++ back) (front ++ ⟨e.schemaName, [e]⟩ :: back)

section

variable {e : Entity} {ss ss' : List Schema}

theorem Added.cons {s : Schema} (h : Added e ss ss') (hname : s.name < e.schemaName) :
    Added e (s :: ss) (s :: ss') := by
  cases h with
  | joined front back name => exact .joined (s :: front) back name
  | opened front back before behind =>
    exact .opened (s :: front) back (List.forall_mem_cons.mpr ⟨hname, before⟩) behind

theorem added_addEntity (h : IsSorted ss) : Added e ss (addEntity e ss) := by
  induction ss with
  | nil => exact .opened [] [] (by simp) (by simp)
  | cons s rest ih =>
    obtain ⟨hbehind, hrest⟩ := List.pairwise_cons.mp h
    rw [addEntity]
    by_cases hname : s.name = e.schemaName
    · rw [if_pos (beq_iff_eq.mpr hname)]
      exact .joined [] rest hname
    · rw [if_neg (by simpa using hname)]
      by_cases hbefore : e.schemaName < s.name
      · rw [if_pos (Text.before_iff.mpr hbefore)]
        refine .opened [] (s :: rest) (by simp) (List.forall_mem_cons.mpr ⟨hbefore, ?_⟩)
        exact fun s' hs' => hbefore.trans (hbehind s' hs')
      · rw [if_neg (mt Text.before_iff.mp hbefore)]
        exact (ih hrest).cons (lt_of_le_of_ne (not_lt.mp hbefore) hname)

theorem Added.mem_names (h : Added e ss ss') {name : Text} :
    name ∈ ss'.map Schema.name ↔ name ∈ ss.map Schema.name ∨ name = e.schemaName := by
  cases h with
  | joined front back hname =>
    simp only [List.map_append, List.map_cons, List.mem_append, List.mem_cons, hname]
    grind
  | opened =>
    simp only [List.map_append, List.map_cons, List.mem_append, List.mem_cons]
    grind

theorem Added.isSorted (h : Added e ss ss') (hsorted : IsSorted ss) : IsSorted ss' := by
  cases h with
  | joined front back hname =>
    rw [IsSorted, List.pairwise_append, List.pairwise_cons] at hsorted ⊢
    exact ⟨hsorted.1, hsorted.2.1, fun s hs => List.forall_mem_cons.mpr
      (List.forall_mem_cons.mp (hsorted.2.2 s hs))⟩
  | opened front back before behind =>
    rw [IsSorted, List.pairwise_append] at hsorted ⊢
    refine ⟨hsorted.1, List.pairwise_cons.mpr ⟨behind, hsorted.2.1⟩, fun s hs => ?_⟩
    exact List.forall_mem_cons.mpr ⟨before s hs, hsorted.2.2 s hs⟩

theorem Added.perm (h : Added e ss ss') :
    (ss'.flatMap Schema.entities).Perm (ss.flatMap Schema.entities ++ [e]) := by
  cases h with
  | joined front back =>
    simp only [List.flatMap_append, List.flatMap_cons, List.append_assoc]
    exact ((@List.perm_append_comm _ [e] _).append_left _).append_left _
  | opened =>
    simp only [List.flatMap_append, List.flatMap_cons, List.append_assoc]
    exact (@List.perm_append_comm _ [e] _).append_left _

/-- Each schema holds what it held, with the entity behind it if it is the
schema of the entity. -/
theorem Added.mem_cases (h : Added e ss ss') (hsorted : IsSorted ss) {s : Schema}
    (hs : s ∈ ss') :
    (s ∈ ss ∧ s.name ≠ e.schemaName) ∨
    (∃ s₀ ∈ ss, s₀.name = e.schemaName ∧
      s = { s₀ with entities := s₀.entities ++ [e] }) ∨
    (e.schemaName ∉ ss.map Schema.name ∧ s = ⟨e.schemaName, [e]⟩) := by
  cases h with
  | @joined front back s₀ hname =>
    rw [IsSorted, List.pairwise_append, List.pairwise_cons] at hsorted
    rcases List.mem_append.mp hs with hs | hs
    · have hlt := hsorted.2.2 s hs s₀ List.mem_cons_self
      exact .inl ⟨List.mem_append_left _ hs, (hname ▸ hlt).ne⟩
    · rcases List.mem_cons.mp hs with rfl | hs
      · exact .inr (.inl ⟨s₀, by simp, hname, rfl⟩)
      · exact .inl ⟨by simp [hs], (hname ▸ hsorted.2.1.1 s hs).ne'⟩
  | opened front back before behind =>
    rcases List.mem_append.mp hs with hs | hs
    · exact .inl ⟨List.mem_append_left _ hs, (before s hs).ne⟩
    · rcases List.mem_cons.mp hs with rfl | hs
      · refine .inr (.inr ⟨?_, rfl⟩)
        rw [List.map_append, List.mem_append, List.mem_map, List.mem_map]
        rintro (⟨s, hs, hname⟩ | ⟨s, hs, hname⟩)
        · exact (before s hs).ne hname
        · exact (behind s hs).ne' hname
      · exact .inl ⟨List.mem_append_right _ hs, (behind s hs).ne'⟩

end

/-! ## Any number of entities -/

/-- Schemas hold the entities of a list, each those of its name
in their order. -/
structure Grouped (es : List Entity) (ss : List Schema) : Prop where
  sorted : IsSorted ss
  names : ∀ name, name ∈ ss.map Schema.name ↔ name ∈ es.map Entity.schemaName
  entities : ∀ s ∈ ss, s.entities = es.filter (·.schemaName == s.name)

theorem Grouped.add {es : List Entity} {ss : List Schema} (h : Grouped es ss)
    (e : Entity) :
    Grouped (es ++ [e]) (addEntity e ss) where
  sorted := (added_addEntity h.sorted).isSorted h.sorted
  names name := by
    rw [(added_addEntity h.sorted).mem_names, h.names, List.map_append, List.mem_append]
    simp
  entities s hs := by
    rw [List.filter_append]
    rcases (added_addEntity h.sorted).mem_cases h.sorted hs with
      ⟨hs, hname⟩ | ⟨s₀, hs₀, hname, rfl⟩ | ⟨hnew, rfl⟩
    · rw [h.entities s hs]
      simp [Ne.symm hname]
    · dsimp only
      rw [h.entities s₀ hs₀]
      simp [hname]
    · rw [h.names] at hnew
      have hnone : es.filter (·.schemaName == e.schemaName) = [] := by
        rw [List.filter_eq_nil_iff]
        intro x hx hxe
        exact hnew (beq_iff_eq.mp hxe ▸ List.mem_map_of_mem hx)
      dsimp only
      rw [hnone]
      simp

theorem Grouped.run {es : List Entity} {ss : List Schema} (h : Grouped es ss)
    (later : List Entity) :
    Grouped (es ++ later) (later.foldl (fun ss e => addEntity e ss) ss) := by
  induction later generalizing es ss with
  | nil => rwa [List.append_nil]
  | cons e later ih =>
    rw [List.append_cons]
    exact ih (h.add e)

theorem grouped_group (es : List Entity) : Grouped es (group es) := by
  have hnone : Grouped [] [] := ⟨.nil, by simp, by simp⟩
  exact hnone.run es

theorem foldl_addEntity_perm {ss : List Schema} (h : IsSorted ss)
    (later : List Entity) :
    ((later.foldl (fun ss e => addEntity e ss) ss).flatMap Schema.entities).Perm
      (ss.flatMap Schema.entities ++ later) := by
  induction later generalizing ss with
  | nil => rw [List.append_nil]; exact .refl _
  | cons e later ih =>
    have hadded := added_addEntity (e := e) h
    rw [List.append_cons]
    exact (ih (hadded.isSorted h)).trans (hadded.perm.append_right later)

/-- No entity is lost, and none is held twice. -/
theorem group_flatMap (es : List Entity) :
    ((group es).flatMap Schema.entities).Perm es :=
  foldl_addEntity_perm .nil es

end Schema

end Graft
