import Graft.Proofs.Merge.Pass
import Graft.Proofs.Merge.Spans
import Graft.Proofs.Merge.TakeOver

/-!
# The slots of a pass

Every slot that a pass writes from stands for a declaration of the type, and
only declarations that are marked as generated are left over or replaced.
-/

namespace Graft.Merge

open Java Entity Code

/-- A slot stands for a declaration. -/
structure Slot.StandsFor (slot : Slot) (d : Declaration) : Prop where
  declares : signaturesOf d ≠ []
  extent : slot.member.extent = d.extent
  provenance : slot.member.provenance = provenanceOf d.modifiers
  stale : slot.isStale = true → (provenanceOf d.modifiers).isGenerated = true
  replaced : slot.member.replacement ≠ none →
    (provenanceOf d.modifiers).isGenerated = true

theorem Slot.StandsFor.takenBy {slot : Slot} {d : Declaration} (h : slot.StandsFor d)
    (hstale : slot.isStale = true) (text : Text) : (slot.takenBy text).StandsFor d where
  declares := h.declares
  extent := h.extent
  provenance := h.provenance
  stale := by simp [Slot.takenBy]
  replaced _ := h.stale hstale

theorem mem_indexMembers {t : TypeDecl} {m : Member} :
    m ∈ indexMembers t ↔ ∃ d ∈ t.members, m ∈ membersOf d := by
  simp [indexMembers]

theorem of_mem_membersOf {d : Declaration} {m : Member} (h : m ∈ membersOf d) :
    m.signature ∈ signaturesOf d ∧ m.provenance = provenanceOf d.modifiers ∧
      m.extent = d.extent := by
  obtain ⟨signature, hsignature, rfl⟩ := List.mem_map.mp h
  exact ⟨hsignature, rfl, rfl⟩

namespace Session

theorem replacement_settled {s : Session} {calls : List Call} {i : Nat} {m : Member}
    (hfresh : m.replacement = none) (h : (s.settled calls i m).replacement ≠ none) :
    m.provenance.isGenerated = true := by
  cases hgen : m.provenance.isGenerated with
  | true => rfl
  | false =>
    rw [settled_of_not_generated _ _ _ _ hgen] at h
    exact absurd hfresh h

variable {s₀ s : Session} {calls : List Call} {t : TypeDecl}

/-- Before constructors take over, every slot stands for a declaration. -/
theorem Reached.standsFor (h : Reached s₀ calls s) (fresh : s₀.IsFresh)
    (hmembers : s₀.members = indexMembers t) {slot : Slot} (hslot : slot ∈ s.slots) :
    ∃ d ∈ t.members, slot.StandsFor d := by
  obtain ⟨m, hm, rfl⟩ := List.mem_map.mp hslot
  obtain ⟨i, m₀, hm₀, rfl⟩ := h.mem_members hm
  have hmem := List.mem_of_getElem? hm₀
  obtain ⟨d, hd, hmd⟩ := mem_indexMembers.mp (hmembers ▸ hmem)
  obtain ⟨hsignature, hprovenance, hextent⟩ := of_mem_membersOf hmd
  exact ⟨d, hd,
    { declares := List.ne_nil_of_mem hsignature
      extent := by rw [settled_extent, hextent]
      provenance := by rw [settled_provenance, hprovenance]
      stale := fun hstale => by
        have := (Bool.and_eq_true _ _ ▸ hstale).1
        rwa [settled_provenance, hprovenance] at this
      replaced := fun hreplaced => by
        have := replacement_settled (fresh.members m₀ hmem).2 hreplaced
        rwa [hprovenance] at this }⟩

/-- Every slot that a pass writes from stands for a declaration. -/
theorem Reached.standsFor_takeOver (h : Reached s₀ calls s) (fresh : s₀.IsFresh)
    (hmembers : s₀.members = indexMembers t) {slot : Slot}
    (hslot : slot ∈ (takeOver s.slots s.pending).1) :
    ∃ d ∈ t.members, slot.StandsFor d := by
  obtain ⟨taken, htaken⟩ := exists_takenOver s.slots s.pending
  obtain ⟨i, hi⟩ := List.mem_iff_getElem?.mp hslot
  rw [htaken.slots, Option.map_eq_some_iff] at hi
  obtain ⟨before, hbefore, rfl⟩ := hi
  obtain ⟨d, hd, hfor⟩ := h.standsFor fresh hmembers (List.mem_of_getElem? hbefore)
  refine ⟨d, hd, ?_⟩
  rw [Slot.assigned]
  split
  · next p hp =>
    obtain ⟨front, back, rfl, -⟩ := List.lookup_eq_some_iff.mp hp
    obtain ⟨-, slot', hslot', hfree⟩ := htaken.free (i, p) (by simp)
    rw [hbefore, Option.some.injEq] at hslot'
    subst hslot'
    exact hfor.takenBy (Slot.isStale_of_isFree hfree) p.text
  · exact hfor

end Session

/-! ## Extents, each once -/

private theorem mem_foldl_distinct (e : Extent) (es done : List Extent) :
    e ∈ es.foldl (fun es e => if es.contains e then es else es ++ [e]) done ↔
      e ∈ done ∨ e ∈ es := by
  induction es generalizing done with
  | nil => simp
  | cons f rest ih =>
    rw [List.foldl_cons, ih, List.mem_cons]
    split
    · next hf =>
      rw [List.contains_iff_mem] at hf
      constructor
      · rintro (h | h)
        · exact .inl h
        · exact .inr (.inr h)
      · rintro (h | rfl | h)
        · exact .inl h
        · exact .inl hf
        · exact .inr h
    · rw [List.mem_append, List.mem_singleton, or_assoc]

theorem nodup_distinctExtents (slots : List Slot) : (distinctExtents slots).Nodup := by
  have h : ∀ es done : List Extent, done.Nodup →
      (es.foldl (fun es e => if es.contains e then es else es ++ [e]) done).Nodup := by
    intro es
    induction es with
    | nil => exact fun _ hdone => hdone
    | cons e rest ih =>
      intro done hdone
      rw [List.foldl_cons]
      apply ih
      split
      · exact hdone
      · next hnew =>
        rw [List.contains_iff_mem] at hnew
        refine List.nodup_append.mpr
          ⟨hdone, List.nodup_cons.mpr ⟨List.not_mem_nil, .nil⟩, ?_⟩
        rintro f hf g hg rfl
        exact hnew (List.mem_singleton.mp hg ▸ hf)
  exact h _ [] .nil

theorem mem_distinctExtents {slots : List Slot} {e : Extent} :
    e ∈ distinctExtents slots ↔ ∃ slot ∈ slots, slot.member.extent = e := by
  rw [distinctExtents, mem_foldl_distinct, List.mem_map]
  simp

theorem exists_replaced {slots : List Slot} {e : Edit}
    (he : e ∈ replacementEdits slots) :
    ∃ slot ∈ slots, slot.member.replacement ≠ none ∧
      e = ⟨slot.member.extent.start, slot.member.extent.stop, e.text⟩ := by
  obtain ⟨extent, hextent, rfl⟩ := List.mem_map.mp he
  obtain ⟨slot, hslot, rfl⟩ := mem_distinctExtents.mp hextent
  obtain ⟨hmem, hreplaced⟩ := List.mem_filter.mp hslot
  exact ⟨slot, hmem, Option.isSome_iff_ne_none.mp hreplaced, rfl⟩

theorem exists_removed {source : Text} {slots : List Slot} {e : Edit}
    (he : e ∈ removalEdits source slots) :
    ∃ slot ∈ slots, slot.isStale = true ∧
      e = ⟨(removalRange source slot.member.extent).1,
        (removalRange source slot.member.extent).2, []⟩ := by
  obtain ⟨extent, hextent, rfl⟩ := List.mem_map.mp he
  obtain ⟨slot, hslot, rfl⟩ := mem_distinctExtents.mp hextent
  obtain ⟨hmem, hstale⟩ := List.mem_filter.mp hslot
  exact ⟨slot, hmem, hstale, rfl⟩

end Graft.Merge
