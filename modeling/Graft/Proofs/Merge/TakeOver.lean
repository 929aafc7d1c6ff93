import Graft.Merge.Writing

/-!
# Which constructors take over which slots

`takeOver` gives new constructors to left-over slots, each slot to one
constructor at most. The list of these assignments says all that it does:
assigned slots hold the text of their constructor, all other slots are as they
were, and every candidate is either assigned once or left.
-/

namespace Graft.Merge

/-- What the closest free slot is, when there is one. -/
theorem closestFree?_spec {arity d i : Nat} {slots : List Slot}
    (h : closestFree? arity slots = some (d, i)) :
    ∃ slot, slots[i]? = some slot ∧ slot.isFree arity = true ∧
      d = slot.distance arity := by
  induction slots generalizing d i with
  | nil => cases h
  | cons slot rest ih =>
    -- what is found further on is found one place later
    have hlater : ∀ d j,
        (closestFree? arity rest).map (fun x => (x.1, x.2 + 1)) = some (d, j) →
        ∃ slot', (slot :: rest)[j]? = some slot' ∧ slot'.isFree arity = true ∧
          d = slot'.distance arity := by
      intro d j hj
      obtain ⟨⟨d', i'⟩, hrest, heq⟩ := Option.map_eq_some_iff.mp hj
      rw [Prod.mk.injEq] at heq
      obtain ⟨rfl, rfl⟩ := heq
      obtain ⟨slot', hslot', hfree, hd⟩ := ih hrest
      exact ⟨slot', by simpa using hslot', hfree, hd⟩
    rw [closestFree?] at h
    dsimp only at h
    split at h
    · next hfree =>
      split at h
      · next d' i' hl =>
        split at h
        · cases h
          exact hlater d i hl
        · cases h
          exact ⟨slot, rfl, hfree, rfl⟩
      · cases h
        exact ⟨slot, rfl, hfree, rfl⟩
    · exact hlater d i h

theorem takeOverSlot?_spec {slots : List Slot} {p : Pending} {i : Nat}
    (h : takeOverSlot? slots p = some i) :
    p.signature.kind = .constructor ∧
      ∃ slot, slots[i]? = some slot ∧
        slot.isFree p.signature.parameters.length = true := by
  rw [takeOverSlot?] at h
  split at h
  · next hkind =>
    obtain ⟨⟨d, j⟩, hclosest, rfl⟩ := Option.map_eq_some_iff.mp h
    obtain ⟨slot, hslot, hfree, -⟩ := closestFree?_spec hclosest
    exact ⟨eq_of_beq hkind, slot, hslot, hfree⟩
  · cases h

theorem Slot.isStale_of_isFree {arity : Nat} {slot : Slot}
    (h : slot.isFree arity = true) :
    slot.isStale = true := by
  rw [Slot.isFree, Bool.and_assoc, Bool.and_eq_true] at h
  exact h.1

/-- A slot that was taken over is not free any more. -/
theorem Slot.isFree_takenBy (arity : Nat) (text : Text) (slot : Slot) :
    (slot.takenBy text).isFree arity = false := rfl

/-- A slot as an assignment of constructors to slots leaves it. -/
def Slot.assigned (taken : List (Nat × Pending)) (index : Nat) (slot : Slot) : Slot :=
  match taken.lookup index with
  | some p => slot.takenBy p.text
  | none => slot

/-- An assignment of new constructors to slots, with what it leaves of both. -/
structure TakenOver (slots : List Slot) (pending : List Pending)
    (taken : List (Nat × Pending)) (slots' : List Slot)
    (left : List Pending) : Prop where
  apart : (taken.map Prod.fst).Nodup
  free : ∀ x ∈ taken, x.2.signature.kind = .constructor ∧
    ∃ slot, slots[x.1]? = some slot ∧ slot.isFree x.2.signature.parameters.length = true
  accounted : pending.Perm (taken.map Prod.snd ++ left)
  slots : ∀ i, slots'[i]? = slots[i]?.map (Slot.assigned taken i)

/-- A slot that was taken over is assigned to what has taken it over. -/
theorem TakenOver.lookup_eq {slots slots' : List Slot} {pending left : List Pending}
    {taken : List (Nat × Pending)} (h : TakenOver slots pending taken slots' left)
    {i : Nat} {p : Pending} (hp : (i, p) ∈ taken) : taken.lookup i = some p := by
  obtain ⟨front, back, rfl⟩ := List.append_of_mem hp
  refine List.lookup_eq_some_iff.mpr ⟨front, back, rfl, fun x hx => ?_⟩
  have hapart := h.apart
  rw [List.map_append, List.nodup_append] at hapart
  exact bne_iff_ne.mpr (hapart.2.2 x.1 (List.mem_map.mpr ⟨x, hx, rfl⟩) i (by simp)).symm

theorem exists_takenOver (slots : List Slot) (pending : List Pending) :
    ∃ taken, TakenOver slots pending taken (takeOver slots pending).1
      (takeOver slots pending).2 := by
  induction pending generalizing slots with
  | nil =>
    refine ⟨[], .nil, by simp, .refl _, fun i => ?_⟩
    have : Slot.assigned [] i = id := rfl
    rw [this, takeOver]
    simp
  | cons p rest ih =>
    rw [takeOver]
    cases hslot : takeOverSlot? slots p with
    | none =>
      obtain ⟨taken, h⟩ := ih slots
      refine ⟨taken, h.apart, h.free, ?_, h.slots⟩
      exact (h.accounted.cons p).trans List.perm_middle.symm
    | some index =>
      dsimp only
      obtain ⟨hkind, slot, hget, hfree⟩ := takeOverSlot?_spec hslot
      obtain ⟨taken, h⟩ := ih (slots.modify index (Slot.takenBy p.text))
      -- the slot just taken is not free for the others
      have hnew : ∀ x ∈ taken, index ≠ x.1 := by
        rintro x hx rfl
        obtain ⟨-, slot', hget', hfree'⟩ := h.free x hx
        rw [List.getElem?_modify_eq, hget] at hget'
        cases hget'
        rw [Slot.isFree_takenBy] at hfree'
        cases hfree'
      refine ⟨(index, p) :: taken, ?_, ?_, h.accounted.cons p, ?_⟩
      · rw [List.map_cons, List.nodup_cons]
        refine ⟨?_, h.apart⟩
        intro hmem
        obtain ⟨x, hx, hxi⟩ := List.mem_map.mp hmem
        exact hnew x hx hxi.symm
      · intro x hx
        rcases List.mem_cons.mp hx with rfl | hx
        · exact ⟨hkind, slot, hget, hfree⟩
        · obtain ⟨hkind', slot', hget', hfree'⟩ := h.free x hx
          rw [List.getElem?_modify_ne _ _ (hnew x hx)] at hget'
          exact ⟨hkind', slot', hget', hfree'⟩
      · intro i
        rw [h.slots]
        by_cases hi : index = i
        · subst hi
          have hlookup : taken.lookup index = none := by
            rw [List.lookup_eq_none_iff]
            intro x hx
            exact bne_iff_ne.mpr (hnew x hx)
          rw [List.getElem?_modify_eq]
          simp [hget, Slot.assigned, hlookup]
        · have hlookup : ((index, p) :: taken).lookup i = taken.lookup i := by
            rw [List.lookup_cons,
              show (i == index) = false from beq_false_of_ne (Ne.symm hi)]
          have : Slot.assigned ((index, p) :: taken) i = Slot.assigned taken i := by
            funext slot
            rw [Slot.assigned, Slot.assigned, hlookup]
          rw [List.getElem?_modify_ne _ _ hi, this]

/-! ## What is written -/

/-- The texts that stand in place of members. -/
def textsInPlace (slots : List Slot) : List Text :=
  slots.filterMap (·.member.replacement)

/-- Nothing is written in place of what is left over. -/
def StaleAreEmpty (slots : List Slot) : Prop :=
  ∀ slot ∈ slots, slot.isStale = true → slot.member.replacement = none

/-- Taking over a slot that is left over adds one text to those in place. -/
theorem textsInPlace_modify {slots : List Slot} {index : Nat} {slot : Slot}
    (text : Text) (hslot : slots[index]? = some slot)
    (hempty : slot.member.replacement = none) :
    (textsInPlace (slots.modify index (Slot.takenBy text))).Perm
      (text :: textsInPlace slots) := by
  induction slots generalizing index with
  | nil => cases hslot
  | cons head rest ih =>
    cases index with
    | zero =>
      cases hslot
      show (textsInPlace (slot.takenBy text :: rest)).Perm _
      rw [textsInPlace, textsInPlace, List.filterMap_cons, List.filterMap_cons, hempty]
      exact .refl _
    | succ index =>
      rw [List.getElem?_cons_succ] at hslot
      have hrest := ih hslot
      rw [List.modify_succ_cons, textsInPlace, textsInPlace, List.filterMap_cons,
        List.filterMap_cons]
      cases head.member.replacement with
      | none => exact hrest
      | some other => exact (hrest.cons other).trans (.swap text other _)

theorem StaleAreEmpty.modify {slots : List Slot} (h : StaleAreEmpty slots) (index : Nat)
    (text : Text) : StaleAreEmpty (slots.modify index (Slot.takenBy text)) := by
  intro slot hslot hstale
  obtain ⟨i, hi⟩ := List.mem_iff_getElem?.mp hslot
  rw [List.getElem?_modify] at hi
  obtain ⟨before, hbefore, rfl⟩ := Option.map_eq_some_iff.mp hi
  split at hstale
  · cases hstale
  · next hne =>
    rw [if_neg hne]
    exact h before (List.mem_of_getElem? hbefore) hstale

/-- What is written in place of members and what is left to be inserted are
together what was to be written before constructors took over. -/
theorem texts_takeOver {slots : List Slot} (h : StaleAreEmpty slots)
    (pending : List Pending) :
    (textsInPlace (takeOver slots pending).1 ++
      (takeOver slots pending).2.map (·.text)).Perm
      (textsInPlace slots ++ pending.map (·.text)) := by
  induction pending generalizing slots with
  | nil => exact .refl _
  | cons p rest ih =>
    rw [takeOver]
    cases hslot : takeOverSlot? slots p with
    | none =>
      exact List.perm_middle.trans ((ih h).cons p.text |>.trans List.perm_middle.symm)
    | some index =>
      obtain ⟨-, slot, hget, hfree⟩ := takeOverSlot?_spec hslot
      have hempty := h slot (List.mem_of_getElem? hget) (Slot.isStale_of_isFree hfree)
      have htaken :=
        (textsInPlace_modify p.text hget hempty).append_right (rest.map (·.text))
      exact (ih (h.modify index p.text)).trans (htaken.trans List.perm_middle.symm)

end Graft.Merge
