import Graft.Proofs.Merge.Slots

/-!
# Constructors take over in turn

New constructors are served in the order in which they were held back. Each
takes, among the slots that are open to it and that no earlier one took, one
that is closest in parameter count, and only a constructor that finds none
open stays to be inserted. `Turns` says so for a list of choices,
`turns_takeOver` shows it for the choices that are made. What the taken slots
mean for the edits follows from it: they are not removed any more, and new
members can be put behind them.
-/

namespace Graft.Merge

open Java Entity Code

/-! ## The closest slot -/

/-- A slot with a left-over constructor that has parameters exactly
if a new one has. -/
structure Slot.OpenTo (slot : Slot) (p : Pending) : Prop where
  stale : slot.isStale = true
  constructor : slot.member.signature.kind = .constructor
  sameClass : slot.member.signature.parameters = [] ↔ p.signature.parameters = []

theorem Slot.isFree_iff_openTo {slot : Slot} {p : Pending} :
    slot.isFree p.signature.parameters.length = true ↔ slot.OpenTo p := by
  have hclass : (slot.member.signature.parameters.isEmpty ==
      (p.signature.parameters.length == 0)) = true ↔
      (slot.member.signature.parameters = [] ↔ p.signature.parameters = []) := by
    rw [beq_iff_eq, Bool.eq_iff_iff, List.isEmpty_iff, beq_iff_eq,
      List.length_eq_zero_iff]
  rw [Slot.isFree, Bool.and_eq_true, Bool.and_eq_true, beq_iff_eq, hclass]
  constructor
  · rintro ⟨⟨hstale, hkind⟩, hsame⟩
    exact ⟨hstale, hkind, hsame⟩
  · intro h
    exact ⟨⟨h.stale, h.constructor⟩, h.sameClass⟩

theorem Slot.not_openTo_takenBy (text : Text) (slot : Slot) (p : Pending) :
    ¬ (slot.takenBy text).OpenTo p := fun h => Bool.noConfusion h.stale

theorem closestFree?_eq_none_iff {arity : Nat} {slots : List Slot} :
    closestFree? arity slots = none ↔ ∀ slot ∈ slots, slot.isFree arity = false := by
  induction slots with
  | nil => simp [closestFree?]
  | cons slot rest ih =>
    rw [List.forall_mem_cons, ← ih, closestFree?]
    dsimp only
    split
    · next hfree =>
      rw [hfree]
      cases closestFree? arity rest with
      | none => simp
      | some found => simp only [Option.map_some]; split <;> simp
    · next hfree => simp [hfree]

/-- No free slot is closer than the one that is chosen. -/
theorem closestFree?_le {arity d i : Nat} {slots : List Slot}
    (h : closestFree? arity slots = some (d, i)) :
    ∀ slot ∈ slots, slot.isFree arity = true → d ≤ slot.distance arity := by
  induction slots generalizing d i with
  | nil => cases h
  | cons head rest ih =>
    rw [closestFree?] at h
    dsimp only at h
    cases hlater : closestFree? arity rest with
    | none =>
      have hrest := closestFree?_eq_none_iff.mp hlater
      rw [hlater, Option.map_none] at h
      intro slot hslot hfree
      rcases List.mem_cons.mp hslot with rfl | hslot
      · rw [if_pos hfree] at h
        cases h
        exact Nat.le_refl _
      · rw [hrest slot hslot] at hfree
        cases hfree
    | some found =>
      obtain ⟨d', i'⟩ := found
      have hrest := ih hlater
      rw [hlater, Option.map_some] at h
      -- the closest slot is no further than the head, if that is free, and than
      -- the best of the rest
      have hle : d ≤ d' ∧ (head.isFree arity = true → d ≤ head.distance arity) := by
        dsimp only at h
        split at h
        · split at h <;> cases h <;> omega
        · next hhead =>
          cases h
          exact ⟨Nat.le_refl _, fun hfree => absurd hfree hhead⟩
      rw [List.forall_mem_cons]
      exact ⟨hle.2, fun slot hslot hfree => Nat.le_trans hle.1 (hrest slot hslot hfree)⟩

/-- What a constructor takes is open to it, and nothing that is open
to it is closer. -/
theorem takeOverSlot?_eq_some {slots : List Slot} {p : Pending} {i : Nat}
    (h : takeOverSlot? slots p = some i) :
    p.signature.kind = .constructor ∧ ∃ slot, slots[i]? = some slot ∧ slot.OpenTo p ∧
      ∀ other ∈ slots, other.OpenTo p → slot.distance p.signature.parameters.length ≤
        other.distance p.signature.parameters.length := by
  refine ⟨(takeOverSlot?_spec h).1, ?_⟩
  rw [takeOverSlot?, if_pos (beq_iff_eq.mpr (takeOverSlot?_spec h).1)] at h
  obtain ⟨⟨d, j⟩, hclosest, rfl⟩ := Option.map_eq_some_iff.mp h
  obtain ⟨slot, hslot, hfree, rfl⟩ := closestFree?_spec hclosest
  exact ⟨slot, hslot, Slot.isFree_iff_openTo.mp hfree, fun other hother hopen =>
    closestFree?_le hclosest other hother (Slot.isFree_iff_openTo.mpr hopen)⟩

/-- What takes nothing is no constructor, or no slot is open to it. -/
theorem takeOverSlot?_eq_none {slots : List Slot} {p : Pending}
    (h : takeOverSlot? slots p = none) (hkind : p.signature.kind = .constructor) :
    ∀ slot ∈ slots, ¬ slot.OpenTo p := by
  rw [takeOverSlot?, if_pos (beq_iff_eq.mpr hkind), Option.map_eq_none_iff,
    closestFree?_eq_none_iff] at h
  intro slot hslot hopen
  rw [← Slot.isFree_iff_openTo, h slot hslot] at hopen
  cases hopen

/-! ## Turn by turn -/

/-- The slots that new members choose, one after the other. -/
def choices : List Slot → List Pending → List (Option Nat)
  | _, [] => []
  | slots, p :: rest =>
    match takeOverSlot? slots p with
    | some i => some i :: choices (slots.modify i (Slot.takenBy p.text)) rest
    | none => none :: choices slots rest

/-- A slot that is open to a new member, and that none of those
before it has chosen. -/
def OpenAtTurn (slots : List Slot) (choice : List (Option Nat)) (turn : Nat)
    (p : Pending) (i : Nat) (slot : Slot) : Prop :=
  slots[i]? = some slot ∧ slot.OpenTo p ∧ some i ∉ choice.take turn

/-- What new members do when each chooses a slot or none in its turn. -/
structure Turns (slots : List Slot) (pending : List Pending)
    (choice : List (Option Nat)) (slots' : List Slot)
    (left : List Pending) : Prop where
  length : choice.length = pending.length
  /-- No slot is chosen twice. -/
  apart : (choice.filterMap id).Nodup
  /-- What is chosen is a closest one of the slots that are open at that turn,
  and it is taken. -/
  takes : ∀ turn p i, pending[turn]? = some p → choice[turn]? = some (some i) →
    p.signature.kind = .constructor ∧ ∃ slot, OpenAtTurn slots choice turn p i slot ∧
      (∀ j other, OpenAtTurn slots choice turn p j other →
        slot.distance p.signature.parameters.length ≤
          other.distance p.signature.parameters.length) ∧
      slots'[i]? = some (slot.takenBy p.text)
  /-- A constructor that chooses none finds none open at its turn. -/
  stays : ∀ turn p, pending[turn]? = some p → choice[turn]? = some none →
    p.signature.kind = .constructor → ∀ j other,
    ¬ OpenAtTurn slots choice turn p j other
  /-- What is not chosen is as it was. -/
  untouched : ∀ i, some i ∉ choice → slots'[i]? = slots[i]?
  /-- What chooses none is left, in its order. -/
  left : left = ((pending.zip choice).filter (·.2.isNone)).map Prod.fst

/-- Behind a choice, the same slots are open at later turns as before, but for
the one chosen. -/
theorem openAtTurn_modify {slots : List Slot} {choice : List (Option Nat)}
    {turn i j : Nat} {p q : Pending} {slot : Slot} :
    OpenAtTurn (slots.modify i (Slot.takenBy q.text)) choice turn p j slot ↔
      OpenAtTurn slots (some i :: choice) (turn + 1) p j slot := by
  rw [OpenAtTurn, OpenAtTurn, List.take_succ_cons, List.mem_cons, not_or,
    Option.some.injEq, List.getElem?_modify, Option.map_eq_map]
  by_cases hij : i = j
  · subst hij
    -- a slot that was just taken is open to nobody
    refine ⟨fun ⟨hslot, hopen, _⟩ => ?_, fun h => absurd rfl h.2.2.1⟩
    obtain ⟨before, -, rfl⟩ := Option.map_eq_some_iff.mp hslot
    rw [if_pos rfl] at hopen
    exact absurd hopen (Slot.not_openTo_takenBy q.text before p)
  · have hji : ¬ j = i := fun h => hij h.symm
    simp only [hij, hji, if_false, Option.map_id', not_false_eq_true, true_and]

namespace Turns

variable {slots slots' : List Slot} {rest left : List Pending}
    {choice : List (Option Nat)} {p : Pending}

/-- A member that chooses none leaves everything to the others. -/
theorem cons_none (h : Turns slots rest choice slots' left)
    (hnone : takeOverSlot? slots p = none) :
    Turns slots (p :: rest) (none :: choice) slots' (p :: left) where
  length := congrArg (· + 1) h.length
  apart := h.apart
  takes := by
    rintro (_ | turn) q i hq hi
    · cases hi
    · obtain ⟨hkind, slot, hopen, hclosest, htaken⟩ := h.takes turn q i hq hi
      simp only [OpenAtTurn, List.take_succ_cons, List.mem_cons, reduceCtorEq,
        false_or] at *
      exact ⟨hkind, slot, hopen, hclosest, htaken⟩
  stays := by
    rintro (_ | turn) q hq hi hkind j other ⟨hother, hopen, hfree⟩
    · cases hq
      exact takeOverSlot?_eq_none hnone hkind other (List.mem_of_getElem? hother) hopen
    · refine h.stays turn q hq hi hkind j other ⟨hother, hopen, fun hmem => hfree ?_⟩
      exact List.mem_cons_of_mem _ hmem
  untouched i hi := h.untouched i fun hmem => hi (List.mem_cons_of_mem _ hmem)
  left := by rw [h.left]; rfl

/-- A member that takes a slot leaves the others those that are still open. -/
theorem cons_some {i : Nat}
    (h : Turns (slots.modify i (Slot.takenBy p.text)) rest choice slots' left)
    (hsome : takeOverSlot? slots p = some i) :
    Turns slots (p :: rest) (some i :: choice) slots' left := by
  obtain ⟨hkind, slot, hslot, hopen, hclosest⟩ := takeOverSlot?_eq_some hsome
  -- the slot is taken now, so nobody takes it later
  have hnew : some i ∉ choice := by
    intro hmem
    obtain ⟨turn, hturn⟩ := List.mem_iff_getElem?.mp hmem
    have hlt := (List.getElem?_eq_some_iff.mp hturn).1
    have hq := List.getElem?_eq_getElem (h.length ▸ hlt)
    obtain ⟨-, other, ⟨hother, hopen', -⟩, -⟩ := h.takes turn _ i hq hturn
    rw [List.getElem?_modify_eq, hslot] at hother
    cases hother
    exact Slot.not_openTo_takenBy p.text slot _ hopen'
  exact
    { length := congrArg (· + 1) h.length
      apart := by
        rw [List.filterMap_cons, id_eq, List.nodup_cons]
        refine ⟨fun hmem => hnew ?_, h.apart⟩
        obtain ⟨x, hx, rfl⟩ := List.mem_filterMap.mp hmem
        exact hx
      takes := by
        rintro (_ | turn) q j hq hj
        · cases hq
          cases hj
          refine ⟨hkind, slot, ⟨hslot, hopen, List.not_mem_nil⟩, ?_, ?_⟩
          · exact fun k other hother =>
              hclosest other (List.mem_of_getElem? hother.1) hother.2.1
          · rw [h.untouched i hnew, List.getElem?_modify_eq, hslot]
            rfl
        · obtain ⟨hkind', other, hopen', hclosest', htaken⟩ := h.takes turn q j hq hj
          exact ⟨hkind', other, openAtTurn_modify.mp hopen',
            fun k third hthird =>
              hclosest' k third (openAtTurn_modify.mpr hthird), htaken⟩
      stays := by
        rintro (_ | turn) q hq hj hkind' k other hother
        · cases hj
        · exact h.stays turn q hq hj hkind' k other (openAtTurn_modify.mpr hother)
      untouched := fun j hj => by
        rw [List.mem_cons, not_or] at hj
        rw [h.untouched j hj.2,
          List.getElem?_modify_ne _ _ fun hij => hj.1 (congrArg some hij.symm)]
      left := h.left }

end Turns

/-- New constructors take over in turn. -/
theorem turns_takeOver (slots : List Slot) (pending : List Pending) :
    Turns slots pending (choices slots pending) (takeOver slots pending).1
      (takeOver slots pending).2 := by
  induction pending generalizing slots with
  | nil =>
    exact ⟨rfl, .nil, by simp, by simp, fun _ _ => rfl, rfl⟩
  | cons p rest ih =>
    rw [takeOver, choices]
    cases hslot : takeOverSlot? slots p with
    | none => exact (ih slots).cons_none hslot
    | some i => exact (ih _).cons_some hslot

/-! ## What taken slots mean for the edits -/

theorem mem_removalEdits_iff {source : Text} {slots : List Slot} {e : Edit} :
    e ∈ removalEdits source slots ↔ ∃ slot ∈ slots, slot.isStale = true ∧
      e = ⟨(removalRange source slot.member.extent).1,
        (removalRange source slot.member.extent).2, []⟩ := by
  refine ⟨exists_removed, ?_⟩
  rintro ⟨slot, hslot, hstale, rfl⟩
  refine List.mem_map.mpr
    ⟨slot.member.extent, mem_distinctExtents.mpr ⟨slot, ?_, rfl⟩, rfl⟩
  exact List.mem_filter.mpr ⟨hslot, hstale⟩

namespace Turns

variable {slots slots' : List Slot} {pending left : List Pending}
    {choice : List (Option Nat)}

/-- What a chosen slot was and what it has become. -/
theorem taken_of_mem (h : Turns slots pending choice slots' left) {i : Nat}
    (hi : some i ∈ choice) :
    ∃ p ∈ pending, ∃ slot, slots[i]? = some slot ∧ slot.OpenTo p ∧
      slots'[i]? = some (slot.takenBy p.text) := by
  obtain ⟨turn, hturn⟩ := List.mem_iff_getElem?.mp hi
  have hlt := (List.getElem?_eq_some_iff.mp hturn).1
  have hp := List.getElem?_eq_getElem (h.length ▸ hlt)
  obtain ⟨-, slot, ⟨hslot, hopen, -⟩, -, htaken⟩ := h.takes turn _ i hp hturn
  exact ⟨_, List.mem_of_getElem? hp, slot, hslot, hopen, htaken⟩

/-- Only what is chosen changes. -/
theorem mem_of_changed (h : Turns slots pending choice slots' left) {i : Nat}
    (hi : slots'[i]? ≠ slots[i]?) : some i ∈ choice :=
  Classical.not_not.mp fun hmem => hi (h.untouched i hmem)

/-- A slot behind the turns is one that was not chosen, or one
that was taken. -/
theorem exists_mem_iff (h : Turns slots pending choice slots' left) (P : Slot → Prop) :
    (∃ slot ∈ slots', P slot) ↔
      (∃ i slot, slots[i]? = some slot ∧ some i ∉ choice ∧ P slot) ∨
      ∃ i slot p, slots[i]? = some slot ∧ some i ∈ choice ∧ slot.OpenTo p ∧
        slots'[i]? = some (slot.takenBy p.text) ∧ P (slot.takenBy p.text) := by
  constructor
  · rintro ⟨slot, hmem, hP⟩
    obtain ⟨i, hi⟩ := List.mem_iff_getElem?.mp hmem
    by_cases hchosen : some i ∈ choice
    · obtain ⟨p, -, before, hbefore, hopen, htaken⟩ := h.taken_of_mem hchosen
      rw [htaken, Option.some.injEq] at hi
      exact .inr ⟨i, before, p, hbefore, hchosen, hopen, htaken, hi ▸ hP⟩
    · exact .inl ⟨i, slot, (h.untouched i hchosen).symm.trans hi, hchosen, hP⟩
  · rintro (⟨i, slot, hslot, hchosen, hP⟩ | ⟨i, slot, p, -, -, -, htaken, hP⟩)
    · exact ⟨slot, List.mem_of_getElem? ((h.untouched i hchosen).trans hslot), hP⟩
    · exact ⟨_, List.mem_of_getElem? htaken, hP⟩

/-- The declarations that are removed are those that were left over and
that nobody took. -/
theorem mem_removalEdits_iff (h : Turns slots pending choice slots' left)
    {source : Text} {e : Edit} :
    e ∈ removalEdits source slots' ↔
      ∃ i slot, slots[i]? = some slot ∧ slot.isStale = true ∧ some i ∉ choice ∧
        e = ⟨(removalRange source slot.member.extent).1,
          (removalRange source slot.member.extent).2, []⟩ := by
  rw [Merge.mem_removalEdits_iff, h.exists_mem_iff]
  constructor
  · rintro (⟨i, slot, hslot, hchosen, hstale, he⟩ | ⟨i, slot, p, -, -, -, -, hstale, -⟩)
    · exact ⟨i, slot, hslot, hstale, hchosen, he⟩
    · cases hstale
  · rintro ⟨i, slot, hslot, hstale, hchosen, he⟩
    exact .inl ⟨i, slot, hslot, hchosen, hstale, he⟩

end Turns

/-- The last end of a kind lies at or behind a position exactly if a member of
the kind that stays ends there. -/
theorem le_lastEnd?_iff {kind : MemberKind} {slots : List Slot} {n : Nat} :
    (∃ last, lastEnd? kind slots = some last ∧ n ≤ last) ↔
      ∃ slot ∈ slots, slot.member.signature.kind = kind ∧ slot.isStale = false ∧
        n ≤ slot.member.extent.stop := by
  have hmem : ∀ stop,
      stop ∈ (slots.filter fun slot => slot.member.signature.kind == kind &&
      !slot.isStale).map (·.member.extent.stop) ↔ ∃ slot ∈ slots,
        slot.member.signature.kind = kind ∧ slot.isStale = false ∧
          slot.member.extent.stop = stop := by
    intro stop
    simp only [List.mem_map, List.mem_filter, Bool.and_eq_true, beq_iff_eq,
      Bool.not_eq_true', and_assoc]
  constructor
  · rintro ⟨last, hlast, hle⟩
    obtain ⟨slot, hslot, hkind, hstale, rfl⟩ := (hmem last).mp (List.max?_mem hlast)
    exact ⟨slot, hslot, hkind, hstale, hle⟩
  · rintro ⟨slot, hslot, hkind, hstale, hle⟩
    have hstop := (hmem _).mpr ⟨slot, hslot, hkind, hstale, rfl⟩
    cases hlast : lastEnd? kind slots with
    | none =>
      rw [lastEnd?, List.max?_eq_none_iff] at hlast
      rw [hlast] at hstop
      cases hstop
    | some last =>
      exact ⟨last, rfl, Nat.le_trans hle ((List.max?_eq_some_iff.mp hlast).2 _ hstop)⟩

/-- New members can be put behind what stayed all along and, constructors among
them, behind what was taken. -/
theorem Turns.le_lastEnd?_iff {slots slots' : List Slot} {pending left : List Pending}
    {choice : List (Option Nat)} (h : Turns slots pending choice slots' left)
    {kind : MemberKind} {n : Nat} :
    (∃ last, lastEnd? kind slots' = some last ∧ n ≤ last) ↔
      ∃ i slot, slots[i]? = some slot ∧ slot.member.signature.kind = kind ∧
        (slot.isStale = false ∨ some i ∈ choice) ∧ n ≤ slot.member.extent.stop := by
  rw [Merge.le_lastEnd?_iff, h.exists_mem_iff]
  constructor
  · rintro (⟨i, slot, hslot, -, hkind, hstale, hle⟩ |
      ⟨i, slot, p, hslot, hchosen, -, -, hkind, -, hle⟩)
    · exact ⟨i, slot, hslot, hkind, .inl hstale, hle⟩
    · exact ⟨i, slot, hslot, hkind, .inr hchosen, hle⟩
  · rintro ⟨i, slot, hslot, hkind, hstays, hle⟩
    by_cases hchosen : some i ∈ choice
    · obtain ⟨p, -, other, hother, hopen, htaken⟩ := h.taken_of_mem hchosen
      rw [hslot, Option.some.injEq] at hother
      subst hother
      exact .inr ⟨i, slot, p, hslot, hchosen, hopen, htaken, hkind, rfl, hle⟩
    · exact .inl ⟨i, slot, hslot, hchosen, hkind, hstays.resolve_right hchosen, hle⟩

/-! ## What is never overwritten -/

namespace Session

/-- What a new constructor takes over is a generated constructor that no
candidate was held against. -/
theorem generated_of_taken (s : Session) {i : Nat} {m : Member}
    (hm : s.members[i]? = some m)
    (hchanged : (takeOver s.slots s.pending).1[i]? ≠ s.slots[i]?) :
    m.provenance.isGenerated = true ∧ m.refreshed = false ∧
    m.signature.kind = .constructor := by
  obtain ⟨p, -, slot, hslot, hopen, -⟩ :=
    (turns_takeOver s.slots s.pending).taken_of_mem
      ((turns_takeOver s.slots s.pending).mem_of_changed hchanged)
  rw [Session.slots, List.getElem?_map, hm, Option.map_some, Option.some.injEq] at hslot
  subst hslot
  have hstale := hopen.stale
  rw [Bool.and_eq_true, Bool.not_eq_true', List.any_eq_false] at hstale
  refine ⟨hstale.1, ?_, hopen.constructor⟩
  simpa using hstale.2 m (List.mem_of_getElem? hm)

/-- What a candidate is held against, sooner or later, is not taken over. -/
theorem Reached.slot_eq_of_candidate {s₀ s : Session} {calls : List Call}
    (reached : Reached s₀ calls s) {c : Candidate} (hc : c ∈ candidates calls) {i : Nat}
    (hi : s₀.indexOf? c.signature = some i) :
    (takeOver s.slots s.pending).1[i]? = s.slots[i]? := by
  refine Classical.not_not.mp fun hchanged => ?_
  obtain ⟨⟨m, hm, hkey⟩, -⟩ := indexOf?_eq_some_iff.mp hi
  have hmem : s.members[i]? = some (s₀.settled calls i m) := by
    rw [reached.members, hm, Option.map_some]
  obtain ⟨hgen, hopen, -⟩ := s.generated_of_taken hmem hchanged
  rw [settled_provenance] at hgen
  obtain ⟨first, hfirst⟩ : ∃ first, candidateFor? calls m.signature = some first := by
    rw [← Option.isSome_iff_exists, candidateFor?, List.find?_isSome]
    exact ⟨c, hc, by simpa using hkey.symm⟩
  rw [settled_of_first hgen (by rw [indexOf?_congr s₀ hkey, hi]) hfirst,
    refreshedBy_refreshed] at hopen
  cases hopen

end Session

/-- **New constructors take over safely.** For all slots and all that is held
back, pairwise different slots are chosen, each a left-over constructor that has
parameters exactly if the new one has, and one closest in parameter count among
those that are still open at its turn; a constructor stays only if none is open,
everything else stays too, in its order. What is chosen is not removed any more,
and it counts among the members that new ones are put behind. In a session, what
is chosen is generated and no candidate was held against it, neither before nor
behind the new constructor. -/
theorem constructors_take_over_safely :
    (∀ (source : Text) (slots : List Slot) (pending : List Pending),
      let choice := choices slots pending
      let slots' := (takeOver slots pending).1
      Turns slots pending choice slots' (takeOver slots pending).2 ∧
      (∀ e, e ∈ removalEdits source slots' ↔ ∃ i slot, slots[i]? = some slot ∧
        slot.isStale = true ∧ some i ∉ choice ∧
        e = ⟨(removalRange source slot.member.extent).1,
          (removalRange source slot.member.extent).2, []⟩) ∧
      ∀ kind n, (∃ last, lastEnd? kind slots' = some last ∧ n ≤ last) ↔
        ∃ i slot, slots[i]? = some slot ∧ slot.member.signature.kind = kind ∧
          (slot.isStale = false ∨ some i ∈ choice) ∧ n ≤ slot.member.extent.stop) ∧
    (∀ (s : Session) (i : Nat) (m : Member), s.members[i]? = some m →
      (takeOver s.slots s.pending).1[i]? ≠ s.slots[i]? →
      m.provenance.isGenerated = true ∧ m.refreshed = false ∧
        m.signature.kind = .constructor) ∧
    ∀ (source typeName : Text) (unit : CompilationUnit) (t : TypeDecl) (depth : Nat)
      (style : Style) (path : Option Text) (calls : List Call),
      let s₀ := Session.ofType source typeName unit t depth style path
      let s := s₀.run calls
      ∀ c ∈ candidates calls, ∀ i, s₀.indexOf? c.signature = some i →
        (takeOver s.slots s.pending).1[i]? = s.slots[i]? := by
  refine ⟨fun source slots pending => ?_, fun s i m => s.generated_of_taken, ?_⟩
  · have turns := turns_takeOver slots pending
    exact ⟨turns, fun e => turns.mem_removalEdits_iff,
      fun kind n => turns.le_lastEnd?_iff⟩
  · intro source typeName unit t depth style path calls s₀ s c hc i hi
    have fresh : s₀.IsFresh :=
      Session.isFresh_ofType source typeName unit t depth style path
    cases kept : s₀.isKept with
    | true =>
      have hs : s = s₀ := Session.run_eq_of_isKept kept calls
      rw [hs, fresh.pending]
      rfl
    | false => exact (Session.reached_run fresh kept calls).slot_eq_of_candidate hc hi

namespace TurnSample

/-- A class with two generated constructors and one to be kept. -/
def source : Text :=
  "class A \x7b\n    int x;\n\n    @Generated A(int a, int b) \x7b\x7d\n\n" ++
    "    @Generated A() \x7b\x7d\n\n    @Keep A(long q) \x7b\x7d\n\x7d\n"

/-- The source as it is read. -/
def unit : CompilationUnit := CompilationUnit.read source

/-- A session over the class. -/
def session : Session := Session.ofType source "A" unit unit.types.head! 1 {}

/-- Two new constructors with parameters and a field, before the candidate for
an old constructor. -/
def calls : List Call :=
  [.define (.constructor ["String".toList]) "A(String s) \x7b\x7d",
    .define (.constructor ["int".toList, "int".toList, "int".toList])
      "A(int a, int b, int c) \x7b\x7d",
    .define (.field "y") "int y;", .define (.constructor []) "A() \x7b\x7d"]

end TurnSample

/-- In the sample, the first new constructor takes over the old one with two
parameters, the second finds none open, and the one without parameters is left
to its own candidate. -/
theorem constructors_take_over_safely_sample :
    let s := TurnSample.session.run TurnSample.calls
    Turns s.slots s.pending [some 1, none, none] (takeOver s.slots s.pending).1
      (takeOver s.slots s.pending).2 ∧
    (∀ m, s.members[1]? = some m →
      m.provenance.isGenerated = true ∧ m.refreshed = false ∧
      m.signature.kind = .constructor) ∧
    TurnSample.session.indexOf? (.constructor []) = some 2 ∧
    (takeOver s.slots s.pending).1[2]? = s.slots[2]? := by
  intro s
  obtain ⟨all, one, order⟩ := constructors_take_over_safely
  have choice : choices s.slots s.pending = [some 1, none, none] := by decide +kernel
  have changed : (takeOver s.slots s.pending).1[1]? ≠ s.slots[1]? := by
    intro h
    have := congrArg (Option.map Slot.isStale) h
    revert this
    decide +kernel
  have index : TurnSample.session.indexOf? (.constructor []) = some 2 := by
    decide +kernel
  refine ⟨?_, fun m hm => one s 1 m hm changed, index, ?_⟩
  · rw [← choice]
    exact (all TurnSample.source s.slots s.pending).1
  · exact order TurnSample.source "A" TurnSample.unit
      TurnSample.unit.types.head! 1 {} none
      TurnSample.calls ⟨.constructor [], ensureStamped "A() \x7b\x7d"⟩
      (by decide +kernel) 2 index

end Graft.Merge
