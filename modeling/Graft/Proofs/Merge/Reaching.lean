import Graft.Proofs.Merge.Conflicts
import Graft.Proofs.Merge.Ledger

/-!
# Which edits reach a declaration

The edits of a pass stand apart from all members but those that they replace or
remove, and they do that once for each extent. So a declaration is reached by at
most one edit (`reaching_edits`), and the answers to the candidates for its
members tell which one: `isWritten_iff`, `isLeftOver_iff` and `isSpared_iff`.
-/

namespace Graft.Merge

open Java Entity Code

variable {source : Text} {unit : CompilationUnit} {t : TypeDecl}

/-! ## The edits that reach a declaration -/

instance (e : Edit) (start stop : Nat) : Decidable (e.Spares start stop) :=
  inferInstanceAs (Decidable (_ ∧ _))

/-- The edits that replace or split something of an extent. -/
def reaching (x : Extent) (edits : List Edit) : List Edit :=
  edits.filter fun e => ¬ e.Spares x.start x.stop

theorem reaching_append (x : Extent) (front back : List Edit) :
    reaching x (front ++ back) = reaching x front ++ reaching x back :=
      List.filter_append ..

theorem reaching_eq_nil {x : Extent} {edits : List Edit}
    (h : ∀ e ∈ edits, e.Spares x.start x.stop) : reaching x edits = [] := by
  rw [reaching, List.filter_eq_nil_iff]
  intro e he
  simpa using h e he

/-- Of edits made for distinct extents, the one for the extent
itself reaches it. -/
theorem reaching_map {x : Extent} {xs : List Extent} (hdistinct : xs.Nodup)
    (f : Extent → Edit) (hf : ∀ y ∈ xs, (f y).Spares x.start x.stop ↔ y ≠ x) :
    reaching x (xs.map f) = if x ∈ xs then [f x] else [] := by
  -- on the extents one by one: the one that is reached does not come again
  induction hdistinct with
  | nil => rfl
  | @cons y rest hhead _ ih =>
    have hrest := ih fun z hz => hf z (List.mem_cons_of_mem _ hz)
    have hy := hf y List.mem_cons_self
    rw [List.map_cons, reaching, List.filter_cons]
    by_cases hyx : y = x
    · subst hyx
      have hnot : y ∉ rest := fun hmem => hhead y hmem rfl
      rw [reaching, if_neg hnot] at hrest
      rw [if_pos (by simpa using hy), hrest, if_pos List.mem_cons_self]
    · rw [if_neg (by simpa [hy] using hyx)]
      rw [reaching] at hrest
      rw [hrest]
      simp [Ne.symm hyx]

namespace SpansFit

variable {d e : Declaration}

/-- An insertion between members reaches none of them. -/
theorem spares_of_insertion (fit : SpansFit source unit t) (hd : d ∈ t.members)
    {f : Edit} (hpoint : f.stop = f.start) (hbetween : IsBetweenMembers t f.start) :
    (f.clampTo source.length).Spares d.extent.start d.extent.stop := by
  have := fit.stop_lt_length hd
  have := fit.filled d hd
  have := hbetween d hd
  dsimp only [Edit.clampTo, Edit.Spares]
  omega

/-- What is written in place of a declaration reaches that declaration alone. -/
theorem spares_of_replacement (fit : SpansFit source unit t) (hd : d ∈ t.members)
    (he : e ∈ t.members) (text : Text) :
    (Edit.clampTo source.length ⟨e.extent.start, e.extent.stop, text⟩).Spares
      d.extent.start
      d.extent.stop ↔ e.extent ≠ d.extent := by
  have hd' := fit.filled d hd
  have he' := fit.filled e he
  rw [Edit.clampTo_of_le (Nat.le_of_lt he') (Nat.le_of_lt (fit.stop_lt_length he))]
  constructor
  · intro hspares heq
    rw [heq] at hspares
    have := hspares.1
    dsimp only at this
    omega
  · intro hne
    have hapart := fit.isApart hd he (fun h => hne (h ▸ rfl))
    rw [IsApart] at hapart
    dsimp only [Edit.Spares]
    omega

/-- The removal of a declaration reaches that declaration alone. -/
theorem spares_of_removal (fit : SpansFit source unit t) (hd : d ∈ t.members)
    (he : e ∈ t.members) :
    (Edit.clampTo source.length
      ⟨(removalRange source e.extent).1, (removalRange source e.extent).2, []⟩).Spares
        d.extent.start d.extent.stop ↔ e.extent ≠ d.extent := by
  have hd' := fit.filled d hd
  have he' := fit.filled e he
  have hwidens := removalRange_widens fit he
  have hstart := hwidens.starts
  have hstop := hwidens.stops
  rw [Edit.clampTo_of_le (by dsimp only; omega) hwidens.inText]
  constructor
  · intro hspares heq
    have := hspares.1
    dsimp only at this
    rw [← heq] at this hd'
    omega
  · intro hne
    have hapart := fit.removal_apart he hd (fun h => hne (h ▸ rfl))
    dsimp only [Edit.Spares]
    omega

end SpansFit

/-- Something is written in place of a declaration with an extent. -/
def IsWritten (slots : List Slot) (x : Extent) : Prop :=
  ∃ slot ∈ slots, slot.member.replacement ≠ none ∧ slot.member.extent = x

/-- A declaration with an extent is left over. -/
def IsLeftOver (slots : List Slot) (x : Extent) : Prop :=
  ∃ slot ∈ slots, slot.isStale = true ∧ slot.member.extent = x

section

variable {slots : List Slot} {d : Declaration}

theorem reaching_replacementEdits (fit : SpansFit source unit t)
    (hslots : SlotsFit t slots) (hd : d ∈ t.members)
    [Decidable (IsWritten slots d.extent)] :
    reaching d.extent ((replacementEdits slots).map (Edit.clampTo source.length)) =
      if IsWritten slots d.extent then
        [⟨d.extent.start, d.extent.stop, replacementText slots d.extent⟩]
      else [] := by
  rw [replacementEdits, List.map_map, reaching_map (nodup_distinctExtents _)]
  · have hmem : d.extent ∈
        distinctExtents (slots.filter (·.member.replacement.isSome)) ↔
        IsWritten slots d.extent := by
      simp [mem_distinctExtents, IsWritten, Option.isSome_iff_ne_none, and_assoc]
    have hrecorded : Edit.clampTo source.length
        ⟨d.extent.start, d.extent.stop, replacementText slots d.extent⟩ =
          ⟨d.extent.start, d.extent.stop, replacementText slots d.extent⟩ :=
      Edit.clampTo_of_le (Nat.le_of_lt (fit.filled d hd))
        (Nat.le_of_lt (fit.stop_lt_length hd))
    simp only [hmem, Function.comp, hrecorded]
  · intro y hy
    obtain ⟨slot, hslot, rfl⟩ := mem_distinctExtents.mp hy
    obtain ⟨e, he, hfor⟩ := hslots.standsFor slot (List.mem_filter.mp hslot).1
    rw [hfor.extent]
    exact fit.spares_of_replacement hd he _

theorem reaching_removalEdits (fit : SpansFit source unit t) (hslots : SlotsFit t slots)
    (hd : d ∈ t.members) [Decidable (IsLeftOver slots d.extent)] :
    reaching d.extent ((removalEdits source slots).map (Edit.clampTo source.length)) =
      if IsLeftOver slots d.extent then
        [⟨(removalRange source d.extent).1, (removalRange source d.extent).2, []⟩]
      else [] := by
  rw [removalEdits, List.map_map, reaching_map (nodup_distinctExtents _)]
  · have hmem : d.extent ∈ distinctExtents (slots.filter Slot.isStale) ↔
        IsLeftOver slots d.extent := by
      simp [mem_distinctExtents, IsLeftOver, and_assoc]
    have hwidens := removalRange_widens fit hd
    have hfilled := fit.filled d hd
    have hstart := hwidens.starts
    have hstop := hwidens.stops
    have hrecorded : Edit.clampTo source.length
        ⟨(removalRange source d.extent).1, (removalRange source d.extent).2, []⟩ =
          ⟨(removalRange source d.extent).1, (removalRange source d.extent).2, []⟩ :=
      Edit.clampTo_of_le (by dsimp only; omega) hwidens.inText
    simp only [hmem, Function.comp, hrecorded]
  · intro y hy
    obtain ⟨slot, hslot, rfl⟩ := mem_distinctExtents.mp hy
    obtain ⟨e, he, hfor⟩ := hslots.standsFor slot (List.mem_filter.mp hslot).1
    rw [hfor.extent]
    exact fit.spares_of_removal hd he

end

namespace Session

section

variable {s₀ s : Session} {calls : List Call} {d : Declaration}

/-- All the edits of a pass that reach a declaration. -/
theorem Reached.reaching_edits (h : Reached s₀ calls s) (fresh : s₀.IsFresh)
    (fit : SpansFit source unit t) (hmembers : s₀.members = indexMembers t)
    (hsource : s₀.source = source) (hunit : s₀.unit = unit) (hbody : s₀.body = t.body)
    (hd : d ∈ t.members) [Decidable (IsWritten (takeOver s.slots s.pending).1 d.extent)]
    [Decidable (IsLeftOver (takeOver s.slots s.pending).1 d.extent)] :
    reaching d.extent s.buffer.edits =
      (if IsWritten (takeOver s.slots s.pending).1 d.extent then
        [⟨d.extent.start, d.extent.stop,
          replacementText (takeOver s.slots s.pending).1 d.extent⟩] else []) ++
      (if IsLeftOver (takeOver s.slots s.pending).1 d.extent then
        [⟨(removalRange source d.extent).1, (removalRange source d.extent).2, []⟩]
          else []) := by
  rw [← h.source_eq] at hsource
  rw [← h.unit_eq] at hunit
  rw [← h.body_eq] at hbody
  have hslots := h.slotsFit fresh fit hmembers
  rw [buffer_eq, edits]
  dsimp only
  rw [List.map_append, List.map_append, List.map_append, reaching_append,
    reaching_append, reaching_append, hsource,
    reaching_replacementEdits fit hslots hd, reaching_removalEdits fit hslots hd]
  -- what is inserted reaches nothing
  have himports : reaching d.extent
      ((importEdits s.unit s.imports).map (Edit.clampTo source.length)) = [] := by
    apply reaching_eq_nil
    intro e he
    obtain ⟨f, hf, rfl⟩ := List.mem_map.mp he
    obtain ⟨hpoint, hclear⟩ := clear_of_import fit hslots (hunit ▸ hf)
    exact fit.spares_of_insertion hd hpoint hclear.between
  have hinsertions : reaching d.extent
      ((s.insertionEdits (takeOver s.slots s.pending).1
        (takeOver s.slots s.pending).2).map
        (Edit.clampTo source.length)) = [] := by
    apply reaching_eq_nil
    intro e he
    obtain ⟨f, hf, rfl⟩ := List.mem_map.mp he
    obtain ⟨hpoint, hplace⟩ := insertionEdits_insertsAt hf
    exact fit.spares_of_insertion hd hpoint
      (clear_of_insertsAt fit hslots hsource hbody hplace).between
  rw [himports, hinsertions, List.nil_append, List.append_nil]

/-- No edit of a pass reaches a declaration that is not generated. -/
theorem Reached.reaching_byHand (h : Reached s₀ calls s) (fresh : s₀.IsFresh)
    (fit : SpansFit source unit t) (hmembers : s₀.members = indexMembers t)
    (hsource : s₀.source = source) (hunit : s₀.unit = unit) (hbody : s₀.body = t.body)
    (hd : d ∈ t.members) (hhand : ¬ IsGenerated d) :
    reaching d.extent s.buffer.edits = [] := by
  apply reaching_eq_nil
  intro e he
  rw [buffer_eq, h.source_eq, hsource] at he
  obtain ⟨f, hf, rfl⟩ := List.mem_map.mp he
  have hharmless := edits_harmless fit h fresh hmembers hsource hunit hbody hf
  exact (hharmless.clampTo fit).spares fit hd hhand

/-! ## What the answers tell -/

/-- A candidate for a member with an extent was given an answer. -/
def AnsweredFor (s₀ : Session) (calls : List Call) (x : Extent)
    (action : Action) : Prop :=
  ∃ i m, s₀.members[i]? = some m ∧ m.extent = x ∧ Answered s₀ calls i action

/-- A new constructor takes over a member with an extent. -/
def IsTaken (s : Session) (x : Extent) : Prop :=
  ∃ (i : Nat) (slot : Slot) (p : Pending), s.slots[i]? = some slot ∧
    slot.member.extent = x ∧
    slot.isStale = true ∧ p ∈ s.pending ∧ p.signature.kind = .constructor ∧
    (takeOver s.slots s.pending).1[i]? = some (slot.takenBy p.text)

theorem isTaken_iff {taken : List (Nat × Pending)} {left : List Pending}
    (htaken : TakenOver s.slots s.pending taken (takeOver s.slots s.pending).1 left)
    {x : Extent} :
    s.IsTaken x ↔ ∃ i p m, taken.lookup i = some p ∧ s.members[i]? = some m ∧
    m.extent = x := by
  constructor
  · rintro ⟨i, slot, p, hslot, hx, hstale, -, -, hafter⟩
    rw [htaken.slots, hslot, Option.map_some, Option.some.injEq,
      Slot.assigned] at hafter
    rw [slots, List.getElem?_map, Option.map_eq_some_iff] at hslot
    obtain ⟨m, hm, rfl⟩ := hslot
    cases hlookup : taken.lookup i with
    | some q => exact ⟨i, q, m, hlookup, hm, hx⟩
    | none =>
      -- a slot that is not assigned stays left over
      rw [hlookup] at hafter
      dsimp only at hafter
      rw [hafter] at hstale
      cases hstale
  · rintro ⟨i, p, m, hlookup, hm, hx⟩
    obtain ⟨front, back, heq, -⟩ := List.lookup_eq_some_iff.mp hlookup
    obtain ⟨hkind, slot, hslot, hfree⟩ := htaken.free (i, p) (by simp [heq])
    have hextent : slot.member.extent = x := by
      rw [slots, List.getElem?_map, hm, Option.map_some, Option.some.injEq] at hslot
      rw [← hslot]
      exact hx
    refine ⟨i, slot, p, hslot, hextent, Slot.isStale_of_isFree hfree, ?_, hkind, ?_⟩
    · rw [htaken.accounted.mem_iff]
      exact List.mem_append_left _ (List.mem_map.mpr ⟨(i, p), by simp [heq], rfl⟩)
    · rw [htaken.slots, hslot, Option.map_some, Slot.assigned, hlookup]

/-- A declaration is written anew when one of its members was answered so, or
was taken over. -/
theorem Reached.isWritten_iff (h : Reached s₀ calls s) (ledger : Ledger s₀ calls s)
    {x : Extent} :
    IsWritten (takeOver s.slots s.pending).1 x ↔
      AnsweredFor s₀ calls x .replaced ∨ s.IsTaken x := by
  obtain ⟨taken, htaken⟩ := exists_takenOver s.slots s.pending
  rw [isTaken_iff htaken]
  -- behind take-over, the slot at a place is that of the member there
  have hplace (i : Nat) : (takeOver s.slots s.pending).1[i]? =
      s.members[i]?.map fun m => Slot.assigned taken i ⟨m, m.provenance.isGenerated &&
        !s.members.any fun other => other.extent == m.extent && other.refreshed⟩ := by
    rw [htaken.slots, slots, List.getElem?_map, Option.map_map]
    rfl
  constructor
  · rintro ⟨slot, hslot, hreplaced, hx⟩
    obtain ⟨i, hi⟩ := List.mem_iff_getElem?.mp hslot
    rw [hplace, Option.map_eq_some_iff] at hi
    obtain ⟨m, hm, rfl⟩ := hi
    unfold Slot.assigned at hreplaced hx
    cases hlookup : taken.lookup i with
    | some p =>
      rw [hlookup] at hx
      exact .inr ⟨i, p, m, hlookup, hm, hx⟩
    | none =>
      rw [hlookup] at hreplaced hx
      obtain ⟨m₀, hm₀, hextent, -, -⟩ := h.getElem?_members hm
      have hfate := (ledger.fates i m hm .replaced rfl).mp
        (Member.fate?_eq_replaced.mpr hreplaced)
      exact .inl ⟨i, m₀, hm₀, hextent ▸ hx, hfate⟩
  · rintro (⟨i, m₀, hm₀, hx, hanswered⟩ | ⟨i, p, m, hlookup, hm, hx⟩)
    · have hm : s.members[i]? = some (s₀.settled calls i m₀) := by
        rw [h.members, hm₀, Option.map_some]
      have hreplaced := Member.fate?_eq_replaced.mp
        ((ledger.fates i _ hm .replaced rfl).mpr hanswered)
      have hi := hplace i
      rw [hm, Option.map_some] at hi
      refine ⟨_, List.mem_of_getElem? hi, ?_, ?_⟩
      · unfold Slot.assigned
        split
        · rw [Slot.takenBy]
          exact Option.some_ne_none _
        · exact hreplaced
      · unfold Slot.assigned
        split <;> exact (settled_extent ..).trans hx
    · have hi := hplace i
      rw [hm, Option.map_some, Slot.assigned, hlookup] at hi
      exact ⟨_, List.mem_of_getElem? hi, Option.some_ne_none _, hx⟩

/-- A declaration that declares a member has one in every
session over its type. -/
theorem Reached.exists_member (h : Reached s₀ calls s)
    (hmembers : s₀.members = indexMembers t) (hd : d ∈ t.members)
    (hgen : IsGenerated d) :
    ∃ (i : Nat) (m : Member), s.members[i]? = some m ∧ m.extent = d.extent ∧
      m.provenance.isGenerated = true := by
  obtain ⟨signature, hsignature⟩ := List.exists_mem_of_ne_nil _ hgen.declares
  have hmem : _ ∈ membersOf d := List.mem_map.mpr ⟨signature, hsignature, rfl⟩
  obtain ⟨i, hi⟩ :=
    List.mem_iff_getElem?.mp (hmembers ▸ mem_indexMembers.mpr ⟨d, hd, hmem⟩)
  refine ⟨i, s₀.settled calls i _, by rw [h.members, hi, Option.map_some], ?_, ?_⟩
  · rw [settled_extent]
  · rw [settled_provenance]
    exact hgen.marked

/-- A generated declaration is left over when no candidate was held against any
of its members and none was taken over. -/
theorem Reached.isLeftOver_iff (h : Reached s₀ calls s) (fit : SpansFit source unit t)
    (hmembers : s₀.members = indexMembers t) (hd : d ∈ t.members)
    (hgen : IsGenerated d) :
    IsLeftOver (takeOver s.slots s.pending).1 d.extent ↔
      (∀ m ∈ s.members, m.extent = d.extent → m.refreshed = false) ∧
      ¬ s.IsTaken d.extent := by
  obtain ⟨taken, htaken⟩ := exists_takenOver s.slots s.pending
  rw [isTaken_iff htaken]
  constructor
  · rintro ⟨slot, hslot, hstale, hx⟩
    obtain ⟨i, hi⟩ := List.mem_iff_getElem?.mp hslot
    rw [htaken.slots, slots, List.getElem?_map, Option.map_map,
      Option.map_eq_some_iff] at hi
    obtain ⟨m, hm, rfl⟩ := hi
    simp only [Function.comp, Slot.assigned] at hstale hx
    cases hlookup : taken.lookup i with
    | some p =>
      rw [hlookup] at hstale
      cases hstale
    | none =>
      rw [hlookup] at hstale hx
      dsimp only at hstale hx
      rw [Bool.and_eq_true, Bool.not_eq_true', List.any_eq_false] at hstale
      refine ⟨?_, ?_⟩
      · intro n hn hnx
        have := hstale.2 n hn
        rw [Bool.and_eq_true, beq_iff_eq, hnx, hx] at this
        exact Bool.not_eq_true _ ▸ fun hrefreshed => this ⟨rfl, hrefreshed⟩
      · rintro ⟨j, p, n, hp, hn, hnx⟩
        have hij := h.eq_of_taken fit hmembers htaken hp hm hn (hx.trans hnx.symm)
        rw [← hij, hlookup] at hp
        cases hp
  · rintro ⟨hopen, hfree⟩
    -- any member of the declaration will do
    obtain ⟨i, m, hm, hx, hmarked⟩ := h.exists_member hmembers hd hgen
    have hlookup : taken.lookup i = none := by
      cases hlookup : taken.lookup i with
      | none => rfl
      | some p => exact absurd ⟨i, p, m, hlookup, hm, hx⟩ hfree
    have hi := htaken.slots i
    rw [slots, List.getElem?_map, hm, Option.map_some, Option.map_some, Slot.assigned,
      hlookup] at hi
    refine ⟨_, List.mem_of_getElem? hi, ?_, hx⟩
    dsimp only
    rw [hmarked, Bool.true_and, Bool.not_eq_true', List.any_eq_false]
    intro n hn
    rw [Bool.and_eq_true, beq_iff_eq, hx]
    rintro ⟨hnx, hrefreshed⟩
    rw [hopen n hn hnx] at hrefreshed
    cases hrefreshed

/-- A member that is left unchanged shares its declaration with no other. -/
theorem Reached.alone_of_unchanged (h : Reached s₀ calls s) (fresh : s₀.IsFresh)
    {i : Nat} {m : Member} (hm : s.members[i]? = some m)
    (hrefreshed : m.refreshed = true) (hnothing : m.replacement = none) :
    s₀.members.countP (·.extent == m.extent) ≤ 1 := by
  rw [h.members, Option.map_eq_some_iff] at hm
  obtain ⟨m₀, hm₀, rfl⟩ := hm
  have hopen := (fresh.members m₀ (List.mem_of_getElem? hm₀)).1
  rw [settled_extent]
  -- a member is settled without being replaced only when its code agrees and it
  -- is alone
  have halone : s₀.isShared m₀ = false := by
    unfold settled at hrefreshed hnothing
    split at hrefreshed
    · next hfirst =>
      rw [if_pos hfirst] at hnothing
      split at hrefreshed
      · rw [hopen] at hrefreshed
        cases hrefreshed
      · next c hc =>
        rw [hc] at hnothing
        dsimp only at hnothing
        rw [refreshedBy] at hnothing
        split at hnothing
        · next hsame =>
          rw [Bool.and_eq_true, Bool.not_eq_true'] at hsame
          exact hsame.1
        · cases hnothing
    · rw [hopen] at hrefreshed
      cases hrefreshed
  rw [isShared, decide_eq_false_iff_not] at halone
  omega

/-- A generated declaration stays as it is when it declares one member and the
candidate for it was answered to be no change. -/
theorem Reached.isSpared_iff (h : Reached s₀ calls s) (ledger : Ledger s₀ calls s)
    (fresh : s₀.IsFresh) (fit : SpansFit source unit t)
    (hmembers : s₀.members = indexMembers t) (hd : d ∈ t.members)
    (hgen : IsGenerated d) :
    ¬ IsWritten (takeOver s.slots s.pending).1 d.extent ∧
        ¬ IsLeftOver (takeOver s.slots s.pending).1 d.extent ↔
      (signaturesOf d).length = 1 ∧ AnsweredFor s₀ calls d.extent .unchanged := by
  have hcount := countP_indexMembers fit hd
  rw [h.isWritten_iff ledger, h.isLeftOver_iff fit hmembers hd hgen]
  constructor
  · rintro ⟨hwritten, hleft⟩
    rw [not_or] at hwritten
    rw [not_and_not_right] at hleft
    -- some member was decided on, and it was not replaced
    have hdecided : ∃ m ∈ s.members, m.extent = d.extent ∧ m.refreshed = true := by
      apply Classical.byContradiction
      intro hnone
      refine hwritten.2 (hleft fun m hm hx => Bool.not_eq_true _ ▸ fun hrefreshed => ?_)
      exact hnone ⟨m, hm, hx, hrefreshed⟩
    obtain ⟨m, hm, hx, hrefreshed⟩ := hdecided
    obtain ⟨i, hi⟩ := List.mem_iff_getElem?.mp hm
    obtain ⟨m₀, hm₀, hextent, -, -⟩ := h.getElem?_members hi
    have hnothing : m.replacement = none := by
      apply Classical.byContradiction
      intro hreplaced
      have hfate := (ledger.fates i m hi .replaced rfl).mp
        (Member.fate?_eq_replaced.mpr hreplaced)
      exact hwritten.1 ⟨i, m₀, hm₀, hextent ▸ hx, hfate⟩
    have hfate : m.fate? = some .unchanged := by
      rw [Member.fate?, hnothing, hrefreshed]
      rfl
    have hpos : 0 < (signaturesOf d).length := List.length_pos_iff.mpr hgen.declares
    have halone := h.alone_of_unchanged fresh hi hrefreshed hnothing
    rw [hx, hmembers, hcount] at halone
    exact ⟨by omega, i, m₀, hm₀, hextent ▸ hx,
      (ledger.fates i m hi .unchanged rfl).mp hfate⟩
  · rintro ⟨hone, i, m₀, hm₀, hx, hanswered⟩
    have hm : s.members[i]? = some (s₀.settled calls i m₀) := by
      rw [h.members, hm₀, Option.map_some]
    have hfate := (ledger.fates i _ hm .unchanged rfl).mpr hanswered
    have hrefreshed : (s₀.settled calls i m₀).refreshed = true := by
      unfold Member.fate? at hfate
      split at hfate
      · cases hfate
      · split at hfate
        · assumption
        · cases hfate
    -- it is the only member of the declaration
    have honly : ∀ j n, s₀.members[j]? = some n → n.extent = d.extent → i = j := by
      intro j n hn hnx
      rw [hmembers] at hm₀ hn
      exact eq_of_countP_le_one (Nat.le_of_eq (hcount.trans hone)) hm₀ hn
        (beq_iff_eq.mpr hx)
        (beq_iff_eq.mpr hnx)
    -- and it was held against a candidate, so no constructor took it over
    have hfree : ¬ s.IsTaken d.extent := by
      rintro ⟨j, slot, p, hslot, hslotx, hstale, -⟩
      rw [slots, List.getElem?_map, Option.map_eq_some_iff] at hslot
      obtain ⟨n, hn, rfl⟩ := hslot
      rw [Bool.and_eq_true, Bool.not_eq_true', List.any_eq_false] at hstale
      have := hstale.2 _ (List.mem_of_getElem? hm)
      rw [settled_extent, hx, hslotx, hrefreshed] at this
      exact this (by simp)
    refine ⟨?_, ?_⟩
    · rintro (⟨j, n, hn, hnx, hreplaced⟩ | htaken)
      · obtain rfl := honly j n hn hnx
        rw [← ledger.fates i _ hm .replaced rfl, hfate] at hreplaced
        cases hreplaced
      · exact hfree htaken
    · rintro ⟨hopen, -⟩
      have := hopen _ (List.mem_of_getElem? hm) ((settled_extent ..).trans hx)
      rw [hrefreshed] at this
      cases this

end

end Session

end Graft.Merge
