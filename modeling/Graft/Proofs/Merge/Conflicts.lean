import Graft.Proofs.Code.Overlap
import Graft.Proofs.Merge.Fates
import Graft.Proofs.Merge.HandWritten

/-!
# No two edits conflict

What a pass removes reaches over blanks to line breaks and never into another
member, a brace, or the lines that another removal takes. What it replaces are
whole extents, and what it inserts stands at places that no removal goes around
(`IsClear`). So the edits of a pass stand apart, pair by pair
(`pairwise_apart`), and can always be applied.
-/

namespace Graft.Merge

open Java Entity Code

variable {source : Text} {unit : CompilationUnit} {t : TypeDecl}

/-! ## What a removal reaches -/

theorem removalRange_start {e : Extent} (h : e.start ≤ source.length) :
    (removalRange source e).1 = e.start ∨
      StartsLine source (removalRange source e).1 := by
  have hlines := wholeLines_start h e.stop
  simp only [removalRange]
  cases hblank : blankLineBefore? source (wholeLines source e.start e.stop).1 with
  | none => exact hlines
  | some start => exact .inr (blankLineBefore?_starts hblank)

theorem removalRange_stop {e : Extent} (h : e.stop ≤ source.length) :
    (removalRange source e).2 = e.stop ∨ (removalRange source e).2 = source.length ∨
      ∀ p, e.stop ≤ p → p + 1 < (removalRange source e).2 → source[p]? ≠ some '\n' :=
  wholeLines_stop source e.start h

/-- A character that is not blank and stands outside a piece stands outside what
the piece is widened to by blanks. -/
theorem outside_of_widens {start stop start' stop' p : Nat}
    (h : WidensByBlanks source start stop start' stop') (hsolid : IsSolid source p)
    (hp : p < start ∨ stop ≤ p) : p < start' ∨ stop' ≤ p := by
  apply Classical.byContradiction
  intro hin
  rcases hp with hp | hp
  · exact not_solid_of_blank h.before (by omega) hp hsolid
  · exact not_solid_of_blank h.after hp (by omega) hsolid

namespace SpansFit

theorem opens_solid (fit : SpansFit source unit t) : IsSolid source t.body.start :=
  ⟨_, fit.opens, by decide⟩

theorem closes_solid (fit : SpansFit source unit t) :
    IsSolid source (t.body.stop - 1) :=
  ⟨_, fit.closes, by decide⟩

variable {d e : Declaration}

/-- A removal stays between the braces. -/
theorem removal_inside (fit : SpansFit source unit t) (hd : d ∈ t.members) :
    t.body.start < (removalRange source d.extent).1 ∧
      (removalRange source d.extent).2 ≤ t.body.stop - 1 := by
  have hwidens := removalRange_widens fit hd
  have hfilled := fit.filled d hd
  have hinside := fit.inside d hd
  have hstart := hwidens.starts
  have hstop := hwidens.stops
  -- the blanks around the member end in front of the braces
  have hopen := outside_of_widens hwidens fit.opens_solid (.inl hinside.1)
  have hclose := outside_of_widens hwidens fit.closes_solid (.inr (by omega))
  omega

/-- A removal stays clear of every other member. -/
theorem removal_apart (fit : SpansFit source unit t) (hd : d ∈ t.members)
    (he : e ∈ t.members) (hne : d ≠ e) :
    (removalRange source d.extent).2 ≤ e.extent.start ∨
      e.extent.stop ≤ (removalRange source d.extent).1 := by
  have hwidens := removalRange_widens fit hd
  have hd' := fit.filled d hd
  have he' := fit.filled e he
  have hstart := hwidens.starts
  have hstop := hwidens.stops
  -- they end in front of the first or the last character of the other member as
  -- well
  rcases fit.isApart hd he hne with hapart | hapart
  · have := outside_of_widens hwidens (fit.first e he) (.inr hapart)
    omega
  · have := outside_of_widens hwidens (fit.last e he) (.inl (by omega))
    omega

/-- A removal takes no more than the rest of the line that its
member ends on. -/
theorem removal_stop_le (fit : SpansFit source unit t) (hd : d ∈ t.members) {p : Nat}
    (hline : StartsLine source p) (hp : d.extent.stop ≤ p) :
    (removalRange source d.extent).2 ≤ p := by
  have hfilled := fit.filled d hd
  have hinside := fit.removal_inside hd
  have hlength := fit.body_lt_length
  apply Nat.le_of_not_lt
  intro hlt
  have hbreak : source[p - 1]? = some '\n' := by
    rcases hline with rfl | hbreak
    · omega
    · exact hbreak
  -- the line break in front of the line stands behind the member, whose last
  -- character is not blank
  have hbehind : d.extent.stop ≤ p - 1 := by
    apply Nat.le_of_not_lt
    intro hlast
    obtain ⟨c, hc, hsolid⟩ := fit.last d hd
    rw [show d.extent.stop - 1 = p - 1 by omega, hbreak] at hc
    cases hc
    cases hsolid
  rcases removalRange_stop (Nat.le_of_lt (fit.stop_lt_length hd)) with
    hstop | hstop | hstop
  · omega
  · omega
  · exact hstop (p - 1) hbehind (by omega) hbreak

/-- Of two removals, the one in front stops before the other starts. -/
theorem removals_apart (fit : SpansFit source unit t) (hd : d ∈ t.members)
    (he : e ∈ t.members) (hapart : d.extent.stop ≤ e.extent.start) :
    (removalRange source d.extent).2 ≤ (removalRange source e.extent).1 := by
  have hfilled := fit.filled d hd
  have hfilled' := fit.filled e he
  have hne : d ≠ e := by
    rintro rfl
    omega
  have hstarts := (removalRange_widens fit hd).starts
  have hstops := (removalRange_widens fit he).stops
  have hfront := fit.removal_apart hd he hne
  have hback := fit.removal_apart he hd hne.symm
  rcases removalRange_start (Nat.le_of_lt (Nat.lt_of_lt_of_le hfilled'
    (Nat.le_of_lt (fit.stop_lt_length he)))) with hstart | hline
  · omega
  · -- the removal behind takes lines from their start, the one in front stops with its line
    exact fit.removal_stop_le hd hline (by omega)

end SpansFit

/-! ## Places for insertions -/

/-- A position lies inside no member, and no removal goes around it. -/
structure IsClear (source : Text) (t : TypeDecl) (slots : List Slot)
    (position : Nat) : Prop where
  between : IsBetweenMembers t position
  removals : ∀ slot ∈ slots, slot.isStale = true →
    position ≤ (removalRange source slot.member.extent).1 ∨
      (removalRange source slot.member.extent).2 ≤ position

/-- The slots of a pass, as far as the positions of its edits depend on them. -/
structure SlotsFit (t : TypeDecl) (slots : List Slot) : Prop where
  standsFor : ∀ slot ∈ slots, ∃ d ∈ t.members, slot.StandsFor d
  together : ∀ a ∈ slots, ∀ b ∈ slots, a.member.extent = b.member.extent →
    a.isStale = true →
    b.isStale = true ∧ b.member.replacement = none

section

variable {slots : List Slot} {position : Nat}

theorem clear_of_le (fit : SpansFit source unit t) (hslots : SlotsFit t slots)
    (h : position ≤ t.body.start + 1) : IsClear source t slots position where
  between := fit.between_of_le h
  removals := by
    intro slot hslot _
    obtain ⟨d, hd, hfor⟩ := hslots.standsFor slot hslot
    rw [hfor.extent]
    have := fit.removal_inside hd
    omega

theorem clear_of_ge (fit : SpansFit source unit t) (hslots : SlotsFit t slots)
    (h : t.body.stop - 1 ≤ position) : IsClear source t slots position where
  between := fit.between_of_ge h
  removals := by
    intro slot hslot _
    obtain ⟨d, hd, hfor⟩ := hslots.standsFor slot hslot
    rw [hfor.extent]
    have := fit.removal_inside hd
    omega

/-- The end of a member that stays is clear: what is removed is
another member. -/
theorem clear_behind (fit : SpansFit source unit t) (hslots : SlotsFit t slots)
    {slot : Slot} (hslot : slot ∈ slots) (hstays : slot.isStale = false) :
    IsClear source t slots slot.member.extent.stop := by
  obtain ⟨e, he, hfor⟩ := hslots.standsFor slot hslot
  refine ⟨hfor.extent ▸ fit.between_stop he, ?_⟩
  intro stale hmem hstale
  obtain ⟨d, hd, hfor'⟩ := hslots.standsFor stale hmem
  -- of one declaration, either all members would be left over or none
  have hne : d ≠ e := by
    rintro rfl
    have :=
      (hslots.together stale hmem slot hslot
        (by rw [hfor'.extent, hfor.extent]) hstale).1
    rw [hstays] at this
    cases this
  have hfilled := fit.filled e he
  have hapart := fit.removal_apart hd he hne
  rw [hfor'.extent, hfor.extent]
  omega

/-- The start of the line of the closing brace is clear when nothing else stands
on that line. -/
theorem clear_of_line (fit : SpansFit source unit t) (hslots : SlotsFit t slots)
    (hline : StartsLine source position)
    (hblank : Text.isBlank (source.slice position (t.body.stop - 1)) = true) :
    IsClear source t slots position where
  between := fit.between_of_blank hblank
  removals := by
    intro slot hslot _
    obtain ⟨d, hd, hfor⟩ := hslots.standsFor slot hslot
    rw [hfor.extent]
    right
    apply fit.removal_stop_le hd hline
    -- the last character of the member would be among the blanks
    apply Nat.le_of_not_lt
    intro hlt
    have := (fit.inside d hd).2
    exact not_solid_of_blank hblank (by omega) (by omega) (fit.last d hd)

theorem clear_of_insertsAt (fit : SpansFit source unit t) (hslots : SlotsFit t slots)
    {s : Session} (hsource : s.source = source) (hbody : s.body = t.body)
    (h : s.InsertsAt slots position) :
    IsClear source t slots position := by
  subst hsource
  cases h with
  | behind hslot hstays => exact clear_behind fit hslots hslot hstays
  | opening => exact clear_of_le fit hslots (Nat.le_of_eq (by rw [hbody]))
  | closing => exact clear_of_ge fit hslots (Nat.le_of_eq (by rw [hbody]))
  | closingLine hinside hblank =>
    have hlength := fit.body_lt_length
    rw [hbody] at hblank ⊢
    exact clear_of_line fit hslots (lineStart_starts (Nat.le_of_lt hlength)) hblank

theorem clear_of_import (fit : SpansFit source unit t) (hslots : SlotsFit t slots)
    {imports : List Text} {e : Edit} (he : e ∈ importEdits unit imports) :
    e.stop = e.start ∧ IsClear source t slots e.start := by
  obtain ⟨hpoint, h | h⟩ := fit.importEdits_outside he
  · exact ⟨hpoint, clear_of_le fit hslots h⟩
  · exact ⟨hpoint, clear_of_ge fit hslots h⟩

/-! ## All pairs of edits -/

/-- What kinds of edits a pass makes, with the places they reach. -/
inductive Reaches (source : Text) (t : TypeDecl) (slots : List Slot) : Edit → Prop
  | inserts {e : Edit} (point : e.stop = e.start)
      (clear : IsClear source t slots e.start) :
      Reaches source t slots e
  | replaces {slot : Slot} (mem : slot ∈ slots)
      (replaced : slot.member.replacement ≠ none) (text : Text) :
      Reaches source t slots ⟨slot.member.extent.start, slot.member.extent.stop, text⟩
  | removes {slot : Slot} (mem : slot ∈ slots) (stale : slot.isStale = true) :
      Reaches source t slots ⟨(removalRange source slot.member.extent).1,
        (removalRange source slot.member.extent).2, []⟩

theorem Reaches.proper (fit : SpansFit source unit t) (hslots : SlotsFit t slots)
    {e : Edit} (h : Reaches source t slots e) : e.start ≤ e.stop := by
  cases h with
  | inserts hpoint _ => exact Nat.le_of_eq hpoint.symm
  | @replaces slot hslot _ text =>
    obtain ⟨d, hd, hfor⟩ := hslots.standsFor slot hslot
    have := fit.filled d hd
    rw [hfor.extent]
    dsimp only
    omega
  | @removes slot hslot _ =>
    obtain ⟨d, hd, hfor⟩ := hslots.standsFor slot hslot
    have hfilled := fit.filled d hd
    have hstart := (removalRange_widens fit hd).starts
    have hstop := (removalRange_widens fit hd).stops
    rw [hfor.extent]
    dsimp only
    omega

/-- An insertion stands apart from every edit. -/
theorem Reaches.apart_of_insertion (hslots : SlotsFit t slots) {e f : Edit}
    (hpoint : e.stop = e.start) (hclear : IsClear source t slots e.start)
    (hf : Reaches source t slots f) : e.IsApart f := by
  rw [Edit.IsApart, hpoint]
  cases hf with
  | inserts hpoint' _ => omega
  | @replaces slot hslot _ text =>
    obtain ⟨d, hd, hfor⟩ := hslots.standsFor slot hslot
    have := hclear.between d hd
    rw [hfor.extent]
    dsimp only
    omega
  | @removes slot hslot hstale => exact hclear.removals slot hslot hstale

/-- What is replaced stands apart from what is removed. -/
theorem apart_of_replaced_removed (fit : SpansFit source unit t)
    (hslots : SlotsFit t slots) {a b : Slot} (ha : a ∈ slots) (hb : b ∈ slots)
    (hreplaced : a.member.replacement ≠ none) (hstale : b.isStale = true)
    (text : Text) :
    Edit.IsApart ⟨a.member.extent.start, a.member.extent.stop, text⟩
      ⟨(removalRange source b.member.extent).1,
        (removalRange source b.member.extent).2, []⟩ := by
  obtain ⟨d, hd, hfor⟩ := hslots.standsFor a ha
  obtain ⟨e, he, hfor'⟩ := hslots.standsFor b hb
  have hne : e ≠ d := by
    rintro rfl
    exact hreplaced
      (hslots.together b hb a ha (by rw [hfor.extent, hfor'.extent]) hstale).2
  have hapart := fit.removal_apart he hd hne
  rw [hfor.extent, hfor'.extent, Edit.IsApart]
  dsimp only
  omega

/-- The distinct extents of slots are those of declarations that stand apart. -/
theorem distinctExtents_apart (fit : SpansFit source unit t)
    (hslots : ∀ slot ∈ slots, ∃ d ∈ t.members, slot.StandsFor d) :
    (distinctExtents slots).Pairwise fun x y => ∃ d ∈ t.members, ∃ e ∈ t.members,
      x = d.extent ∧ y = e.extent ∧ IsApart d.extent e.extent := by
  apply (nodup_distinctExtents slots).imp_of_mem
  intro x y hx hy hne
  obtain ⟨a, ha, rfl⟩ := mem_distinctExtents.mp hx
  obtain ⟨b, hb, rfl⟩ := mem_distinctExtents.mp hy
  obtain ⟨d, hd, hfor⟩ := hslots a ha
  obtain ⟨e, he, hfor'⟩ := hslots b hb
  refine ⟨d, hd, e, he, hfor.extent, hfor'.extent, fit.isApart hd he ?_⟩
  rintro rfl
  exact hne (hfor.extent.trans hfor'.extent.symm)

theorem SlotsFit.standsFor_filter (hslots : SlotsFit t slots) (p : Slot → Bool) :
    ∀ slot ∈ slots.filter p, ∃ d ∈ t.members, slot.StandsFor d :=
  fun slot hslot => hslots.standsFor slot (List.mem_filter.mp hslot).1

theorem replacementEdits_apart (fit : SpansFit source unit t)
    (hslots : SlotsFit t slots) :
    (replacementEdits slots).Pairwise Edit.IsApart := by
  rw [replacementEdits, List.pairwise_map]
  apply (distinctExtents_apart fit (hslots.standsFor_filter _)).imp
  rintro x y ⟨d, -, e, -, rfl, rfl, hapart⟩
  exact hapart

theorem removalEdits_apart (fit : SpansFit source unit t) (hslots : SlotsFit t slots) :
    (removalEdits source slots).Pairwise Edit.IsApart := by
  rw [removalEdits, List.pairwise_map]
  apply (distinctExtents_apart fit (hslots.standsFor_filter _)).imp
  rintro x y ⟨d, hd, e, he, rfl, rfl, hapart⟩
  rcases hapart with hapart | hapart
  · exact .inl (fit.removals_apart hd he hapart)
  · exact .inr (fit.removals_apart he hd hapart)

end

namespace Session

section

variable {s : Session} {slots : List Slot} {pending : List Pending}

/-- The edits of a pass, written from slots that fit the type. -/
theorem reaches_of_mem (fit : SpansFit source unit t) (hslots : SlotsFit t slots)
    (hsource : s.source = source) (hunit : s.unit = unit)
    (hbody : s.body = t.body) {e : Edit}
    (he : e ∈ importEdits s.unit s.imports ++ replacementEdits slots ++
      removalEdits s.source slots ++
      s.insertionEdits slots pending) : Reaches source t slots e := by
  simp only [List.mem_append] at he
  rcases he with ((he | he) | he) | he
  · obtain ⟨hpoint, hclear⟩ := clear_of_import fit hslots (hunit ▸ he)
    exact .inserts hpoint hclear
  · obtain ⟨slot, hslot, hreplaced, heq⟩ := exists_replaced he
    rw [heq]
    exact .replaces hslot hreplaced _
  · obtain ⟨slot, hslot, hstale, heq⟩ := exists_removed (hsource ▸ he)
    rw [heq]
    exact .removes hslot hstale
  · obtain ⟨hpoint, hplace⟩ := insertionEdits_insertsAt he
    exact .inserts hpoint (clear_of_insertsAt fit hslots hsource hbody hplace)

/-- No two edits of a pass reach into each other. -/
theorem pairwise_apart (fit : SpansFit source unit t) (hslots : SlotsFit t slots)
    (hsource : s.source = source) (hunit : s.unit = unit) (hbody : s.body = t.body) :
    (importEdits s.unit s.imports ++ replacementEdits slots ++
      removalEdits s.source slots ++
      s.insertionEdits slots pending).Pairwise Edit.IsApart := by
  have hreaches : ∀ e ∈ importEdits s.unit s.imports ++ replacementEdits slots ++
      removalEdits s.source slots ++ s.insertionEdits slots pending,
      Reaches source t slots e :=
    fun e he => reaches_of_mem fit hslots hsource hunit hbody he
  -- insertions stand apart from everything, on either side
  have himport : ∀ e ∈ importEdits s.unit s.imports, ∀ f, Reaches source t slots f →
      e.IsApart f := by
    intro e he f hf
    obtain ⟨hpoint, hclear⟩ := clear_of_import fit hslots (hunit ▸ he)
    exact hf.apart_of_insertion hslots hpoint hclear
  have hinsert : ∀ e ∈ s.insertionEdits slots pending, ∀ f, Reaches source t slots f →
      f.IsApart e := by
    intro e he f hf
    obtain ⟨hpoint, hplace⟩ := insertionEdits_insertsAt he
    exact (hf.apart_of_insertion hslots hpoint
      (clear_of_insertsAt fit hslots hsource hbody hplace)).symm
  have hmem := List.forall_mem_append.mp hreaches
  have hmem' := List.forall_mem_append.mp hmem.1
  -- four kinds of edits: each kind by itself, and each against those in front
  -- of it
  refine List.pairwise_append.mpr
    ⟨List.pairwise_append.mpr ⟨List.pairwise_append.mpr ⟨?_, ?_, ?_⟩,
    ?_, ?_⟩, ?_, fun e he f hf => hinsert f hf e (hmem.1 e he)⟩
  · exact List.pairwise_of_forall_mem_list fun e he f hf =>
      himport e he f ((List.forall_mem_append.mp hmem'.1).1 f hf)
  · exact replacementEdits_apart fit hslots
  · exact fun e he f hf => himport e he f ((List.forall_mem_append.mp hmem'.1).2 f hf)
  · rw [hsource]
    exact removalEdits_apart fit hslots
  · intro e he f hf
    rcases List.mem_append.mp he with he | he
    · exact himport e he f (hmem'.2 f hf)
    · obtain ⟨a, ha, hreplaced, heq⟩ := exists_replaced he
      obtain ⟨b, hb, hstale, heq'⟩ := exists_removed (hsource ▸ hf)
      rw [heq, heq']
      exact apart_of_replaced_removed fit hslots ha hb hreplaced hstale _
  · exact List.pairwise_of_forall_mem_list fun e he f hf => hinsert f hf e (hmem.2 e he)

end

variable {s₀ s : Session} {calls : List Call}

theorem Reached.slotsFit (h : Reached s₀ calls s) (fresh : s₀.IsFresh)
    (fit : SpansFit source unit t) (hmembers : s₀.members = indexMembers t) :
    SlotsFit t (takeOver s.slots s.pending).1 where
  standsFor _ hslot := h.standsFor_takeOver fresh hmembers hslot
  together _ ha _ hb := h.stale_together fresh fit hmembers ha hb

/-- The edits that a pass records stand apart, and each starts
before its stop. -/
theorem Reached.buffer_apart (h : Reached s₀ calls s) (fresh : s₀.IsFresh)
    (fit : SpansFit source unit t) (hmembers : s₀.members = indexMembers t)
    (hsource : s₀.source = source) (hunit : s₀.unit = unit) (hbody : s₀.body = t.body) :
    s.buffer.edits.Pairwise Edit.IsApart ∧ ∀ e ∈ s.buffer.edits, e.start ≤ e.stop := by
  rw [← h.source_eq] at hsource
  rw [← h.unit_eq] at hunit
  rw [← h.body_eq] at hbody
  have hslots := h.slotsFit fresh fit hmembers
  have hproper : ∀ e ∈ s.edits, e.start ≤ e.stop :=
    fun e he => (reaches_of_mem fit hslots hsource hunit hbody he).proper fit hslots
  rw [buffer_eq, List.pairwise_map]
  refine ⟨?_, ?_⟩
  · apply (pairwise_apart fit hslots hsource hunit hbody).imp_of_mem
    intro e f he hf hapart
    exact hapart.clampTo (hproper e he) (hproper f hf) _
  · intro e he
    obtain ⟨f, hf, rfl⟩ := List.mem_map.mp he
    exact Nat.min_le_right _ _

end Session

/-- **Edits never conflict.** Whatever is asked of a session over a type whose
spans fit the source, no two of the edits it records overlap; they can be
applied, and writing the outcome is never refused for a conflict. -/
theorem write_never_conflicts (fit : SpansFit source unit t) (typeName : Text)
    (depth : Nat) (style : Style) (path : Option Text) (calls : List Call) :
    ((Session.ofType source typeName unit t depth style path).run
      calls).buffer.edits.Pairwise
      Edit.IsApart ∧
    (∃ out,
      ((Session.ofType source typeName unit t depth style path).run
        calls).buffer.render =
      .ok out) ∧
    ∀ name message,
      ((Session.ofType source typeName unit t depth style path).run calls).write ≠
      .error (.conflictingEdits name message) := by
  have fresh := Session.isFresh_ofType source typeName unit t depth style path
  obtain ⟨calls', reached⟩ := Session.exists_reached fresh calls
  obtain ⟨hapart, hproper⟩ := reached.buffer_apart fresh fit rfl rfl rfl rfl
  obtain ⟨out, hrender⟩ := EditBuffer.render_of_apart hproper hapart
  refine ⟨hapart, ⟨out, hrender⟩, ?_⟩
  intro name message
  rw [Session.write, hrender]
  -- with the edits applied, only the outcome can be refused
  dsimp only
  split
  · intro h
    cases h
  · split
    · intro h
      cases h
    · split <;>
      · intro h
        cases h

/-- In the sample, a replacement, a removal and two insertions stand apart. -/
theorem write_never_conflicts_sample :
    SpansFit Sample.source Sample.unit Sample.type ∧
    ((Session.ofType Sample.source "A" Sample.unit Sample.type 1 {}).run
      Sample.calls).buffer.edits.length = 4 ∧
    ((Session.ofType Sample.source "A" Sample.unit Sample.type 1 {}).run
      Sample.calls).buffer.edits.Pairwise Edit.IsApart :=
  ⟨Sample.fits, by decide +kernel,
    (write_never_conflicts Sample.fits "A" 1 {} none Sample.calls).1⟩

end Graft.Merge
