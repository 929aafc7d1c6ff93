import Graft.Proofs.Merge.Accounts
import Graft.Proofs.Merge.Conflicts
import Graft.Proofs.Merge.Outcome

/-!
# How a pass touches lines

What a pass inserts begins on a line of its own behind a declaration or the
opening brace, or has lines for itself in front of the source or of the closing
brace. What it replaces or removes are generated members, with blanks around
them. Each edit that a pass records is of one of these kinds (`Touches`).
-/

namespace Graft.Merge

open Java Entity Code

/-- The imports and the package declaration of a unit end with
characters of the source. -/
structure HeadersFit (source : Text) (unit : CompilationUnit) : Prop where
  imports : ∀ i ∈ unit.imports, 0 < i.span.stop ∧ IsSolid source (i.span.stop - 1)
  package : ∀ span ∈ unit.packageSpan, 0 < span.stop ∧ IsSolid source (span.stop - 1)

instance (source : Text) (unit : CompilationUnit) :
    Decidable (HeadersFit source unit) :=
  decidable_of_iff
    ((∀ i ∈ unit.imports, 0 < i.span.stop ∧ IsSolid source (i.span.stop - 1)) ∧
      ∀ span ∈ unit.packageSpan, 0 < span.stop ∧ IsSolid source (span.stop - 1))
    ⟨fun ⟨h, h'⟩ => ⟨h, h'⟩, fun h => ⟨h.imports, h.package⟩⟩

section

variable {source : Text} {unit : CompilationUnit} {t : TypeDecl} {slots : List Slot}

/-- No line break stands between the start of a line and a position on it. -/
theorem lineStart_unbroken {position r : Nat} (hposition : position ≤ source.length)
    (hr : lineStart source position ≤ r) (hlt : r < position) :
    source[r]? ≠ some '\n' := by
  intro hbreak
  have hline :=
    Text.slice_of_suffix hposition (Text.lastLine_suffix (source.take position))
  rw [← lineStart] at hline
  have hmem : '\n' ∈ Text.lastLine (source.take position) := by
    rw [← hline]
    refine List.mem_of_getElem? (i := r - lineStart source position) ?_
    rw [Text.getElem?_slice_of_lt (by omega), Nat.add_sub_cancel' hr]
    exact hbreak
  rw [Text.lastLine, List.mem_reverse] at hmem
  have hall :=
    List.all_eq_true.mp (List.all_takeWhile (l := (source.take position).reverse)
      (p := (· != '\n'))) '\n' hmem
  cases hall

theorem not_solid_break {p : Nat} (h : source[p]? = some '\n') :
    ¬ IsSolid source p := by
  rintro ⟨c, hc, hsolid⟩
  rw [h, Option.some.injEq] at hc
  subst hc
  cases hsolid

/-! ## What edits do to lines -/

/-- A place behind which new lines begin: the end of the opening brace, of a
member, of an import or of the package declaration. -/
inductive IsAnchor (unit : CompilationUnit) (t : TypeDecl) (p : Nat) : Prop
  | opening (stop : p = t.body.start + 1)
  | member {d : Declaration} (mem : d ∈ t.members) (stop : p = d.extent.stop)
  | imported {i : Import} (mem : i ∈ unit.imports) (stop : p = i.span.stop)
  | package {span : Span} (mem : span ∈ unit.packageSpan) (stop : p = span.stop)

/-- The edits of a pass, by what they do to the lines they stand in. -/
inductive Touches (source : Text) (unit : CompilationUnit) (t : TypeDecl)
    (slots : List Slot) (e : Edit) : Prop
  /-- Text is put on lines of its own behind a character that stays. -/
  | behind (rest : Text) (point : e.stop = e.start) (text : e.text = '\n' :: rest)
      (anchor : IsAnchor unit t e.start)
      (pos : 0 < e.start) (solid : IsSolid source (e.start - 1))
      (stays : ∀ d ∈ t.members, IsLeftOver slots d.extent →
        e.start ≤ (removalRange source d.extent).1 ∨
        (removalRange source d.extent).2 < e.start)
  /-- Text is put on lines of its own in front of the source. -/
  | front (rest : Text) (point : e.stop = e.start) (text : e.text = rest ++ ['\n'])
      (zero : e.start = 0)
  /-- Text is put in front of the closing brace, or in front of its line. -/
  | closing (point : e.stop = e.start) (le : e.start ≤ t.body.stop - 1)
      (blank : Text.isBlank (source.slice e.start (t.body.stop - 1)) = true)
      (unbroken : ∀ r, e.start ≤ r → r < t.body.stop - 1 → source[r]? ≠ some '\n')
      (apart : e.start = t.body.stop - 1 ∨ StartsLine source e.start)
  /-- A generated member is replaced. -/
  | replaces {d : Declaration} (mem : d ∈ t.members) (generated : IsGenerated d)
      (start : e.start = d.extent.start) (stop : e.stop = d.extent.stop)
      (proper : e.start < e.stop) (filled : e.text ≠ [])
  /-- A generated member is removed. -/
  | removes {d : Declaration} (mem : d ∈ t.members) (generated : IsGenerated d)
      (left : IsLeftOver slots d.extent)
      (start : e.start = (removalRange source d.extent).1)
      (stop : e.stop = (removalRange source d.extent).2) (proper : e.start < e.stop)
      (nothing : e.text = [])

theorem exists_gap (anchor kind : MemberKind) :
    ∃ rest, gap anchor kind = '\n' :: rest := by
  rw [gap]
  split <;> exact ⟨_, rfl⟩

/-- What is put behind a member is a new one, and the member stays. -/
theorem Session.exists_behind {s : Session} {pending : List Pending} {e : Edit}
    (he : e ∈ (pending.map (s.place slots)).filterMap Placement.edit?) :
    ∃ slot ∈ slots, slot.isStale = false ∧ ∃ p ∈ pending, ∃ anchor,
      e = ⟨slot.member.extent.stop, slot.member.extent.stop,
        gap anchor p.signature.kind ++ p.text⟩ := by
  obtain ⟨place, hplace, hedit⟩ := List.mem_filterMap.mp he
  obtain ⟨p, hp, rfl⟩ := List.mem_map.mp hplace
  rw [Session.place] at hedit
  cases hanchor : anchor? p.signature.kind slots with
  | none =>
    rw [hanchor] at hedit
    dsimp only at hedit
    split at hedit <;> cases hedit
  | some anchor =>
    obtain ⟨position, anchorKind⟩ := anchor
    rw [hanchor] at hedit
    cases hedit
    obtain ⟨slot, hslot, hstays, rfl⟩ := anchor?_spec hanchor
    exact ⟨slot, hslot, hstays, p, hp, anchorKind, rfl⟩

/-- What a pass inserts next to the members and the braces. -/
theorem insertionEdits_touch (fit : SpansFit source unit t)
    (hslots : SlotsFit t slots) {s : Session} (hsource : s.source = source)
    (hbody : s.body = t.body) {pending : List Pending} {e : Edit}
    (he : e ∈ s.insertionEdits slots pending) : Touches source unit t slots e := by
  subst hsource
  rw [Session.insertionEdits_eq, List.mem_append, List.mem_append] at he
  rcases he with (he | he) | he
  · obtain ⟨slot, hslot, hstays, p, -, anchor, rfl⟩ := Session.exists_behind he
    obtain ⟨d, hd, hfor⟩ := hslots.standsFor slot hslot
    have hfilled := fit.filled d hd
    obtain ⟨rest, hrest⟩ := exists_gap anchor p.signature.kind
    rw [hfor.extent, hrest]
    refine .behind _ rfl rfl (.member hd rfl)
      (Nat.lt_of_le_of_lt (Nat.zero_le _) hfilled)
      (fit.last d hd) ?_
    rintro g hg ⟨stale, hstale, hleft, hextent⟩
    -- the member that stays is another one than the one that goes
    have hne : g ≠ d := by
      rintro rfl
      have :=
        (hslots.together stale hstale slot hslot
          (by rw [hextent, hfor.extent]) hleft).1
      rw [hstays] at this
      cases this
    have := fit.removal_apart hg hd hne
    dsimp only
    omega
  · split at he
    · cases he
    · rw [List.mem_singleton] at he
      subst he
      rw [hbody]
      refine .behind _ rfl rfl (.opening rfl) (Nat.succ_pos _) fit.opens_solid fun d
        hd _ => .inl ?_
      exact (fit.removal_inside hd).1
  · split at he
    · cases he
    · rw [List.mem_singleton] at he
      subst he
      have hlength := fit.body_lt_length
      rw [Session.bodyEndEdit]
      dsimp only
      split
      · next h =>
        rw [Bool.and_eq_true, decide_eq_true_iff, hbody] at h
        rw [hbody]
        exact .closing rfl (Nat.sub_le _ _) h.2
          (fun r hr hlt => lineStart_unbroken (Nat.le_of_lt hlength) hr hlt)
          (.inr (lineStart_starts (Nat.le_of_lt hlength)))
      · rw [hbody]
        exact .closing rfl (Nat.le_refl _) (by rw [Text.slice_self]; rfl)
          (fun r hr hlt => absurd hlt (Nat.not_lt.mpr hr)) (.inl rfl)

/-- Imports are put behind a declaration in front of or behind the type, or in
front of the source. -/
theorem importEdits_touch (fit : SpansFit source unit t)
    (headers : HeadersFit source unit) {imports : List Text} {e : Edit}
    (he : e ∈ importEdits unit imports) :
    Touches source unit t slots e := by
  have houtside (span : Span) (h : IsOutside span t.body) (d : Declaration)
      (hd : d ∈ t.members) :
      span.stop ≤ (removalRange source d.extent).1 ∨
        (removalRange source d.extent).2 < span.stop := by
    have := fit.removal_inside hd
    have hbraces := fit.braces
    rcases h with ⟨hle, h | h⟩
    · left
      omega
    · right
      omega
  rw [importEdits] at he
  split at he
  · cases he
  -- behind the last import, behind the package, or at the front
  · split at he
    · next last hlast =>
      rw [List.mem_singleton] at he
      subst he
      have hmem := List.mem_of_getLast? hlast
      obtain ⟨hpos, hsolid⟩ := headers.imports last hmem
      exact .behind _ rfl rfl (.imported hmem rfl) hpos hsolid fun d hd _ =>
        houtside _ (fit.imports last hmem) d hd
    · split at he
      · next package hpackage =>
        rw [List.mem_singleton] at he
        subst he
        obtain ⟨hpos, hsolid⟩ := headers.package package hpackage
        exact .behind _ rfl rfl (.package hpackage rfl) hpos hsolid fun d hd _ =>
          houtside _ (fit.package package hpackage) d hd
      · rw [List.mem_singleton] at he
        subst he
        have h : importBlock imports ++ "\n\n" =
            (importBlock imports ++ ['\n']) ++ ['\n'] := by
          rw [List.append_assoc]
          rfl
        exact .front _ rfl h rfl

namespace Touches

variable {e : Edit}

theorem proper (fit : SpansFit source unit t) (h : Touches source unit t slots e) :
    e.start ≤ e.stop ∧ e.stop ≤ source.length := by
  cases h with
  | behind _ point _ _ _ solid _ =>
    obtain ⟨c, hc, -⟩ := solid
    have := (List.getElem?_eq_some_iff.mp hc).1
    omega
  | front _ point _ zero => omega
  | closing point le _ _ _ =>
    have := fit.body_lt_length
    omega
  | @replaces d hd _ _ stop proper _ =>
    have := fit.stop_lt_length hd
    omega
  | @removes d hd _ _ _ stop proper _ =>
    have := (removalRange_widens fit hd).inText
    omega

end Touches

namespace Session

variable {s₀ s : Session} {calls : List Call}

/-- The edits that a pass records, by what they do to the lines they stand
in. -/
theorem Reached.touches (h : Reached s₀ calls s) (ledger : Ledger s₀ calls s)
    (fresh : s₀.IsFresh) (fit : SpansFit source unit t)
    (headers : HeadersFit source unit) (hmembers : s₀.members = indexMembers t)
    (hsource : s₀.source = source) (hunit : s₀.unit = unit) (hbody : s₀.body = t.body)
    {e : Edit} (he : e ∈ s.buffer.edits) :
    Touches source unit t (takeOver s.slots s.pending).1 e := by
  rw [← h.source_eq] at hsource
  rw [← h.unit_eq] at hunit
  rw [← h.body_eq] at hbody
  have hslots := h.slotsFit fresh fit hmembers
  have hall : ∀ e ∈ s.edits,
      Touches source unit t (takeOver s.slots s.pending).1 e := by
    intro e he
    simp only [edits, List.mem_append] at he
    -- imports, replacements, removals and insertions, as they are put together
    rcases he with ((he | he) | he) | he
    · exact importEdits_touch fit headers (hunit ▸ he)
    · obtain ⟨extent, hextent, rfl⟩ := List.mem_map.mp he
      obtain ⟨slot, hslot, rfl⟩ := mem_distinctExtents.mp hextent
      obtain ⟨hmem, hreplaced⟩ := List.mem_filter.mp hslot
      obtain ⟨d, hd, hfor⟩ := hslots.standsFor slot hmem
      have hwritten : slot.member.replacement ≠ none :=
        Option.isSome_iff_ne_none.mp hreplaced
      refine .replaces hd ⟨hfor.declares, hfor.replaced hwritten⟩ (by rw [hfor.extent])
        (by rw [hfor.extent]) (by rw [hfor.extent]; exact fit.filled d hd) ?_
      refine replacementText_ne_nil ⟨slot, hmem, hwritten, rfl⟩ fun text htext => ?_
      exact isBlank_of_accepted
        ((h.texts_accepted ledger fresh).mem_iff.mp (List.mem_append_left _ htext))
    · obtain ⟨slot, hslot, hstale, rfl⟩ := exists_removed (hsource ▸ he)
      obtain ⟨d, hd, hfor⟩ := hslots.standsFor slot hslot
      have hwidens := removalRange_widens fit hd
      have hfilled := fit.filled d hd
      have hstarts := hwidens.starts
      have hstops := hwidens.stops
      exact .removes hd ⟨hfor.declares, hfor.stale hstale⟩
        ⟨slot, hslot, hstale, hfor.extent⟩
        (by rw [hfor.extent]) (by rw [hfor.extent])
          (by rw [hfor.extent]; dsimp only; omega) rfl
    · exact insertionEdits_touch fit hslots hsource hbody he
  rw [buffer_eq, hsource] at he
  obtain ⟨f, hf, rfl⟩ := List.mem_map.mp he
  have hproper := (hall f hf).proper fit
  rw [Edit.clampTo_of_le hproper.1 hproper.2]
  exact hall f hf

/-- An outcome is the source with edits applied at once that stand apart, each
of a known kind. -/
theorem touches_of_written (fresh : s₀.IsFresh) (fit : SpansFit source unit t)
    (headers : HeadersFit source unit) (hmembers : s₀.members = indexMembers t)
    (hsource : s₀.source = source) (hunit : s₀.unit = unit) (hbody : s₀.body = t.body)
    {out : Text} (written : (s₀.run calls).write = .ok (some out)) :
    ∃ slots, (∀ e ∈ (s₀.run calls).buffer.edits, Touches source unit t slots e) ∧
      (s₀.run calls).buffer.edits.Pairwise Edit.IsApart ∧
      out = Edit.atOnce source (s₀.run calls).buffer.edits := by
  have hkept := isKept_of_written written
  have reached := reached_run fresh hkept calls
  have ledger := ledger_run fresh hkept calls
  refine ⟨_, fun e he =>
    reached.touches ledger fresh fit headers hmembers hsource hunit hbody he,
    (reached.buffer_apart fresh fit hmembers hsource hunit hbody).1, ?_⟩
  rw [← hsource, ← reached.source_eq]
  exact atOnce_of_written written

end Session

end

end Graft.Merge
