import Graft.Proofs.Code.WholeLines
import Graft.Proofs.Merge.Placement
import Mathlib.Data.List.Pairwise
import Mathlib.Data.Nat.Find

/-!
# Lines of the user

What a pass inserts begins on a line of its own, or ends one that it has for
itself, and what it removes or replaces lies in other lines than those of the
user (`Touches`). So a line of the user is one line of the outcome unless
something is inserted in the middle of it, behind a declaration that does not
end its line, or the line break in front of it goes with a member that has
something else on its line. Both do happen (`user_lines_broken`).
-/

namespace Graft.Merge

open Java Entity Code

/-! ## Lines -/

/-- A line of a source, from its first position to its end: it is not blank and
holds no part of a generated member and no brace of the body. -/
structure IsUserLine (source : Text) (t : TypeDecl) (a b : Nat) : Prop where
  starts : StartsLine source a
  ends : b = source.length ∨ source[b]? = some '\n'
  unbroken : ∀ p, a ≤ p → p < b → source[p]? ≠ some '\n'
  filled : ∃ p, a ≤ p ∧ p < b ∧ IsSolid source p
  byHand : ∀ d ∈ t.members, IsGenerated d → d.extent.stop ≤ a ∨ b ≤ d.extent.start
  opening : ¬ (a ≤ t.body.start ∧ t.body.start < b)
  closing : ¬ (a ≤ t.body.stop - 1 ∧ t.body.stop - 1 < b)

/-- An edit takes away the character at a position. -/
def IsRemoved (edits : List Edit) (p : Nat) : Prop :=
  ∃ e ∈ edits, e.text = [] ∧ e.start ≤ p ∧ p < e.stop

/-- Nothing is inserted in the middle of a stretch. -/
def IsUnsplit (edits : List Edit) (a b : Nat) : Prop :=
  ∀ e ∈ edits, e.stop = e.start → ¬ (a < e.start ∧ e.start < b)

/-- The last character in front of a position that is not taken away
is a line break. -/
def KeepsBreakBefore (source : Text) (edits : List Edit) (a : Nat) : Prop :=
  ∀ q < a, ¬ IsRemoved edits q → (∀ r, q < r → r < a → IsRemoved edits r) →
    source[q]? = some '\n'

instance (d : Declaration) : Decidable (IsGenerated d) :=
  decidable_of_iff (signaturesOf d ≠ [] ∧ (provenanceOf d.modifiers).isGenerated = true)
    ⟨fun ⟨h, h'⟩ => ⟨h, h'⟩, fun h => ⟨h.declares, h.marked⟩⟩

instance (source : Text) (t : TypeDecl) (a b : Nat) :
    Decidable (IsUserLine source t a b) :=
  decidable_of_iff
    ((a = 0 ∨ source[a - 1]? = some '\n') ∧
      (b = source.length ∨ source[b]? = some '\n') ∧
      (∀ p < b, a ≤ p → source[p]? ≠ some '\n') ∧ (∃ p < b, a ≤ p ∧ IsSolid source p) ∧
      (∀ d ∈ t.members, IsGenerated d → d.extent.stop ≤ a ∨ b ≤ d.extent.start) ∧
      ¬ (a ≤ t.body.start ∧ t.body.start < b) ∧
      ¬ (a ≤ t.body.stop - 1 ∧ t.body.stop - 1 < b))
    ⟨fun ⟨h1, h2, h3, ⟨p, hpb, hp, hsolid⟩, h5, h6, h7⟩ =>
        ⟨h1, h2, fun q hq hqb => h3 q hqb hq, ⟨p, hp, hpb, hsolid⟩, h5, h6, h7⟩,
      fun h => ⟨h.starts, h.ends, fun p hpb hp => h.unbroken p hp hpb,
        let ⟨p, hp, hpb, hsolid⟩ := h.filled
        ⟨p, hpb, hp, hsolid⟩, h.byHand, h.opening, h.closing⟩⟩

instance (edits : List Edit) (p : Nat) : Decidable (IsRemoved edits p) :=
  inferInstanceAs (Decidable (∃ e ∈ edits, _))

instance (edits : List Edit) (a b : Nat) : Decidable (IsUnsplit edits a b) :=
  inferInstanceAs (Decidable (∀ e ∈ edits, _))

instance (source : Text) (edits : List Edit) (a : Nat) :
    Decidable (KeepsBreakBefore source edits a) :=
  decidable_of_iff
    (∀ q < a, ¬ IsRemoved edits q → (∀ r < a, q < r → IsRemoved edits r) →
      source[q]? = some '\n')
    ⟨fun h q hq hkept hall => h q hq hkept fun r hr hqr => hall r hqr hr,
      fun h q hq hkept hall => h q hq hkept fun r hqr hr => hall r hr hqr⟩

section

variable {source : Text} {unit : CompilationUnit} {t : TypeDecl} {slots : List Slot}

/-! ## Where lines of the user stand -/

namespace IsUserLine

variable {a b : Nat}

theorem lt (h : IsUserLine source t a b) : a < b := by
  obtain ⟨p, hp, hpb, -⟩ := h.filled
  omega

theorem le_length (h : IsUserLine source t a b) : b ≤ source.length := by
  rcases h.ends with hend | hbreak
  · exact Nat.le_of_eq hend
  · exact Nat.le_of_lt (List.getElem?_eq_some_iff.mp hbreak).1

theorem break_before (h : IsUserLine source t a b) (ha : 0 < a) :
    source[a - 1]? = some '\n' :=
  h.starts.resolve_left (Nat.ne_of_gt ha)

theorem not_solid_stop (h : IsUserLine source t a b) : ¬ IsSolid source b := by
  rcases h.ends with hend | hbreak
  · rintro ⟨c, hc, -⟩
    rw [hend, List.getElem?_eq_none (Nat.le_refl _)] at hc
    cases hc
  · exact not_solid_break hbreak

/-- No line starts inside a line of the user or at its end. -/
theorem not_startsLine (h : IsUserLine source t a b) {p : Nat} (hp : a < p)
    (hpb : p ≤ b) :
    ¬ StartsLine source p := by
  rintro (hzero | hbreak)
  · omega
  · exact h.unbroken (p - 1) (by omega) (by omega) hbreak

/-- Generated members stand in other lines. -/
theorem generated_clear (h : IsUserLine source t a b) (fit : SpansFit source unit t)
    {d : Declaration} (hd : d ∈ t.members) (hgen : IsGenerated d) :
    d.extent.stop < a ∨ b < d.extent.start := by
  have hfilled := fit.filled d hd
  rcases h.byHand d hd hgen with hle | hle
  · refine .inl (Nat.lt_of_le_of_ne hle fun heq => ?_)
    have hlast := fit.last d hd
    rw [heq] at hlast
    exact not_solid_break (h.break_before (by omega)) hlast
  · refine .inr (Nat.lt_of_le_of_ne hle fun heq => ?_)
    exact h.not_solid_stop (heq ▸ fit.first d hd)

/-- What is removed with a generated member ends in front of the line or starts
behind the line break at its end. -/
theorem removal_clear (h : IsUserLine source t a b) (fit : SpansFit source unit t)
    {d : Declaration} (hd : d ∈ t.members) (hgen : IsGenerated d) :
    (removalRange source d.extent).2 ≤ a ∨ b < (removalRange source d.extent).1 := by
  have hfilled := fit.filled d hd
  rcases h.generated_clear fit hd hgen with hlt | hlt
  · exact .inl (fit.removal_stop_le hd h.starts (Nat.le_of_lt hlt))
  · right
    obtain ⟨p, hp, hpb, hsolid⟩ := h.filled
    apply Nat.lt_of_not_le
    intro hle
    -- the blanks in front of the member end behind the last character of the
    -- line
    have hbehind := outside_of_widens (removalRange_widens fit hd) hsolid
      (.inl (show p < d.extent.start by omega))
    have hstop := (removalRange_widens fit hd).stops
    rcases removalRange_start (Nat.le_of_lt (Nat.lt_of_lt_of_le hfilled
      (Nat.le_of_lt (fit.stop_lt_length hd)))) with hstart | hline
    · omega
    · exact h.not_startsLine (by omega) hle hline

end IsUserLine

namespace Touches

variable {e : Edit} {a b : Nat}

/-- What is replaced or removed ends in front of a line of the user or starts
behind its end. -/
theorem insertion_or_clear (touches : Touches source unit t slots e)
    (fit : SpansFit source unit t) (h : IsUserLine source t a b) :
    e.stop = e.start ∨ e.start < e.stop ∧ (e.stop ≤ a ∨ b < e.start) := by
  cases touches with
  | behind _ point _ _ _ _ _ => exact .inl point
  | front _ point _ _ => exact .inl point
  | closing point _ _ _ _ => exact .inl point
  | @replaces d hd hgen start stop proper _ =>
    have hclear := h.generated_clear fit hd hgen
    omega
  | @removes d hd hgen _ start stop proper _ =>
    have hclear := h.removal_clear fit hd hgen
    omega

/-- An edit keeps out of a line of the user unless it inserts in
the middle of it. -/
theorem spares (touches : Touches source unit t slots e)
    (fit : SpansFit source unit t) (h : IsUserLine source t a b)
    (unsplit : e.stop = e.start → ¬ (a < e.start ∧ e.start < b)) :
    e.Spares a b := by
  have hab := h.lt
  have hclear := touches.insertion_or_clear fit h
  unfold Edit.Spares
  omega

/-- The line break behind a line of the user is kept. -/
theorem keeps (touches : Touches source unit t slots e) (fit : SpansFit source unit t)
    (h : IsUserLine source t a b) : e.covers b = false ∧ e.replacesFrom b = false := by
  have hab := h.lt
  have hclear := touches.insertion_or_clear fit h
  rw [← Bool.not_eq_true, ← Bool.not_eq_true, Edit.covers_iff, Edit.replacesFrom_iff]
  omega

/-- What is inserted at the start of a line of the user has lines for itself. -/
theorem opens (touches : Touches source unit t slots e) (h : IsUserLine source t a b)
    (hat : e.insertsAt a = true) : ∃ x, e.text = x ++ ['\n'] := by
  obtain ⟨rfl, hstop⟩ := Edit.insertsAt_iff.mp hat
  cases touches with
  | behind _ _ _ _ pos solid _ =>
    exact absurd solid (not_solid_break (h.break_before pos))
  | front rest _ text _ => exact ⟨rest, text⟩
  | closing _ le blank _ _ =>
    -- the line would be among the blanks in front of the brace, or have the
    -- brace
    obtain ⟨p, hp, hpb, hsolid⟩ := h.filled
    have hclosing := h.closing
    exact absurd hsolid (not_solid_of_blank blank hp (by omega))
  | replaces _ _ _ _ proper _ => omega
  | removes _ _ _ _ _ proper _ => omega

/-- What is inserted at the end of a line of the user begins on a
line of its own. -/
theorem closes (touches : Touches source unit t slots e)
    (fit : SpansFit source unit t) (h : IsUserLine source t a b)
    (hat : e.insertsAt b = true) : ∃ x, e.text = '\n' :: x := by
  have hab := h.lt
  obtain ⟨rfl, hstop⟩ := Edit.insertsAt_iff.mp hat
  cases touches with
  | behind rest _ text _ _ _ _ => exact ⟨rest, text⟩
  | front _ _ _ zero => omega
  | closing _ _ _ _ apart =>
    rcases apart with hclose | hline
    · exact absurd (hclose ▸ fit.closes_solid) h.not_solid_stop
    · exact absurd hline (h.not_startsLine hab (Nat.le_refl _))
  | replaces _ _ _ _ proper _ => omega
  | removes _ _ _ _ _ proper _ => omega

end Touches

/-! ## What stands in front of a line -/

section

variable {edits : List Edit} {p : Nat}

/-- What is taken away is taken with a generated member. -/
theorem exists_of_removed (touches : ∀ e ∈ edits, Touches source unit t slots e)
    (h : IsRemoved edits p) : ∃ d ∈ t.members, IsLeftOver slots d.extent ∧
      (removalRange source d.extent).1 ≤ p ∧ p < (removalRange source d.extent).2 := by
  obtain ⟨e, he, htext, hstart, hstop⟩ := h
  cases touches e he with
  | behind _ _ text _ _ _ _ => simp [text] at htext
  | front _ _ text _ => simp [text] at htext
  | closing point _ _ _ _ => omega
  | replaces _ _ _ _ _ filled => exact absurd htext filled
  | @removes d hd _ left start stop _ _ =>
    exact ⟨d, hd, left, start ▸ hstart, stop ▸ hstop⟩

/-- Of edits that stand apart, one at most covers a position. -/
theorem eq_of_covers (apart : edits.Pairwise Edit.IsApart) {e f : Edit}
    (he : e ∈ edits) (hf : f ∈ edits) (hpe : e.start ≤ p ∧ p < e.stop)
    (hpf : f.start ≤ p ∧ p < f.stop) : e = f := by
  apply Classical.byContradiction
  intro hne
  have : Std.Symm Edit.IsApart := ⟨fun _ _ => Edit.IsApart.symm⟩
  have hapart := apart.forall he hf hne
  unfold Edit.IsApart at hapart
  omega

/-- Between a line break that is kept and the start of a line, where all else is
taken away, nothing is inserted. -/
theorem insertedAt_removed (fit : SpansFit source unit t)
    (touches : ∀ e ∈ edits, Touches source unit t slots e) {q a : Nat}
    (hq : source[q]? = some '\n') (hremoved : ∀ r, q < r → r < a → IsRemoved edits r)
    (hbreak : source[a - 1]? = some '\n') (hqp : q < p) (hpa : p < a) :
    Edit.insertedAt edits p = [] := by
  rw [Edit.insertedAt, List.flatMap_eq_nil_iff]
  intro e he
  obtain ⟨hmem, hat⟩ := List.mem_filter.mp he
  obtain ⟨rfl, hstop⟩ := Edit.insertsAt_iff.mp hat
  cases touches e hmem with
  | behind _ _ _ _ pos solid stays =>
    -- the character in front of it is neither the line break nor taken away
    have hne : e.start - 1 ≠ q := fun heq => not_solid_break hq (heq ▸ solid)
    obtain ⟨d, hd, left, hin⟩ :=
      exists_of_removed touches (hremoved (e.start - 1) (by omega) (by omega))
    have := stays d hd left
    omega
  | front _ _ _ zero => omega
  | closing _ le _ unbroken _ =>
    -- the closing brace stands in front of the line break at the end, so it
    -- would be taken away
    have hclose : t.body.stop - 1 ≤ a - 1 := by
      apply Nat.le_of_not_lt
      intro hlt
      exact unbroken (a - 1) (by omega) hlt hbreak
    have hne : t.body.stop - 1 ≠ a - 1 :=
      fun heq => not_solid_break hbreak (heq ▸ fit.closes_solid)
    obtain ⟨d, hd, -, hin⟩ := exists_of_removed touches
      (hremoved (t.body.stop - 1) (by omega) (by omega))
    have := fit.removal_inside hd
    omega
  | replaces _ _ _ _ proper _ => omega
  | removes _ _ _ _ _ proper _ => omega

/-- A line break that is kept in front of a line of the user ends what its
position holds. -/
theorem contentAt_kept (fit : SpansFit source unit t)
    (touches : ∀ e ∈ edits, Touches source unit t slots e)
    (apart : edits.Pairwise Edit.IsApart) {a b l : Nat} (h : IsUserLine source t a b)
    (hla : l < a) (hline : source[l]? = some '\n') (hkept : ¬ IsRemoved edits l)
    (hremoved : ∀ r, l < r → r < a → IsRemoved edits r) :
    Edit.contentAt source edits l = Edit.insertedAt edits l ++ ['\n'] := by
  have hclear : ∀ e ∈ edits, ¬ (e.start ≤ l ∧ l < e.stop) := by
    rintro e he ⟨hstart, hstop⟩
    cases touches e he with
    | behind _ point _ _ _ _ _ => omega
    | front _ point _ _ => omega
    | closing point _ _ _ _ => omega
    | removes _ _ _ _ _ _ nothing => exact hkept ⟨e, he, nothing, hstart, hstop⟩
    | @replaces d hd hgen start stop _ filled =>
      -- the last character of a replaced member would be taken away
      have hab := h.lt
      have hclear := h.generated_clear fit hd hgen
      have hne : d.extent.stop - 1 ≠ l :=
        fun heq => not_solid_break hline (heq ▸ fit.last d hd)
      obtain ⟨f, hf, htext, hin⟩ := hremoved (d.extent.stop - 1) (by omega) (by omega)
      have hef := eq_of_covers apart he hf (by omega) hin
      exact filled (hef ▸ htext)
  rw [Edit.contentAt_of_clear, hline]
  · rfl
  · intro e he
    rw [← Bool.not_eq_true, Edit.covers_iff]
    exact hclear e he
  · intro e he
    rw [← Bool.not_eq_true, Edit.replacesFrom_iff]
    have := hclear e he
    have := (touches e he).proper fit
    omega

/-- Behind a line break that is kept, what is taken away in front of a line
leaves nothing. -/
theorem contentAt_removed (fit : SpansFit source unit t)
    (touches : ∀ e ∈ edits, Touches source unit t slots e)
    (apart : edits.Pairwise Edit.IsApart) {a l : Nat}
    (hbreak : source[a - 1]? = some '\n') (hline : source[l]? = some '\n')
    (hremoved : ∀ r, l < r → r < a → IsRemoved edits r) (hlp : l < p) (hpa : p < a) :
    Edit.contentAt source edits p = [] := by
  obtain ⟨e, he, htext, hin⟩ := hremoved p hlp hpa
  have hcovers : edits.any (Edit.covers p) = true :=
    List.any_eq_true.mpr ⟨e, he, Edit.covers_iff.mpr hin⟩
  have hreplaces : (edits.filter (Edit.replacesFrom p)).flatMap Edit.text = [] := by
    rw [List.flatMap_eq_nil_iff]
    intro f hf
    obtain ⟨hmem, hfrom⟩ := List.mem_filter.mp hf
    rw [Edit.replacesFrom_iff] at hfrom
    have hproper := (touches f hmem).proper fit
    rw [eq_of_covers apart hmem he (by omega) hin, htext]
  have hinserts := insertedAt_removed fit touches hline hremoved hbreak hlp hpa
  rw [Edit.insertedAt] at hinserts
  rw [Edit.contentAt, hinserts, hreplaces, hcovers]
  rfl

/-- What stands in front of a line of the user ends with a line break, if the
last character in front of it that is not taken away is one. -/
theorem contentAt_front (fit : SpansFit source unit t)
    (touches : ∀ e ∈ edits, Touches source unit t slots e)
    (apart : edits.Pairwise Edit.IsApart) {a b : Nat} (h : IsUserLine source t a b)
    (keeps : KeepsBreakBefore source edits a) {q : Nat} (hqa : q < a)
    (hbetween : ∀ r, q < r → r < a → Edit.contentAt source edits r = [])
    (hfilled : Edit.contentAt source edits q ≠ []) :
    ∃ x, Edit.contentAt source edits q = x ++ ['\n'] := by
  have hbreak := h.break_before (show 0 < a by omega)
  -- the source does not begin with something that is taken away
  have hzero : ¬ IsRemoved edits 0 := by
    intro hremoved
    obtain ⟨d, hd, -, hin⟩ := exists_of_removed touches hremoved
    have := fit.removal_inside hd
    omega
  -- the last character in front of the line that is not taken away
  let l := Nat.findGreatest (fun q => ¬ IsRemoved edits q) (a - 1)
  have hkept : ¬ IsRemoved edits l :=
    Nat.findGreatest_spec (P := fun q => ¬ IsRemoved edits q)
      (Nat.zero_le (a - 1)) hzero
  have hla : l < a := by
    have : l ≤ a - 1 := Nat.findGreatest_le (a - 1)
    omega
  have hremoved : ∀ r, l < r → r < a → IsRemoved edits r := fun r hr hra =>
    Classical.not_not.mp (Nat.findGreatest_is_greatest hr (show r ≤ a - 1 by omega))
  have hline := keeps l hla hkept hremoved
  have hlast := contentAt_kept fit touches apart h hla hline hkept hremoved
  rcases Nat.lt_trichotomy q l with hlt | rfl | hlt
  · have hnil := hbetween l hlt hla
    rw [hlast] at hnil
    simp at hnil
  · exact ⟨_, hlast⟩
  · exact absurd
      (contentAt_removed fit touches apart hbreak hline hremoved hlt hqa) hfilled

/-- A line of the user is kept as a line, unless something is inserted in the
middle of it or the line break in front of it is taken away. -/
theorem keepsLine (fit : SpansFit source unit t)
    (touches : ∀ e ∈ edits, Touches source unit t slots e)
    (apart : edits.Pairwise Edit.IsApart) {a b : Nat} (h : IsUserLine source t a b)
    (unsplit : IsUnsplit edits a b) (keeps : KeepsBreakBefore source edits a) :
    KeepsLine source edits a b where
  filled := h.lt
  inText := h.le_length
  isLine := h.ends
  proper e he := ((touches e he).proper fit).1
  spared e he := (touches e he).spares fit h (unsplit e he)
  opens e he hat := (touches e he).opens h hat
  front _ hqa hbetween hfilled :=
    contentAt_front fit touches apart h keeps hqa hbetween hfilled
  closes e he hat := (touches e he).closes fit h hat
  kept e he := (touches e he).keeps fit h

/-! ## Lines that are laid out for it -/

/-- No declaration that new lines can follow ends in the middle of a line,
and each generated member of the type has nothing but blanks in front of
it on its line. -/
structure IsLaidOut (source : Text) (unit : CompilationUnit) (t : TypeDecl)
    (a b : Nat) : Prop where
  anchors : ∀ p, IsAnchor unit t p → p ≤ a ∨ b ≤ p
  generated : ∀ d ∈ t.members, IsGenerated d →
    Text.isBlank (source.slice (lineStart source d.extent.start) d.extent.start) = true

/-- What is removed starts with a line, if nothing stands in front of the
member on its line. -/
theorem removalRange_starts {e : Extent} (h : e.start ≤ source.length)
    (blank : Text.isBlank (source.slice (lineStart source e.start) e.start) = true) :
    StartsLine source (removalRange source e).1 := by
  have hline := Text.slice_of_suffix h (Text.lastLine_suffix (source.take e.start))
  have hwhole : (wholeLines source e.start e.stop).1 = lineStart source e.start := by
    rw [lineStart, hline] at blank
    simp only [wholeLines, blank, if_true]
    rfl
  simp only [removalRange, hwhole]
  cases habove : blankLineBefore? source (lineStart source e.start) with
  | none => exact lineStart_starts h
  | some start => exact blankLineBefore?_starts habove

/-- Nothing is inserted in the middle of a line that is laid out for it. -/
theorem IsLaidOut.unsplit (touches : ∀ e ∈ edits, Touches source unit t slots e)
    {a b : Nat} (h : IsUserLine source t a b) (layout : IsLaidOut source unit t a b) :
    IsUnsplit edits a b := by
  rintro e he hpoint ⟨hstart, hstop⟩
  cases touches e he with
  | behind _ _ _ anchor _ _ _ =>
    have := layout.anchors e.start anchor
    omega
  | front _ _ _ zero => omega
  | closing _ le _ _ apart =>
    rcases apart with hclose | hline
    · have := h.closing
      omega
    · exact h.not_startsLine hstart (Nat.le_of_lt hstop) hline
  | replaces _ _ _ _ proper _ => omega
  | removes _ _ _ _ _ proper _ => omega

/-- The line break in front of a line stays, if all that is removed
starts with a line. -/
theorem IsLaidOut.keepsBreak (fit : SpansFit source unit t)
    (touches : ∀ e ∈ edits, Touches source unit t slots e) {a b : Nat}
    (h : IsUserLine source t a b) (layout : IsLaidOut source unit t a b) :
    KeepsBreakBefore source edits a := by
  intro q hqa hkept hremoved
  by_cases hlast : q + 1 = a
  · rw [← h.break_before (by omega), ← hlast, Nat.add_sub_cancel]
  · -- a removal starts behind the last character that is kept
    obtain ⟨e, he, htext, hstart, hstop⟩ :=
      hremoved (q + 1) (Nat.lt_succ_self q) (by omega)
    have hfirst : e.start = q + 1 := by
      apply Nat.le_antisymm hstart
      apply Nat.lt_of_not_le
      exact fun hle => hkept ⟨e, he, htext, hle, by omega⟩
    cases touches e he with
    | behind _ point _ _ _ _ _ => omega
    | front _ point _ _ => omega
    | closing point _ _ _ _ => omega
    | replaces _ _ _ _ _ filled => exact absurd htext filled
    | @removes d hd hgen _ start _ _ _ =>
      have hle := Nat.le_of_lt (Nat.lt_trans (fit.filled d hd) (fit.stop_lt_length hd))
      rcases removalRange_starts hle (layout.generated d hd hgen) with hzero | hbreak
      · omega
      · rwa [← start, hfirst, Nat.add_sub_cancel] at hbreak

end

/-- **Lines of the user stay whole where declarations end their lines.** When a
pass over a type whose spans fit the source has an outcome, each line of the
user is one line of the outcome, unless something is inserted in the middle of
it or the line break in front of it is removed, and these lines keep their
order. Neither happens to a line in whose middle no declaration ends, if
generated members have nothing in front of them on their lines. -/
theorem user_lines_stay_whole (fit : SpansFit source unit t)
    (headers : HeadersFit source unit) (typeName : Text) (depth : Nat) (style : Style)
    (path : Option Text) (calls : List Call) {out : Text}
    (written : ((Session.ofType source typeName unit t depth style path).run
      calls).write = .ok (some out)) :
    let edits :=
      ((Session.ofType source typeName unit t depth style path).run
        calls).buffer.edits
    (∃ place : Nat → Nat,
      (∀ a b, IsUserLine source t a b → IsUnsplit edits a b →
        KeepsBreakBefore source edits a →
        IsLineAt out (source.slice a b) (place a)) ∧
      ∀ a b a' b', IsUserLine source t a b → IsUnsplit edits a b →
        KeepsBreakBefore source edits a →
        IsUserLine source t a' b' → IsUnsplit edits a' b' →
        KeepsBreakBefore source edits a' →
        a < a' → place a + (b - a) < place a') ∧
    ∀ a b, IsUserLine source t a b → IsLaidOut source unit t a b →
      IsUnsplit edits a b ∧ KeepsBreakBefore source edits a := by
  intro edits
  obtain ⟨slots, touches, apart, rfl⟩ := Session.touches_of_written
    (Session.isFresh_ofType source typeName unit t depth style path) fit headers rfl
      rfl rfl rfl written
  refine ⟨⟨Edit.lineAt source edits, ?_, ?_⟩, fun a b h layout =>
    ⟨layout.unsplit touches h, layout.keepsBreak fit touches h⟩⟩
  · intro a b h unsplit keeps
    exact (keepsLine fit touches apart h unsplit keeps).isLineAt
  · intro a b a' b' h unsplit keeps h' unsplit' keeps' hlt
    refine (keepsLine fit touches apart h unsplit keeps).lineAt_lt
      (keepsLine fit touches apart h' unsplit' keeps') ?_
    -- a line starts behind the end of the one in front of it
    exact Nat.lt_of_not_le fun hle => h.not_startsLine hlt hle h'.starts

/-- In the sample, imports are put in front, a method behind the last member,
and a field and the blank line above it are removed: the field with its comment
and the method stay lines, in this order. -/
theorem user_lines_stay_whole_sample :
    SpansFit Sample.source Sample.unit Sample.type ∧
    HeadersFit Sample.source Sample.unit ∧
    ((Session.ofType Sample.source "A" Sample.unit Sample.type 1 {}).run
      Sample.calls).write =
      .ok (some Sample.outcome) ∧
    ∃ place : Nat → Nat,
      IsLineAt Sample.outcome "    int x; // by hand" (place 10) ∧
      IsLineAt Sample.outcome "    @Keep void f() \x7b\x7d" (place 97) ∧
      place 10 + 21 < place 97 := by
  let edits := ((Session.ofType Sample.source "A" Sample.unit Sample.type 1 {}).run
    Sample.calls).buffer.edits
  have headers : HeadersFit Sample.source Sample.unit := by decide +kernel
  obtain ⟨⟨place, stands, ordered⟩, -⟩ :=
    user_lines_stay_whole Sample.fits headers "A" 1 {} none Sample.calls Sample.written
  have lines : ∀ line ∈ [(10, 31), (97, 118)],
      IsUserLine Sample.source Sample.type line.1 line.2 ∧
      IsUnsplit edits line.1 line.2 ∧ KeepsBreakBefore Sample.source edits line.1 := by
    decide +kernel
  obtain ⟨field, unsplit, keeps⟩ := lines (10, 31) (by decide)
  obtain ⟨method, unsplit', keeps'⟩ := lines (97, 118) (by decide)
  exact ⟨Sample.fits, headers, Sample.written, place, stands 10 31 field unsplit keeps,
    stands 97 118 method unsplit' keeps',
    ordered 10 31 97 118 field unsplit keeps method unsplit' keeps' (by decide)⟩

end

namespace SharedLines

/-- A class whose declarations share their lines with comments and
with one another. -/
def source : Text :=
  "import java.util.List; // lists\nclass A \x7b\n    int x; // by hand\n" ++
    "    int y() \x7b return 1; \x7d @Generated int a;\n    void f() \x7b\x7d\n\x7d\n"

/-- The source as it is read. -/
def unit : CompilationUnit := CompilationUnit.read source

/-- The class of the source. -/
def type : TypeDecl := unit.types.head!

/-- A pass that adds an import and a field and leaves the
generated field over. -/
def calls : List Call := [.importOf "java.awt.Color", .define (.field "b") "int b;"]

/-- What the pass makes of the source. -/
def outcome : Text :=
  "import java.util.List;\nimport java.awt.Color; // lists\nclass A \x7b\n    int x;\n" ++
    "    @Generated(hash = 100361288)\n    int b; // by hand\n" ++
    "    int y() \x7b return 1; \x7d     void f() \x7b\x7d\n\x7d\n"

end SharedLines

/-- Lines of the user are broken where declarations do not end their lines:
what is inserted behind an imported name and a field cuts their comments off,
and a method moves up behind another one when the generated field between
them is removed. -/
theorem user_lines_broken :
    SpansFit SharedLines.source SharedLines.unit SharedLines.type ∧
    HeadersFit SharedLines.source SharedLines.unit ∧
    ((Session.ofType SharedLines.source "A" SharedLines.unit SharedLines.type 1 {}).run
      SharedLines.calls).write = .ok (some SharedLines.outcome) ∧
    ∀ line ∈ [(0, 31), (42, 63), (108, 123)],
      IsUserLine SharedLines.source SharedLines.type line.1 line.2 ∧
      ∀ p, ¬ IsLineAt SharedLines.outcome
        (SharedLines.source.slice line.1 line.2) p := by
  have fits : SpansFit SharedLines.source SharedLines.unit SharedLines.type ∧
      HeadersFit SharedLines.source SharedLines.unit := by decide +kernel
  refine ⟨fits.1, fits.2, by decide +kernel, fun line hline => ?_⟩
  have lines : ∀ line ∈ [(0, 31), (42, 63), (108, 123)],
      IsUserLine SharedLines.source SharedLines.type line.1 line.2 ∧
      SharedLines.source.slice line.1 line.2 ≠ [] ∧ ∀ p < SharedLines.outcome.length,
        ¬ IsLineAt SharedLines.outcome (SharedLines.source.slice line.1 line.2) p := by
    decide +kernel
  obtain ⟨user, filled, nowhere⟩ := lines line hline
  exact ⟨user, fun p hp => nowhere p (hp.lt_length filled) hp⟩

end Graft.Merge
