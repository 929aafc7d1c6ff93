import Graft.Proofs.Code.Edits
import Graft.Proofs.Code.Lines
import Graft.Proofs.Code.Stamp
import Graft.Proofs.Merge.Slots

/-!
# Code written by hand

A pass rewrites nothing but generated members. Each of its edits either replaces
the extent of a generated member, or removes one together with blanks around it,
or inserts text at a place that lies inside no member (`Harmless`). Therefore
everything else that is not blank is found again in the outcome, in its order,
and every declaration written by hand in one piece. What a reader makes of that
piece may change: the mark of a new member that shares a line with its comment
falls to the member behind it.
-/

namespace Graft.Merge

open Java Entity Code

/-- A position lies inside no member of a type. -/
def IsBetweenMembers (t : TypeDecl) (position : Nat) : Prop :=
  ∀ d ∈ t.members, ¬ (d.extent.start < position ∧ position < d.extent.stop)

/-- An edit that leaves alone what is written by hand. -/
inductive Harmless (source : Text) (t : TypeDecl) : Edit → Prop
  /-- A generated member is replaced, exactly. -/
  | replaces {d : Declaration} (mem : d ∈ t.members) (generated : IsGenerated d)
      (text : Text) :
      Harmless source t ⟨d.extent.start, d.extent.stop, text⟩
  /-- A generated member is removed, with nothing but blanks around it. -/
  | removes {d : Declaration} (mem : d ∈ t.members) (generated : IsGenerated d)
      {start stop : Nat}
      (widens : WidensByBlanks source d.extent.start d.extent.stop start stop) :
      Harmless source t ⟨start, stop, []⟩
  /-- Text is inserted between members. -/
  | inserts {position : Nat} (between : IsBetweenMembers t position) (text : Text) :
      Harmless source t ⟨position, position, text⟩

/-- A position belongs to no generated member. -/
def IsByHand (t : TypeDecl) (position : Nat) : Prop :=
  ∀ d ∈ t.members, IsGenerated d →
    ¬ (d.extent.start ≤ position ∧ position < d.extent.stop)

section

variable {source : Text} {unit : CompilationUnit} {t : TypeDecl}

/-! ## Places between members -/

namespace SpansFit

theorem between_stop (fit : SpansFit source unit t) {d : Declaration}
    (hd : d ∈ t.members) :
    IsBetweenMembers t d.extent.stop := by
  intro e he
  have hfilled := fit.filled d hd
  by_cases hde : d = e
  · subst hde
    omega
  · rcases fit.isApart hd he hde with h | h <;> omega

theorem between_of_le (fit : SpansFit source unit t) {position : Nat}
    (h : position ≤ t.body.start + 1) : IsBetweenMembers t position := by
  intro d hd
  have := (fit.inside d hd).1
  omega

theorem between_of_ge (fit : SpansFit source unit t) {position : Nat}
    (h : t.body.stop - 1 ≤ position) : IsBetweenMembers t position := by
  intro d hd
  have := (fit.inside d hd).2
  omega

/-- No member reaches into the blanks in front of the closing brace. -/
theorem between_of_blank (fit : SpansFit source unit t) {position : Nat}
    (h : Text.isBlank (source.slice position (t.body.stop - 1)) = true) :
    IsBetweenMembers t position := by
  rintro d hd ⟨-, hlt⟩
  have := (fit.inside d hd).2
  exact not_solid_of_blank h (by omega) (by omega) (fit.last d hd)

/-- Imports go outside the type. -/
theorem importEdits_outside (fit : SpansFit source unit t) {imports : List Text}
    {e : Edit} (he : e ∈ importEdits unit imports) :
    e.stop = e.start ∧ (e.start ≤ t.body.start + 1 ∨ t.body.stop - 1 ≤ e.start) := by
  have houtside : ∀ span : Span, IsOutside span t.body →
      span.stop ≤ t.body.start + 1 ∨ t.body.stop - 1 ≤ span.stop := by
    rintro span ⟨hle, h | h⟩ <;> omega
  rw [importEdits] at he
  split at he
  · cases he
  · split at he
    · next last hlast =>
      rw [List.mem_singleton] at he
      subst he
      exact ⟨rfl, houtside _ (fit.imports last (List.mem_of_getLast? hlast))⟩
    · split at he
      · next package hpackage =>
        rw [List.mem_singleton] at he
        subst he
        exact ⟨rfl, houtside _ (fit.package package hpackage)⟩
      · rw [List.mem_singleton] at he
        subst he
        exact ⟨rfl, .inl (Nat.zero_le _)⟩

end SpansFit

/-! ## Places for insertions -/

/-- A new member is put behind a member that stays. -/
theorem anchor?_spec {kind anchorKind : MemberKind} {slots : List Slot} {position : Nat}
    (h : anchor? kind slots = some (position, anchorKind)) :
    ∃ slot ∈ slots, slot.isStale = false ∧ slot.member.extent.stop = position := by
  rw [anchor?] at h
  obtain ⟨k, -, hk⟩ := List.exists_of_findSome?_eq_some h
  obtain ⟨stop, hstop, heq⟩ := Option.map_eq_some_iff.mp hk
  rw [Prod.mk.injEq] at heq
  obtain ⟨rfl, rfl⟩ := heq
  obtain ⟨slot, hslot, rfl⟩ := List.mem_map.mp (List.max?_mem hstop)
  obtain ⟨hmem, hcond⟩ := List.mem_filter.mp hslot
  rw [Bool.and_eq_true, Bool.not_eq_true'] at hcond
  exact ⟨slot, hmem, hcond.2, rfl⟩

/-- The places that new members are put at. -/
inductive Session.InsertsAt (s : Session) (slots : List Slot) : Nat → Prop
  /-- Behind a member that stays. -/
  | behind {slot : Slot} (mem : slot ∈ slots) (stays : slot.isStale = false) :
      InsertsAt s slots slot.member.extent.stop
  /-- Behind the opening brace. -/
  | opening : InsertsAt s slots (s.body.start + 1)
  /-- In front of the closing brace. -/
  | closing : InsertsAt s slots (s.body.stop - 1)
  /-- In front of the line of the closing brace, which has
  nothing else on it. -/
  | closingLine (inside : s.body.start < lineStart s.source (s.body.stop - 1))
      (blank : Text.isBlank (s.source.slice (lineStart s.source (s.body.stop - 1))
        (s.body.stop - 1)) = true) :
      InsertsAt s slots (lineStart s.source (s.body.stop - 1))

theorem Session.bodyEndEdit_insertsAt (s : Session) (slots : List Slot) (block : Text) :
    (s.bodyEndEdit block).stop = (s.bodyEndEdit block).start ∧
      s.InsertsAt slots (s.bodyEndEdit block).start := by
  rw [bodyEndEdit]
  dsimp only
  split
  · next h =>
    rw [Bool.and_eq_true, decide_eq_true_iff] at h
    exact ⟨rfl, .closingLine h.1 h.2⟩
  · exact ⟨rfl, .closing⟩

theorem Session.insertionEdits_insertsAt {s : Session} {slots : List Slot}
    {pending : List Pending} {e : Edit} (he : e ∈ s.insertionEdits slots pending) :
    e.stop = e.start ∧ s.InsertsAt slots e.start := by
  rw [insertionEdits] at he
  simp only [List.mem_append] at he
  -- behind a member that stays, at the opening brace, or in front of the
  -- closing one
  rcases he with (he | he) | he
  · obtain ⟨place, hplace, hbehind⟩ := List.mem_filterMap.mp he
    obtain ⟨p, -, rfl⟩ := List.mem_map.mp hplace
    rw [Session.place] at hbehind
    cases hanchor : anchor? p.signature.kind slots with
    | none =>
      rw [hanchor] at hbehind
      dsimp only at hbehind
      by_cases hstart : (p.signature.kind == .field && !s.bodyContent.isEmpty) = true
      · rw [if_pos hstart] at hbehind
        cases hbehind
      · rw [if_neg hstart] at hbehind
        cases hbehind
    | some anchor =>
      obtain ⟨position, anchorKind⟩ := anchor
      rw [hanchor] at hbehind
      cases hbehind
      obtain ⟨slot, hslot, hstays, rfl⟩ := anchor?_spec hanchor
      exact ⟨rfl, .behind hslot hstays⟩
  · split at he
    · cases he
    · rw [List.mem_singleton] at he
      subst he
      exact ⟨rfl, .opening⟩
  · split at he
    · cases he
    · rw [List.mem_singleton] at he
      subst he
      exact s.bodyEndEdit_insertsAt slots _

/-! ## The edits of a pass -/

theorem replacementEdits_harmless {slots : List Slot}
    (hslots : ∀ slot ∈ slots, ∃ d ∈ t.members, slot.StandsFor d) {e : Edit}
    (he : e ∈ replacementEdits slots) : Harmless source t e := by
  obtain ⟨slot, hslot, hreplaced, heq⟩ := exists_replaced he
  obtain ⟨d, hd, hfor⟩ := hslots slot hslot
  rw [heq, hfor.extent]
  exact .replaces hd ⟨hfor.declares, hfor.replaced hreplaced⟩ _

/-- A removal reaches over blanks only. -/
theorem widens_removalRange {e : Extent} (hle : e.start ≤ e.stop)
    (hstop : e.stop ≤ source.length) :
    WidensByBlanks source e.start e.stop (removalRange source e).1
      (removalRange source e).2 := by
  have hlines := wholeLines_widens hle hstop
  rw [removalRange]
  cases hblank : blankLineBefore? source (wholeLines source e.start e.stop).1 with
  | none => simpa [hblank] using hlines
  | some start =>
    obtain ⟨hle, habove⟩ := blankLineBefore?_spec hblank
    simpa [hblank] using hlines.trans_before hle habove

theorem removalRange_widens (fit : SpansFit source unit t) {d : Declaration}
    (hd : d ∈ t.members) :
    WidensByBlanks source d.extent.start d.extent.stop (removalRange source d.extent).1
      (removalRange source d.extent).2 :=
  widens_removalRange (Nat.le_of_lt (fit.filled d hd))
    (Nat.le_of_lt (fit.stop_lt_length hd))

theorem removalEdits_harmless (fit : SpansFit source unit t) {slots : List Slot}
    (hslots : ∀ slot ∈ slots, ∃ d ∈ t.members, slot.StandsFor d) {e : Edit}
    (he : e ∈ removalEdits source slots) : Harmless source t e := by
  obtain ⟨slot, hslot, hstale, heq⟩ := exists_removed he
  obtain ⟨d, hd, hfor⟩ := hslots slot hslot
  rw [heq, hfor.extent]
  exact .removes hd ⟨hfor.declares, hfor.stale hstale⟩ (removalRange_widens fit hd)

theorem harmless_of_point {e : Edit} (hpoint : e.stop = e.start)
    (hbetween : IsBetweenMembers t e.start) : Harmless source t e := by
  obtain ⟨start, stop, text⟩ := e
  cases hpoint
  exact .inserts hbetween text

theorem importEdits_harmless (fit : SpansFit source unit t) {imports : List Text}
    {e : Edit} (he : e ∈ importEdits unit imports) : Harmless source t e := by
  obtain ⟨hpoint, houtside⟩ := fit.importEdits_outside he
  refine harmless_of_point hpoint ?_
  rcases houtside with h | h
  · exact fit.between_of_le h
  · exact fit.between_of_ge h

theorem between_of_insertsAt (fit : SpansFit source unit t) {s : Session}
    (hsource : s.source = source) (hbody : s.body = t.body) {slots : List Slot}
    (hslots : ∀ slot ∈ slots, ∃ d ∈ t.members, slot.StandsFor d) {position : Nat}
    (h : s.InsertsAt slots position) : IsBetweenMembers t position := by
  subst hsource
  cases h with
  | @behind slot hslot _ =>
    obtain ⟨d, hd, hfor⟩ := hslots slot hslot
    exact hfor.extent ▸ fit.between_stop hd
  | opening => exact fit.between_of_le (Nat.le_of_eq (by rw [hbody]))
  | closing => exact fit.between_of_ge (Nat.le_of_eq (by rw [hbody]))
  | closingLine _ hblank =>
    rw [hbody] at hblank ⊢
    exact fit.between_of_blank hblank

theorem insertionEdits_harmless (fit : SpansFit source unit t) {s : Session}
    (hsource : s.source = source) (hbody : s.body = t.body) {slots : List Slot}
    (hslots : ∀ slot ∈ slots, ∃ d ∈ t.members, slot.StandsFor d)
    {pending : List Pending} {e : Edit} (he : e ∈ s.insertionEdits slots pending) :
    Harmless source t e := by
  obtain ⟨hpoint, hplace⟩ := Session.insertionEdits_insertsAt he
  exact harmless_of_point hpoint (between_of_insertsAt fit hsource hbody hslots hplace)

/-! ## Edits as they are recorded -/

namespace Harmless

/-- Recording an edit moves it at most from behind the text to its end. -/
theorem clampTo (fit : SpansFit source unit t) {e : Edit} (h : Harmless source t e) :
    Harmless source t (e.clampTo source.length) := by
  cases h with
  | @replaces d hd hgen text =>
    rw [Edit.clampTo_of_le (Nat.le_of_lt (fit.filled d hd))
      (Nat.le_of_lt (fit.stop_lt_length hd))]
    exact .replaces hd hgen text
  | @removes d hd hgen start stop hwidens =>
    have hfilled := fit.filled d hd
    have hstart := hwidens.starts
    have hstop := hwidens.stops
    rw [Edit.clampTo_of_le (by dsimp only; omega) hwidens.inText]
    exact .removes hd hgen hwidens
  | @inserts position hbetween text =>
    have hend : Edit.clampTo source.length ⟨position, position, text⟩ =
        ⟨min position source.length, min position source.length, text⟩ := by
      simp [Edit.clampTo]
    rw [hend]
    refine .inserts (fun d hd => ?_) text
    have := fit.stop_lt_length hd
    have := hbetween d hd
    omega

/-- An edit does not reach into what is written by hand. -/
theorem spares (fit : SpansFit source unit t) {e : Edit} (h : Harmless source t e)
    {d : Declaration} (hd : d ∈ t.members) (hhand : ¬ IsGenerated d) :
    e.Spares d.extent.start d.extent.stop := by
  have hfilled := fit.filled d hd
  cases h with
  | @replaces g hg hgen text =>
    have hapart := fit.apart_of_generated hg hd hgen hhand
    have := fit.filled g hg
    rw [IsApart] at hapart
    dsimp only [Edit.Spares]
    omega
  | @removes g hg hgen start stop hwidens =>
    have := fit.filled g hg
    have hstart := hwidens.starts
    have hstop := hwidens.stops
    -- the blanks around the removed member end before the first or last
    -- character of the other
    have hreach : stop ≤ d.extent.start ∨ d.extent.stop ≤ start := by
      rcases fit.apart_of_generated hg hd hgen hhand with h | h
      · left
        apply Nat.le_of_not_lt
        intro hlt
        exact not_solid_of_blank hwidens.after h hlt (fit.first d hd)
      · right
        apply Nat.le_of_not_lt
        intro hlt
        exact not_solid_of_blank hwidens.before (by omega) (by omega) (fit.last d hd)
    dsimp only [Edit.Spares]
    omega
  | @inserts position hbetween text =>
    have := hbetween d hd
    dsimp only [Edit.Spares]
    omega

/-- An edit does not take away a character that is not blank and in no
generated member. -/
theorem clears {e : Edit} (h : Harmless source t e) {p : Nat}
    (hsolid : IsSolid source p) (hhand : IsByHand t p) : e.Clears p := by
  cases h with
  | @replaces g hg hgen text =>
    have := hhand g hg hgen
    dsimp only [Edit.Clears]
    omega
  | @removes g hg hgen start stop hwidens =>
    have hout := hhand g hg hgen
    apply Classical.byContradiction
    intro hclear
    dsimp only [Edit.Clears] at hclear
    by_cases hfront : p < g.extent.start
    · exact not_solid_of_blank hwidens.before (by omega) hfront hsolid
    · exact not_solid_of_blank hwidens.after (by omega) (by omega) hsolid
  | @inserts position hbetween text =>
    dsimp only [Edit.Clears]
    omega

end Harmless

namespace Session

variable {s : Session}

private theorem foldl_push (edits : List Edit) (b : EditBuffer) :
    (edits.foldl (fun b e => b.push e.start e.stop e.text) b) =
      { b with edits := b.edits ++ edits.map (Edit.clampTo b.source.length) } := by
  induction edits generalizing b with
  | nil => simp
  | cons e rest ih =>
    rw [List.foldl_cons, ih]
    simp [EditBuffer.push, Edit.clampTo]

theorem buffer_eq : s.buffer =
    { source := s.source, edits := s.edits.map (Edit.clampTo s.source.length) } := by
  rw [buffer, foldl_push]
  rfl

/-- An outcome is what the recorded edits make of the source. -/
theorem write_eq_some {out : Text} (h : s.write = .ok (some out)) :
    s.isKept = false ∧ s.buffer.render = .ok out := by
  rw [write] at h
  split at h
  · cases h
  · next hkept =>
    refine ⟨Bool.not_eq_true _ ▸ hkept, ?_⟩
    split at h
    · cases h
    · next rendered hrendered =>
      split at h
      · cases h
      · dsimp only at h
        split at h
        · cases h
        · cases h
          exact hrendered

theorem edits_harmless (fit : SpansFit source unit t) {s₀ : Session}
    {calls : List Call} (h : Reached s₀ calls s) (fresh : s₀.IsFresh)
    (hmembers : s₀.members = indexMembers t) (hsource : s₀.source = source)
    (hunit : s₀.unit = unit) (hbody : s₀.body = t.body) {e : Edit}
    (he : e ∈ s.edits) : Harmless source t e := by
  have hslots : ∀ slot ∈ (takeOver s.slots s.pending).1,
      ∃ d ∈ t.members, slot.StandsFor d :=
    fun _ hslot => h.standsFor_takeOver fresh hmembers hslot
  rw [← h.source_eq] at hsource
  rw [← h.unit_eq] at hunit
  rw [← h.body_eq] at hbody
  simp only [edits, List.mem_append] at he
  rcases he with ((he | he) | he) | he
  · exact importEdits_harmless fit (hunit ▸ he)
  · exact replacementEdits_harmless hslots he
  · exact removalEdits_harmless fit hslots (hsource ▸ he)
  · exact insertionEdits_harmless fit hsource hbody hslots he

theorem run_of_isKept (hkept : s.isKept = true) (calls : List Call) :
    (s.run calls).isKept = true := by
  rw [run_eq_of_isKept hkept, hkept]

/-- A pass with an outcome is not over a type that is kept as a whole. -/
theorem isKept_of_written {calls : List Call} {out : Text}
    (h : (s.run calls).write = .ok (some out)) :
    s.isKept = false := by
  cases hkept : s.isKept with
  | false => rfl
  | true =>
    have := (write_eq_some h).1
    rw [run_of_isKept hkept] at this
    cases this

end Session

/-! ## The outcome -/

namespace Sample

/-- A pass over the sample that replaces one of its generated fields
and adds a method. -/
def calls : List Call :=
  [.importOf "java.util.List", .define (.field "a") "int a = 1;",
    .define (.method "g" ["int".toList]) "int g(int n) \x7b\nreturn n;\n\x7d"]

/-- What the pass makes of the sample. -/
def outcome : Text :=
  "import java.util.List;\n\nclass A \x7b\n    int x; // by hand\n" ++
    "    @Generated(hash = 1957890965)\n    int a = 1;\n    @Keep void f() \x7b\x7d\n\n" ++
    "    @Generated(hash = 1887546783)\n    int g(int n) \x7b\n        return n;\n    \x7d\n\x7d\n"

theorem written :
    ((Session.ofType Sample.source "A" Sample.unit type 1 {}).run calls).write =
    .ok (some outcome) := by
  decide +kernel

end Sample

/-- **A merge never touches what is written by hand.** When a pass over a type
whose spans fit the source has an outcome, each of its edits replaces a
generated member, removes one with blanks around it, or inserts text between
members. Characters that are neither blank nor part of a generated member are
found again, in their order, and every member written by hand or marked to be
kept is found again in one piece. -/
theorem write_keeps_hand_written (fit : SpansFit source unit t) (typeName : Text)
    (depth : Nat) (style : Style) (path : Option Text)
    (calls : List Call) {out : Text}
    (written :
      ((Session.ofType source typeName unit t depth style path).run calls).write =
      .ok (some out)) :
    (∀ e ∈
      ((Session.ofType source typeName unit t depth style path).run
        calls).buffer.edits,
      Harmless source t e) ∧
    ∃ place : Nat → Nat,
      (∀ p, IsSolid source p → IsByHand t p → out[place p]? = source[p]?) ∧
      (∀ p q, IsSolid source p → IsSolid source q → IsByHand t p →
        IsByHand t q → p < q →
        place p < place q) ∧
      ∀ d ∈ t.members, ¬ IsGenerated d →
        out.slice (place d.extent.start)
          (place d.extent.start + (d.extent.stop - d.extent.start)) =
          source.slice d.extent.start d.extent.stop := by
  let s₀ := Session.ofType source typeName unit t depth style path
  have hrender := (Session.write_eq_some written).2
  have fresh : s₀.IsFresh :=
    Session.isFresh_ofType source typeName unit t depth style path
  have reached := Session.reached_run fresh (Session.isKept_of_written written) calls
  have hsource : (s₀.run calls).buffer.source = source := by
    rw [Session.buffer_eq]
    exact reached.source_eq
  have hedits : ∀ e ∈ (s₀.run calls).buffer.edits, Harmless source t e := by
    intro e he
    rw [Session.buffer_eq, reached.source_eq] at he
    obtain ⟨f, hf, rfl⟩ := List.mem_map.mp he
    exact (Session.edits_harmless fit reached fresh rfl rfl rfl rfl hf).clampTo fit
  -- every character that no edit touches lands in the outcome, in order
  refine ⟨hedits, (s₀.run calls).buffer.landing, ?_, ?_, ?_⟩
  · intro p hp hhand
    obtain ⟨c, hc, -⟩ := id hp
    have hlen := (List.getElem?_eq_some_iff.mp hc).1
    rw [← hsource] at hlen ⊢
    apply EditBuffer.getElem?_landing hrender hlen
    exact fun e he => (hedits e he).clears hp hhand
  · intro p q hp hq hhandp hhandq hpq
    apply EditBuffer.landing_lt_landing hpq
    exact fun e he => ⟨(hedits e he).clears hp hhandp, (hedits e he).clears hq hhandq⟩
  · intro d hd hhand
    have hstop := fit.stop_lt_length hd
    rw [← hsource] at hstop ⊢
    apply EditBuffer.slice_landing hrender (Nat.le_of_lt hstop)
    exact fun e he => (hedits e he).spares fit hd hhand

/-- In the sample, one generated field is replaced, one removed, and a
method is added. -/
theorem write_keeps_hand_written_sample :
    SpansFit Sample.source Sample.unit Sample.type ∧
    ∃ place : Nat → Nat,
      ∀ d ∈ Sample.type.members, ¬ IsGenerated d →
        Text.slice Sample.outcome (place d.extent.start)
            (place d.extent.start + (d.extent.stop - d.extent.start)) =
          Sample.source.slice d.extent.start d.extent.stop := by
  obtain ⟨-, place, -, -, hslice⟩ :=
    write_keeps_hand_written Sample.fits "A" 1 {} none Sample.calls Sample.written
  exact ⟨Sample.fits, place, hslice⟩

end

/-! ## Candidates that share a line with their comment -/

/-- **A new member is marked behind itself** when a comment opens its line. The
session holds it back with the mark at its end, so that the mark stands in front
of whatever follows the new member. -/
theorem define_commented_line {s : Session} {σ : Signature} {line : Text}
    (free : s.isKept = false) (new : s.findMember? σ = none)
    (alone : s.pending.any (·.signature.isSameMember σ) = false)
    (h : IsCommentedLine line) :
    s.define σ line =
      .ok ({ s with
        pending := s.pending ++ [⟨σ, s.style.indent s.depth ++
          (Text.trimStart line ++ mark (structuralHash line))⟩] }, .inserted) := by
  rw [Session.define, if_neg (by rw [free]; decide), new]
  show s.defineNew σ (ensureStamped line) = _
  rw [Session.defineNew, if_neg (by rw [alone]; decide), Session.laidOut,
    h.layout_ensureStamped]

namespace CommentedSample

/-- A class with a method written by hand. -/
def source : Text := "class A \x7b\n    int x;\n    void mine() \x7b\x7d\n\x7d\n"

/-- The source as it is read. -/
def unit : CompilationUnit := CompilationUnit.read source

/-- A session over the class. -/
def session : Session := Session.ofType source "A" unit unit.types.head! 1 {}

/-- A field with its comment on its line. -/
def candidate : Text := "/** x */ int a;"

/-- The class with the field. -/
def outcome : Text :=
  "class A \x7b\n    int x;\n    /** x */ int a;@Generated(hash = 100361257)\n" ++
    "    void mine() \x7b\x7d\n\x7d\n"

/-- The outcome as it is read. -/
def unit' : CompilationUnit := CompilationUnit.read outcome

end CommentedSample

/-- The mark of the new field falls to the method behind it. It is
read as generated from then on, and the next pass that is not asked
for it removes it. -/
theorem mark_falls_to_next_member :
    (indexMembers CommentedSample.unit.types.head!).map Member.provenance =
      [.unmarked, .unmarked] ∧
    (CommentedSample.session.run
      [.define (.field "a") CommentedSample.candidate]).write =
      .ok (some CommentedSample.outcome) ∧
    (indexMembers CommentedSample.unit'.types.head!).map Member.provenance =
      [.unmarked, .unmarked, .generated (some 100361257)] ∧
    (Session.ofType CommentedSample.outcome "A" CommentedSample.unit'
        CommentedSample.unit'.types.head! 1 {}).write =
      .ok (some "class A \x7b\n    int x;\n    /** x */ int a;\x7d\n") := by
  decide +kernel

end Graft.Merge
