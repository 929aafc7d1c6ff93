import Graft.Proofs.Merge.Loads
import Graft.Proofs.Merge.Reaching

/-!
# Every member and every candidate accounted for

What a pass does to a member and what it writes are read off the answers that it
gave. A declaration is reached by no edit, by one replacement or by one removal,
and its edits carry the texts of the candidates that were to be written, each
once and nothing else.
-/

namespace Graft.Merge

open Java Entity Code

variable {source : Text} {unit : CompilationUnit} {t : TypeDecl}

/-- What is written in place of a declaration is not empty. -/
theorem replacementText_ne_nil {slots : List Slot} {x : Extent}
    (hwritten : IsWritten slots x)
    (hsolid : ∀ text ∈ textsInPlace slots, Text.isBlank text = false) :
    replacementText slots x ≠ [] := by
  obtain ⟨slot, hslot, hreplaced, hx⟩ := hwritten
  obtain ⟨text, htext⟩ := Option.ne_none_iff_exists'.mp hreplaced
  have hmem : text ∈ textsInPlace (slots.filter (·.member.extent == x)) :=
    List.mem_filterMap.mpr ⟨slot, List.mem_filter.mpr ⟨hslot, beq_iff_eq.mpr hx⟩, htext⟩
  intro hnil
  rw [replacementText, Text.trimStart_eq_nil_iff, Text.isBlank_join_break,
    List.all_eq_true] at hnil
  have hblank := hnil text hmem
  rw [hsolid text (List.mem_filterMap.mpr ⟨slot, hslot, htext⟩)] at hblank
  cases hblank

namespace Session

variable {s₀ s : Session} {calls : List Call}

/-- What is to be written is the code of a candidate, marked and laid out. -/
theorem exists_of_accepted {text : Text} (h : text ∈ s₀.accepted calls) :
    ∃ c : Candidate, c.call ∈ calls ∧ text = s₀.laidOut (ensureStamped c.code) := by
  obtain ⟨⟨c, answer⟩, hanswer, htext⟩ := List.mem_filterMap.mp h
  refine ⟨c, call_mem_of_answered hanswer, ?_⟩
  dsimp only at htext
  unfold accepted? at htext
  split at htext
  · exact (Option.some.inj htext).symm
  · exact (Option.some.inj htext).symm
  · cases htext

/-- Code that is to be written is not blank. -/
theorem isBlank_of_accepted {text : Text} (h : text ∈ s₀.accepted calls) :
    Text.isBlank text = false := by
  obtain ⟨c, -, hlaid⟩ := exists_of_accepted h
  rw [hlaid, laidOut, isBlank_layout, isBlank_ensureStamped]

/-- The texts in place and the texts left to be inserted are those of the
accepted candidates. -/
theorem Reached.texts_accepted (h : Reached s₀ calls s) (ledger : Ledger s₀ calls s)
    (fresh : s₀.IsFresh) : (textsInPlace (takeOver s.slots s.pending).1 ++
      (takeOver s.slots s.pending).2.map (·.text)).Perm (s₀.accepted calls) := by
  refine (texts_takeOver (h.staleAreEmpty fresh) s.pending).trans ?_
  have hslots : textsInPlace s.slots = s.members.filterMap (·.replacement) := by
    rw [textsInPlace, slots, List.filterMap_map]
    rfl
  rw [hslots]
  exact ledger.texts

/-- The edits of a pass carry the texts of the accepted candidates. -/
theorem Reached.carry_edits (h : Reached s₀ calls s) (ledger : Ledger s₀ calls s)
    (fresh : s₀.IsFresh) : CarryAll s.imports s.buffer.edits (s₀.accepted calls) := by
  have hedits : CarryAll s.imports s.edits
      (([] ++ textsInPlace (takeOver s.slots s.pending).1 ++ []) ++
        (takeOver s.slots s.pending).2.map (·.text)) :=
    .append
      (.append
        (.append (carry_importEdits s.unit s.imports) (carry_replacementEdits _))
      (carry_removalEdits s.source _)) carry_insertionEdits
  rw [List.nil_append, List.append_nil] at hedits
  rw [buffer_eq]
  exact (hedits.perm (h.texts_accepted ledger fresh)).map_clampTo _

/-- What a pass does to a generated declaration, by the answers to the
candidates for its members. -/
structure Accounts (s₀ : Session) (calls : List Call) (source : Text) (d : Declaration)
    (edits : List Edit) (s : Session) : Prop where
  /-- Nothing, when it declares one member and the candidate for
  it was no change. -/
  spared : reaching d.extent edits = [] ↔
    (signaturesOf d).length = 1 ∧ AnsweredFor s₀ calls d.extent .unchanged
  /-- One replacement, when a member was to be replaced or a
  constructor took over. -/
  replaced : (∃ text, text ≠ [] ∧
      reaching d.extent edits = [⟨d.extent.start, d.extent.stop, text⟩]) ↔
    AnsweredFor s₀ calls d.extent .replaced ∨ s.IsTaken d.extent
  /-- One removal, when no candidate was held against a member and no
  constructor took over. -/
  removed : reaching d.extent edits =
      [⟨(removalRange source d.extent).1, (removalRange source d.extent).2, []⟩] ↔
    (∀ m ∈ s.members, m.extent = d.extent → m.refreshed = false) ∧ ¬ s.IsTaken d.extent

theorem Reached.accounts (h : Reached s₀ calls s) (ledger : Ledger s₀ calls s)
    (fresh : s₀.IsFresh) (fit : SpansFit source unit t)
    (hmembers : s₀.members = indexMembers t) (hsource : s₀.source = source)
    (hunit : s₀.unit = unit) (hbody : s₀.body = t.body) {d : Declaration}
    (hd : d ∈ t.members) (hgen : IsGenerated d) :
    Accounts s₀ calls source d s.buffer.edits s := by
  classical
  have hreaching := h.reaching_edits fresh fit hmembers hsource hunit hbody hd
  have hslots := h.slotsFit fresh fit hmembers
  have hspared := h.isSpared_iff ledger fresh fit hmembers hd hgen
  have hwritten := h.isWritten_iff ledger (x := d.extent)
  have hleft := h.isLeftOver_iff fit hmembers hd hgen
  have hsolid : ∀ text ∈ textsInPlace (takeOver s.slots s.pending).1,
      Text.isBlank text = false :=
    fun text htext => isBlank_of_accepted
      ((h.texts_accepted ledger fresh).mem_iff.mp (List.mem_append_left _ htext))
  -- what is left over is not written anew
  have hexclusive : IsLeftOver (takeOver s.slots s.pending).1 d.extent →
      ¬ IsWritten (takeOver s.slots s.pending).1 d.extent := by
    rintro ⟨a, ha, hstale, hax⟩ ⟨b, hb, hreplaced, hbx⟩
    exact hreplaced (hslots.together a ha b hb (hax.trans hbx.symm) hstale).2
  -- it is written anew, left over, or neither
  by_cases hw : IsWritten (takeOver s.slots s.pending).1 d.extent
  · have hne := replacementText_ne_nil hw hsolid
    have hl : ¬ IsLeftOver (takeOver s.slots s.pending).1 d.extent :=
      fun hl => hexclusive hl hw
    rw [if_pos hw, if_neg hl, List.append_nil] at hreaching
    refine ⟨?_, ?_, ?_⟩
    · rw [hreaching, ← hspared]
      simp [hw]
    · rw [← hwritten, hreaching]
      simp [hw, hne]
    · rw [← hleft, hreaching]
      simp [hl, hne]
  · rw [if_neg hw, List.nil_append] at hreaching
    by_cases hl : IsLeftOver (takeOver s.slots s.pending).1 d.extent
    · rw [if_pos hl] at hreaching
      refine ⟨?_, ?_, ?_⟩
      · rw [hreaching, ← hspared]
        simp [hl]
      · rw [← hwritten, hreaching]
        simp only [hw, iff_false, List.cons.injEq, Edit.mk.injEq, and_true]
        rintro ⟨text, hne, -, -, rfl⟩
        exact hne rfl
      · rw [← hleft, hreaching]
        simp [hl]
    · rw [if_neg hl] at hreaching
      refine ⟨?_, ?_, ?_⟩
      · rw [hreaching, ← hspared]
        simp [hw, hl]
      · rw [← hwritten, hreaching]
        simp [hw]
      · rw [← hleft, hreaching]
        simp [hl]

end Session

/-- **Every member and every candidate is accounted for.** In a pass over a
type whose spans fit the source and that is not kept as a whole, no edit
reaches a member that is written by hand or kept. A generated declaration is
reached by no edit, one replacement or one removal, as the answers tell. The
edits carry the texts of the candidates that were answered to be inserted or
replaced, each once. -/
theorem write_accounts_for_all (fit : SpansFit source unit t)
    (free : hasMark t.modifiers "Keep" = false) (typeName : Text) (depth : Nat)
    (style : Style) (path : Option Text) (calls : List Call) :
    let s₀ := Session.ofType source typeName unit t depth style path
    let s := s₀.run calls
    (∀ d ∈ t.members, ¬ IsGenerated d → reaching d.extent s.buffer.edits = []) ∧
    (∀ d ∈ t.members, IsGenerated d →
      Session.Accounts s₀ calls source d s.buffer.edits s) ∧
    ∃ loads, List.Forall₂ (Carries s.imports) s.buffer.edits loads ∧
      loads.flatten.Perm (s₀.accepted calls) := by
  intro s₀ s
  have fresh : s₀.IsFresh :=
    Session.isFresh_ofType source typeName unit t depth style path
  have reached := Session.reached_run fresh free calls
  have ledger := Session.ledger_run fresh free calls
  refine ⟨?_, ?_, reached.carry_edits ledger fresh⟩
  · intro d hd hhand
    exact reached.reaching_byHand fresh fit rfl rfl rfl rfl hd hhand
  · intro d hd hgen
    exact reached.accounts ledger fresh fit rfl rfl rfl rfl hd hgen

/-- In the sample, the pass carries the text of the field that it replaces and
that of the new method, and nothing reaches the field written by hand. -/
theorem write_accounts_for_all_sample :
    let s₀ := Session.ofType Sample.source "A" Sample.unit Sample.type 1 {}
    let s := s₀.run Sample.calls
    SpansFit Sample.source Sample.unit Sample.type ∧
    hasMark Sample.type.modifiers "Keep" = false ∧
    (∃ loads, List.Forall₂ (Carries s.imports) s.buffer.edits loads ∧
      loads.flatten.Perm (s₀.accepted Sample.calls)) ∧
    s₀.accepted Sample.calls = ["    @Generated(hash = 1957890965)\n    int a = 1;",
      "    @Generated(hash = 1887546783)\n    int g(int n) \x7b\n        return n;\n    \x7d"] := by
  intro s₀ s
  have free : hasMark Sample.type.modifiers "Keep" = false := by decide +kernel
  obtain ⟨-, -, hcarry⟩ :=
    write_accounts_for_all Sample.fits free "A" 1 {} none Sample.calls
  exact ⟨Sample.fits, free, hcarry, by decide +kernel⟩

/-- A replacement stands behind the blanks in front of what it replaces and does
not repeat them: the text that the sample's field is replaced by, as it was laid
out, is part of no edit. -/
theorem replaced_text_is_trimmed :
    let s₀ := Session.ofType Sample.source "A" Sample.unit Sample.type 1 {}
    (⟨.field "a", "int a = 1;"⟩, .ok .replaced) ∈ s₀.answers Sample.calls ∧
    ∀ e ∈ (s₀.run Sample.calls).buffer.edits,
      ¬ s₀.laidOut (ensureStamped "int a = 1;") <:+: e.text := by
  decide +kernel

end Graft.Merge
