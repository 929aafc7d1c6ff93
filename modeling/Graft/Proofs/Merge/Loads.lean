import Graft.Proofs.Code.Edits
import Graft.Proofs.Code.Stamp
import Graft.Proofs.Merge.Slots
import Mathlib.Data.List.Forall2
import Mathlib.Data.List.Perm.Basic

/-!
# What the edits carry

An edit of a pass carries the texts of some candidates, with blanks around and
between them, or it carries none (`Carries`). Replacements are grouped by the
declaration they stand for and insertions by their place, and neither loses a
text or carries one twice (`carry_replacementEdits`, `carry_insertionEdits`).
-/

namespace Graft.Merge

open Java Entity Code

/-- What an edit of a pass is made of: the texts that it carries. A replacement
loses the blanks in front of its first text. -/
inductive Carries (imports : List Text) : Edit → List Text → Prop
  /-- Import declarations. -/
  | imports (position : Nat) (lead tail : Text) (leads : Text.isBlank lead = true)
      (tails : Text.isBlank tail = true) :
      Carries imports ⟨position, position, lead ++ importBlock imports ++ tail⟩ []
  /-- Nothing, in place of what is removed. -/
  | removes (start stop : Nat) : Carries imports ⟨start, stop, []⟩ []
  /-- The texts that are written in place of a declaration. -/
  | replaces (start stop : Nat) {texts : List Text} (filled : texts ≠ []) :
      Carries imports ⟨start, stop, Text.trimStart (Text.join ['\n'] texts)⟩ texts
  /-- Texts that are inserted together. -/
  | inserts (position : Nat) (lead separator tail : Text) {texts : List Text}
      (filled : texts ≠ []) (leads : Text.isBlank lead = true)
      (separates : Text.isBlank separator = true) (tails : Text.isBlank tail = true) :
      Carries imports ⟨position, position,
        lead ++ Text.join separator texts ++ tail⟩ texts

/-- Edits carry texts, each once, in some order. -/
def CarryAll (imports : List Text) (edits : List Edit) (texts : List Text) : Prop :=
  ∃ loads, List.Forall₂ (Carries imports) edits loads ∧ loads.flatten.Perm texts

section

variable {imports : List Text} {edits : List Edit} {texts : List Text}

theorem Carries.clampTo {e : Edit} (h : Carries imports e texts) (length : Nat) :
    Carries imports (e.clampTo length) texts := by
  have hpoint : ∀ position,
      min position (min position length) = min position length := by
    intro position
    omega
  unfold Edit.clampTo
  cases h with
  | imports position lead tail hl ht =>
    dsimp only
    rw [hpoint]
    exact .imports _ lead tail hl ht
  | removes start stop => exact .removes _ _
  | replaces start stop hne => exact .replaces _ _ hne
  | inserts position lead separator tail hne hl hs ht =>
    dsimp only
    rw [hpoint]
    exact .inserts _ lead separator tail hne hl hs ht

namespace CarryAll

theorem nil : CarryAll imports [] [] := ⟨[], .nil, .nil⟩

theorem single {e : Edit} (h : Carries imports e texts) : CarryAll imports [e] texts :=
  ⟨[texts], .cons h .nil, by simp⟩

theorem append {edits' : List Edit} {texts' : List Text}
    (h : CarryAll imports edits texts) (h' : CarryAll imports edits' texts') :
    CarryAll imports (edits ++ edits') (texts ++ texts') := by
  obtain ⟨loads, hloads, hperm⟩ := h
  obtain ⟨loads', hloads', hperm'⟩ := h'
  refine ⟨loads ++ loads', List.rel_append hloads hloads', ?_⟩
  rw [List.flatten_append]
  exact hperm.append hperm'

theorem perm {texts' : List Text} (h : CarryAll imports edits texts)
    (hperm : texts.Perm texts') :
    CarryAll imports edits texts' := by
  obtain ⟨loads, hloads, hflat⟩ := h
  exact ⟨loads, hloads, hflat.trans hperm⟩

theorem map_clampTo (h : CarryAll imports edits texts) (length : Nat) :
    CarryAll imports (edits.map (Edit.clampTo length)) texts := by
  obtain ⟨loads, hloads, hflat⟩ := h
  refine ⟨loads, ?_, hflat⟩
  rw [List.forall₂_map_left_iff]
  exact hloads.imp fun _ _ hcarries => hcarries.clampTo length

/-- Edits made one for each element carry what these bring. -/
theorem map {α : Type} {xs : List α} (f : α → Edit) (load : α → List Text)
    (h : ∀ x ∈ xs, Carries imports (f x) (load x)) :
    CarryAll imports (xs.map f) (xs.flatMap load) := by
  induction xs with
  | nil => exact .nil
  | cons x rest ih =>
    exact (single (h x List.mem_cons_self)).append
      (ih fun y hy => h y (List.mem_cons_of_mem _ hy))

end CarryAll

/-! ## Imports and removals -/

theorem carry_importEdits (u : CompilationUnit) (imports : List Text) :
    CarryAll imports (importEdits u imports) [] := by
  rw [importEdits]
  split
  · exact .nil
  · split
    · next last _ =>
      have h : Carries imports _ _ := .imports last.span.stop ['\n'] [] rfl rfl
      rw [List.append_nil] at h
      exact .single h
    · split
      · next package _ =>
        have h : Carries imports _ _ := .imports package.stop "\n\n" [] (by decide) rfl
        rw [List.append_nil] at h
        exact .single h
      · exact .single (.imports 0 [] "\n\n" rfl (by decide))

theorem carry_removalEdits (source : Text) (slots : List Slot) :
    CarryAll imports (removalEdits source slots) [] := by
  have h : CarryAll imports (removalEdits source slots)
      ((distinctExtents (slots.filter Slot.isStale)).flatMap fun _ => []) :=
    .map _ _ fun _ _ => .removes _ _
  rwa [List.flatMap_eq_nil_iff.mpr fun _ _ => rfl] at h

/-! ## Replacements -/

/-- Of distinct extents, one at most is the extent of a slot. -/
theorem flatMap_extent {xs : List Extent} (hdistinct : xs.Nodup) {x : Extent}
    {texts : List Text} (hx : texts ≠ [] → x ∈ xs) :
    (xs.flatMap fun y => if x == y then texts else []) = texts := by
  induction hdistinct with
  | nil =>
    apply Classical.byContradiction
    intro hne
    cases hx (Ne.symm hne)
  | @cons y rest hhead _ ih =>
    rw [List.flatMap_cons]
    by_cases hxy : x = y
    · subst hxy
      have hrest : (rest.flatMap fun y => if x == y then texts else []) = [] := by
        rw [List.flatMap_eq_nil_iff]
        intro z hz
        rw [if_neg (by simpa using hhead z hz)]
      rw [if_pos (beq_self_eq_true x), hrest, List.append_nil]
    · rw [if_neg (by simpa using hxy), List.nil_append]
      exact ih fun hne => (List.mem_cons.mp (hx hne)).resolve_left hxy

/-- Grouped by distinct extents, the texts in place are the same. -/
theorem textsInPlace_grouped {xs : List Extent} (hdistinct : xs.Nodup)
    {slots : List Slot}
    (hall : ∀ slot ∈ slots, slot.member.replacement ≠ none →
      slot.member.extent ∈ xs) :
    (xs.flatMap fun x => textsInPlace (slots.filter (·.member.extent == x))).Perm
      (textsInPlace slots) := by
  induction slots with
  | nil =>
    have hnone :
        (xs.flatMap fun x =>
          textsInPlace (([] : List Slot).filter (·.member.extent == x))) =
        [] := List.flatMap_eq_nil_iff.mpr fun _ _ => rfl
    rw [hnone]
    exact .refl _
  | cons slot rest ih =>
    have hrest := ih fun other hother => hall other (List.mem_cons_of_mem _ hother)
    have hsplit :
        (fun x => textsInPlace ((slot :: rest).filter (·.member.extent == x))) =
        fun x =>
          (if slot.member.extent == x then slot.member.replacement.toList else []) ++
          textsInPlace (rest.filter (·.member.extent == x)) := by
      funext x
      rw [List.filter_cons]
      split
      · rw [textsInPlace, List.filterMap_cons]
        cases slot.member.replacement <;> rfl
      · rfl
    have hown : (xs.flatMap fun x => if slot.member.extent == x then
        slot.member.replacement.toList else []) = slot.member.replacement.toList := by
      apply flatMap_extent hdistinct
      intro hne
      refine hall slot List.mem_cons_self fun hnone => hne ?_
      rw [hnone]
      rfl
    have hhead : textsInPlace (slot :: rest) =
        slot.member.replacement.toList ++ textsInPlace rest := by
      rw [textsInPlace, List.filterMap_cons]
      cases slot.member.replacement <;> rfl
    rw [hsplit, hhead]
    -- the text of the first slot stands in the group of its extent and in no
    -- other
    refine (List.flatMap_append_perm xs _ _).symm.trans ?_
    rw [hown]
    exact hrest.append_left _

theorem carry_replacementEdits (slots : List Slot) :
    CarryAll imports (replacementEdits slots) (textsInPlace slots) := by
  have hdistinct := nodup_distinctExtents (slots.filter (·.member.replacement.isSome))
  rw [replacementEdits]
  refine CarryAll.perm (CarryAll.map _ _ ?_) (textsInPlace_grouped hdistinct ?_)
  · intro x hx
    apply Carries.replaces
    obtain ⟨slot, hslot, rfl⟩ := mem_distinctExtents.mp hx
    obtain ⟨hmem, hreplaced⟩ := List.mem_filter.mp hslot
    obtain ⟨text, htext⟩ := Option.isSome_iff_exists.mp hreplaced
    have hgrouped : slot ∈ slots.filter (·.member.extent == slot.member.extent) :=
      List.mem_filter.mpr ⟨hmem, beq_self_eq_true _⟩
    exact List.ne_nil_of_mem (List.mem_filterMap.mpr ⟨slot, hgrouped, htext⟩)
  · intro slot hslot hreplaced
    refine mem_distinctExtents.mpr ⟨slot, ?_, rfl⟩
    exact List.mem_filter.mpr ⟨hslot, Option.isSome_iff_ne_none.mpr hreplaced⟩

/-! ## Insertions -/

/-- The insertion behind a member. -/
def Placement.edit? : Placement → Option Edit
  | .behind e => some e
  | _ => none

/-- The text that goes to the start of the body. -/
def Placement.startText? : Placement → Option Text
  | .atStart text => some text
  | _ => none

/-- The text that goes to the end of the body. -/
def Placement.endText? : Placement → Option Text
  | .atEnd text => some text
  | _ => none

namespace Session

variable {s : Session} {slots : List Slot} {pending : List Pending}

theorem insertionEdits_eq : s.insertionEdits slots pending =
    (pending.map (s.place slots)).filterMap Placement.edit? ++
      (if ((pending.map (s.place slots)).filterMap Placement.startText?).isEmpty then []
      else [⟨s.body.start + 1, s.body.start + 1, '\n' :: Text.join ['\n']
        ((pending.map (s.place slots)).filterMap Placement.startText?) ++ ['\n']⟩]) ++
      (if ((pending.map (s.place slots)).filterMap Placement.endText?).isEmpty then []
      else [s.bodyEndEdit (Text.join ['\n', '\n']
        ((pending.map (s.place slots)).filterMap Placement.endText?))]) := rfl

theorem place_cases (s : Session) (slots : List Slot) (p : Pending) :
    (∃ position anchor, s.place slots p =
      .behind ⟨position, position, gap anchor p.signature.kind ++ p.text⟩) ∨
    s.place slots p = .atStart p.text ∨ s.place slots p = .atEnd p.text := by
  rw [place]
  split
  · exact .inl ⟨_, _, rfl⟩
  · split
    · exact .inr (.inl rfl)
    · exact .inr (.inr rfl)

theorem isBlank_gap (anchor kind : MemberKind) :
    Text.isBlank (gap anchor kind) = true := by
  rw [gap]
  split <;> rfl

/-- Every new member goes behind a member, to the start of the
body or to its end. -/
theorem carry_places (imports : List Text) (s : Session) (slots : List Slot)
    (pending : List Pending) : ∃ texts,
      CarryAll imports ((pending.map (s.place slots)).filterMap Placement.edit?) texts ∧
      (texts ++ (pending.map (s.place slots)).filterMap Placement.startText? ++
        (pending.map (s.place slots)).filterMap Placement.endText?).Perm
          (pending.map (·.text)) := by
  -- one new member after the other: its text joins those for its place, past
  -- the others
  induction pending with
  | nil => exact ⟨[], .nil, .nil⟩
  | cons p rest ih =>
    obtain ⟨texts, hcarry, hperm⟩ := ih
    simp only [List.map_cons]
    rcases place_cases s slots p with ⟨position, anchor, hplace⟩ | hplace | hplace
    · have hone : Carries imports
          ⟨position, position, gap anchor p.signature.kind ++ p.text⟩
          [p.text] := by
        have h : Carries imports _ _ :=
          .inserts position (gap anchor p.signature.kind) [] []
            (List.cons_ne_nil p.text []) (isBlank_gap _ _) rfl rfl
        rwa [List.append_nil, Text.join, List.intercalate_singleton] at h
      refine ⟨p.text :: texts, ?_, ?_⟩
      · rw [List.filterMap_cons, hplace]
        exact (CarryAll.single hone).append hcarry
      · simp only [List.filterMap_cons, hplace, Placement.startText?,
          Placement.endText?]
        exact hperm.cons p.text
    · refine ⟨texts, ?_, ?_⟩
      · rw [List.filterMap_cons, hplace]
        exact hcarry
      · simp only [List.filterMap_cons, hplace, Placement.startText?,
          Placement.endText?]
        rw [List.append_assoc] at hperm ⊢
        exact List.perm_middle.trans (hperm.cons p.text)
    · refine ⟨texts, ?_, ?_⟩
      · rw [List.filterMap_cons, hplace]
        exact hcarry
      · simp only [List.filterMap_cons, hplace, Placement.startText?,
          Placement.endText?]
        exact List.perm_middle.trans (hperm.cons p.text)

theorem carries_bodyEndEdit {texts : List Text} (hne : texts ≠ []) :
    Carries imports (s.bodyEndEdit (Text.join ['\n', '\n'] texts)) texts := by
  rw [bodyEndEdit]
  dsimp only
  split
  · apply Carries.inserts _ _ _ _ hne _ rfl rfl
    split <;> rfl
  · have htail : Text.isBlank ('\n' :: s.style.indent (s.depth - 1)) = true := by
      rw [Text.isBlank_cons, Style.isBlank_indent]
      rfl
    exact .inserts (s.body.stop - 1) ['\n'] ['\n', '\n'] _ hne rfl rfl htail

theorem carry_insertionEdits :
    CarryAll imports (s.insertionEdits slots pending) (pending.map (·.text)) := by
  obtain ⟨texts, hcarry, hperm⟩ := carry_places imports s slots pending
  rw [insertionEdits_eq]
  refine CarryAll.perm (.append (.append hcarry ?_) ?_) hperm
  · split
    · next h =>
      rw [List.isEmpty_iff] at h
      rw [h]
      exact .nil
    · next h =>
      rw [List.isEmpty_iff] at h
      exact .single (.inserts (s.body.start + 1) ['\n'] ['\n'] ['\n'] h rfl rfl rfl)
  · split
    · next h =>
      rw [List.isEmpty_iff] at h
      rw [h]
      exact .nil
    · next h =>
      rw [List.isEmpty_iff] at h
      exact .single (carries_bodyEndEdit h)

end Session

end

end Graft.Merge
