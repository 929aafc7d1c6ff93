import Graft.Proofs.Code.Relayout

/-!
# Boundaries

A text ends at a boundary when its reader stands outside literals and comments
there and has no slash in hand. Boundaries are exactly the places where code can
be cut without changing what is significant in it (`atBoundary_iff_append`), so
that blanks and whole comments can be put there at will
(`normalize_across_filler`).
-/

namespace Graft.Code

namespace Mode

/-- Whether the mode is inside a comment. -/
def inComment : Mode → Bool
  | .lineComment => true
  | .blockComment _ => true
  | _ => false

/-- A slash is in hand behind a slash that is read as code, and nowhere else. -/
theorem next_eq_slash_iff (m : Mode) (c : Char) :
    m.next c = .slash ↔ c = '/' ∧ m.readsCode c = true := by
  have hcode : nextOfCode c = .slash ↔ c = '/' := by
    rw [nextOfCode]
    split
    · next hquote =>
      rcases hquote with rfl | rfl <;> decide
    · split
      · next hslash => exact iff_of_true rfl hslash
      · next hslash => exact iff_of_false (by simp) hslash
  -- a slash is held back in code, and behind a slash that opened nothing
  cases m with
  | code => simp [next, readsCode, hcode]
  | slash =>
    by_cases hslash : c = '/'
    · simp [next, readsCode, hslash]
    · by_cases hstar : c = '*'
      · simp [next, readsCode, hstar]
      · simp [next, hslash, hstar, hcode]
  | lineComment =>
    rw [next]
    split <;> simp [readsCode]
  | blockComment star =>
    rw [next]
    split <;> simp [readsCode]
  | literal quote escaped =>
    rw [next]
    repeat' split
    all_goals simp [readsCode]

theorem after_eq_slash_iff (t : Text) :
    Mode.code.after t = .slash ↔
      ∃ front, t = front ++ ['/'] ∧ (Mode.code.after front).readsCode '/' = true := by
  rcases List.eq_nil_or_concat t with rfl | ⟨front, c, rfl⟩
  · simp
  · rw [List.concat_eq_append, after_append, after_cons, after_nil, next_eq_slash_iff]
    constructor
    · rintro ⟨rfl, hreads⟩
      exact ⟨front, rfl, hreads⟩
    · rintro ⟨front', heq, hreads⟩
      obtain ⟨rfl, hc⟩ := List.append_inj' heq rfl
      obtain rfl : c = '/' := by simpa using hc
      exact ⟨rfl, hreads⟩

end Mode

/-- A text ends outside literals and comments, and not with a slash that
is read as code. -/
structure AtBoundary (t : Text) : Prop where
  outsideLiteral : (Mode.code.after t).inLiteral = false
  outsideComment : (Mode.code.after t).inComment = false
  noSlash : ∀ front, t = front ++ ['/'] → (Mode.code.after front).readsCode '/' = false

theorem atBoundary_iff (t : Text) : AtBoundary t ↔ Mode.code.after t = .code := by
  constructor
  · intro h
    have hliteral := h.outsideLiteral
    have hcomment := h.outsideComment
    cases hmode : Mode.code.after t with
    | code => rfl
    | slash =>
      obtain ⟨front, heq, hreads⟩ := (Mode.after_eq_slash_iff t).mp hmode
      rw [h.noSlash front heq] at hreads
      cases hreads
    | lineComment =>
      rw [hmode] at hcomment
      cases hcomment
    | blockComment star =>
      rw [hmode] at hcomment
      cases hcomment
    | literal quote escaped =>
      rw [hmode] at hliteral
      cases hliteral
  · intro h
    refine ⟨by rw [h]; rfl, by rw [h]; rfl, fun front heq => ?_⟩
    rw [← Bool.not_eq_true]
    intro hreads
    rw [(Mode.after_eq_slash_iff t).mpr ⟨front, heq, hreads⟩] at h
    cases h

instance (t : Text) : Decidable (AtBoundary t) :=
  decidable_of_iff _ (atBoundary_iff t).symm

namespace AtBoundary

variable {t : Text} (h : AtBoundary t)

include h

theorem normalize_eq : normalize t = Mode.code.emitted t := by
  rw [normalize, Mode.significant_eq, (atBoundary_iff t).mp h]
  exact List.append_nil _

/-- Behind a boundary, reading starts anew. -/
theorem normalize_append (s : Text) :
    normalize (t ++ s) = normalize t ++ normalize s := by
  rw [h.normalize_eq, normalize, Mode.significant_append, (atBoundary_iff t).mp h]
  rfl

/-- Blanks and whole comments can be left out. -/
theorem normalize_filler {w : Text} (filler : Filler w) (s : Text) :
    normalize (t ++ w ++ s) = normalize (t ++ s) := by
  have hfiller : normalize (w ++ s) = normalize s := filler.significant_append s
  rw [List.append_assoc, h.normalize_append, hfiller, h.normalize_append]

end AtBoundary

/-- **Boundaries are the places to cut at.** The normalized code of any text
that follows can be had apart exactly behind a boundary. -/
theorem atBoundary_iff_append (t : Text) :
    AtBoundary t ↔ ∀ s, normalize (t ++ s) = normalize t ++ normalize s := by
  refine ⟨fun h s => h.normalize_append s, fun h => (atBoundary_iff t).mpr ?_⟩
  have hrest : ∀ s, (Mode.code.after t).significant s =
      (Mode.code.after t).close ++ Mode.code.significant s := by
    intro s
    have hs := h s
    unfold normalize at hs
    rw [Mode.significant_append, Mode.significant_eq Mode.code t,
      List.append_assoc] at hs
    exact List.append_cancel_left hs
  -- each other mode betrays itself on a text of one character
  cases hmode : Mode.code.after t with
  | code => rfl
  | slash =>
    rw [hmode] at hrest
    exact absurd (hrest ['*']) (by decide)
  | lineComment =>
    rw [hmode] at hrest
    exact absurd (hrest ['a']) (by decide)
  | blockComment star =>
    rw [hmode] at hrest
    exact absurd (hrest ['a']) (by cases star <;> decide)
  | literal quote escaped =>
    rw [hmode] at hrest
    have hnothing : (Mode.literal quote escaped).significant [' '] = [] := hrest [' ']
    rw [Mode.significant] at hnothing
    cases hnothing

/-- **Layout at a boundary does not matter.** Code is normalized in two parts
there, and blanks and whole comments between the parts change neither the
normalized code nor its hash nor any comparison. -/
theorem normalize_across_filler {p w : Text} (boundary : AtBoundary p)
    (filler : Filler w) (s : Text) :
    normalize (p ++ s) = normalize p ++ normalize s ∧
    normalize (p ++ w ++ s) = normalize (p ++ s) ∧
    structuralHash (p ++ w ++ s) = structuralHash (p ++ s) ∧
    ∀ t, sameStructure (p ++ w ++ s) t = sameStructure (p ++ s) t ∧
      sameStructure t (p ++ w ++ s) = sameStructure t (p ++ s) := by
  have hsame := boundary.normalize_filler filler s
  refine ⟨boundary.normalize_append s, hsame, ?_, fun t => ?_⟩
  · rw [structuralHash, structuralHash, hsame]
  · rw [sameStructure, sameStructure, sameStructure, sameStructure, hsame]
    exact ⟨rfl, rfl⟩

/-- Signs of comments in a literal, quotes in comments, and a comment that
begins with a slash. -/
theorem normalize_across_filler_sample :
    AtBoundary "c = '/'; s = \"/* \\\" */\";" ∧ Filler " /*/ \" */\t// it's\n" ∧
    normalize ("c = '/'; s = \"/* \\\" */\";" ++ " /*/ \" */\t// it's\n" ++ "/ 2") =
      "c='/';s=\"/* \\\" */\";/2".toList := by
  have boundary : AtBoundary "c = '/'; s = \"/* \\\" */\";" := by decide +kernel
  have line : Filler "\t// it's\n".toList :=
    .blank (by decide) (@Filler.lineComment " it's" [] (by decide) .nil)
  have filler : Filler " /*/ \" */\t// it's\n" :=
    .blank (by decide) (@Filler.blockComment "/ \" " _ (by decide) line)
  obtain ⟨-, hsame, -, -⟩ := normalize_across_filler boundary filler "/ 2"
  exact ⟨boundary, filler, hsame.trans (by decide +kernel)⟩

end Graft.Code
