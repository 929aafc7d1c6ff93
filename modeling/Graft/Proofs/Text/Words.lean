import Graft.Proofs.Text.Trim
import Mathlib.Data.List.Basic
import Mathlib.Data.List.TakeWhile

/-!
# Pieces and words

A text falls into the pieces between the occurrences of a character, and joined
again the pieces give the text back (`join_splitOn`, `splitOn_join`). It falls
into its words, too: what is neither blank nor cut by a blank. A text without
words is blank (`words_eq_nil_iff`), and any other begins with its first word
behind blanks, its further words being those of what follows
(`words_eq_cons_iff`).
-/

namespace Graft.Text

open Graft.Char

/-! ## Pieces -/

theorem splitOn_eq (sep : Char) (t : Text) : splitOn sep t = List.splitOn sep t := by
  unfold splitOn List.splitOn
  induction t with
  | nil => rfl
  | cons c rest ih =>
    rw [splitBy, List.splitOnP_cons_eq_if_modifyHead, ih]
    split
    · rfl
    · cases hs : List.splitOnP (· == sep) rest with
      | nil => exact absurd hs (List.splitOnP_ne_nil _ rest)
      | cons piece pieces => rfl

theorem splitOn_ne_nil (sep : Char) (t : Text) : splitOn sep t ≠ [] :=
  splitBy_ne_nil _ t

theorem join_splitOn (sep : Char) (t : Text) : join [sep] (splitOn sep t) = t := by
  rw [splitOn_eq]
  exact List.intercalate_splitOn sep

theorem splitOn_join {sep : Char} {pieces : List Text}
    (h : ∀ piece ∈ pieces, sep ∉ piece) (hne : pieces ≠ []) :
    splitOn sep (join [sep] pieces) = pieces := by
  rw [splitOn_eq]
  exact List.splitOn_intercalate sep h hne

theorem not_mem_of_mem_splitOn {sep : Char} {t piece : Text}
    (h : piece ∈ splitOn sep t) :
    sep ∉ piece := by
  unfold splitOn at h
  induction t generalizing piece with
  | nil =>
    rw [splitBy, List.mem_singleton] at h
    simp [h]
  | cons c rest ih =>
    rw [splitBy] at h
    split at h
    · rcases List.mem_cons.mp h with rfl | h
      · simp
      · exact ih h
    · next hc =>
      cases hs : splitBy (· == sep) rest with
      | nil => exact absurd hs (splitBy_ne_nil _ rest)
      | cons first pieces =>
        rw [hs] at h ih
        rcases List.mem_cons.mp h with rfl | h
        · rw [List.mem_cons, not_or]
          exact ⟨fun heq => hc (by simp [heq]), ih List.mem_cons_self⟩
        · exact ih (List.mem_cons_of_mem _ h)

/-- Pieces without the separator are those of the text that they join to. -/
theorem splitOn_eq_iff {sep : Char} {t : Text} {pieces : List Text} :
    splitOn sep t = pieces ↔
      pieces ≠ [] ∧ t = join [sep] pieces ∧ ∀ piece ∈ pieces, sep ∉ piece := by
  constructor
  · rintro rfl
    exact ⟨splitOn_ne_nil sep t, (join_splitOn sep t).symm,
      fun _ => not_mem_of_mem_splitOn⟩
  · rintro ⟨hne, rfl, hpieces⟩
    exact splitOn_join hpieces hne

theorem subset_join {sep piece : Text} {pieces : List Text} (h : piece ∈ pieces) :
    piece ⊆ join sep pieces := by
  induction pieces with
  | nil => cases h
  | cons first rest ih =>
    cases rest with
    | nil =>
      obtain rfl := List.mem_singleton.mp h
      simp [join]
    | cons second rest =>
      have hjoin : join sep (first :: second :: rest) =
          first ++ (sep ++ join sep (second :: rest)) := by simp [join]
      rw [hjoin]
      rcases List.mem_cons.mp h with rfl | hrest
      · exact List.subset_append_left _ _
      · exact fun c hc => by simp [ih hrest hc]

/-! ## Words -/

/-- A word: some characters, none of them blank. -/
structure IsWord (w : Text) : Prop where
  ne_nil : w ≠ []
  solid : ∀ c ∈ w, Char.isBlank c = false

/-- What may follow a word: nothing, or something that begins with a blank. -/
def EndsWord (t : Text) : Prop := ∀ c ∈ t.head?, Char.isBlank c = true

theorem endsWord_nil : EndsWord [] := by
  rintro c ⟨⟩

/-- Blanks that are there end a word, whatever follows them. -/
theorem endsWord_append {gap : Text} (hgap : isBlank gap = true)
    (hne : gap ≠ []) (t : Text) :
    EndsWord (gap ++ t) := by
  obtain ⟨c, rest, rfl⟩ := List.exists_cons_of_ne_nil hne
  rintro d hd
  obtain rfl : c = d := Option.some.inj hd
  exact List.all_eq_true.mp hgap c List.mem_cons_self

theorem endsWord_of_blank {t : Text} (h : isBlank t = true) : EndsWord t := by
  cases t with
  | nil => exact endsWord_nil
  | cons c rest =>
    have := endsWord_append h (List.cons_ne_nil c rest) []
    rwa [List.append_nil] at this

theorem IsWord.not_isBlank {w : Text} (h : IsWord w) : isBlank w = false := by
  obtain ⟨c, rest, rfl⟩ := List.exists_cons_of_ne_nil h.ne_nil
  rw [isBlank_cons, h.solid c List.mem_cons_self]
  rfl

@[simp] theorem words_nil : words [] = [] := rfl

theorem words_cons_blank {c : Char} (hc : Char.isBlank c = true) (t : Text) :
    words (c :: t) = words t := by
  rw [words, splitBy, if_pos hc]
  rfl

theorem words_append_blank {gap : Text} (h : isBlank gap = true) (t : Text) :
    words (gap ++ t) = words t := by
  induction gap with
  | nil => rfl
  | cons c rest ih =>
    rw [isBlank_cons, Bool.and_eq_true] at h
    rw [List.cons_append, words_cons_blank h.1]
    exact ih h.2

theorem words_of_blank {t : Text} (h : isBlank t = true) : words t = [] := by
  have := words_append_blank h []
  rwa [List.append_nil] at this

/-- A word in front of a blank, or at the end, is a piece of its own. -/
theorem splitBy_append {w rest : Text} (hsolid : ∀ c ∈ w, Char.isBlank c = false)
    (hrest : EndsWord rest) : ∃ pieces, splitBy Char.isBlank (w ++ rest) = w :: pieces ∧
      pieces.filter (fun w => !w.isEmpty) = words rest := by
  induction w with
  | nil =>
    cases rest with
    | nil => exact ⟨[], rfl, rfl⟩
    | cons c rest =>
      have hc : Char.isBlank c = true := hrest c rfl
      refine ⟨splitBy Char.isBlank rest, ?_, ?_⟩
      · rw [List.nil_append, splitBy, if_pos hc]
      · rw [words_cons_blank hc]
        rfl
  | cons c w ih =>
    obtain ⟨hc, hw⟩ := List.forall_mem_cons.mp hsolid
    obtain ⟨pieces, hpieces, hwords⟩ := ih hw
    refine ⟨pieces, ?_, hwords⟩
    rw [List.cons_append, splitBy, if_neg (by simp [hc]), hpieces]

theorem words_append {w rest : Text} (hw : IsWord w) (hrest : EndsWord rest) :
    words (w ++ rest) = w :: words rest := by
  obtain ⟨pieces, hpieces, hwords⟩ := splitBy_append hw.solid hrest
  rw [words, hpieces, List.filter_cons_of_pos (by simpa using hw.ne_nil), hwords]

/-- A text that is not blank begins with its first word behind blanks. -/
theorem exists_first_word {t : Text} (h : isBlank t = false) : ∃ gap w rest,
    t = gap ++ (w ++ rest) ∧ isBlank gap = true ∧ IsWord w ∧ EndsWord rest := by
  obtain ⟨gap, hgap, hsplit⟩ := exists_append_trimStart t
  let w := (trimStart t).takeWhile fun c => !Char.isBlank c
  let rest := (trimStart t).dropWhile fun c => !Char.isBlank c
  have hne : trimStart t ≠ [] := by
    intro hnil
    rw [(trimStart_eq_nil_iff t).mp hnil] at h
    cases h
  have hword : IsWord w := by
    obtain ⟨c, more, hmore⟩ := List.exists_cons_of_ne_nil hne
    refine ⟨?_, fun c hc => by simpa using List.mem_takeWhile_imp hc⟩
    show (trimStart t).takeWhile _ ≠ []
    rw [hmore, List.takeWhile_cons_of_pos (by simp [head_trimStart hmore])]
    exact List.cons_ne_nil _ _
  have hends : EndsWord rest := by
    intro c hc
    have hstop := List.head?_dropWhile_not (fun c => !Char.isBlank c) (trimStart t)
    rw [show ((trimStart t).dropWhile fun c => !Char.isBlank c).head? =
      some c from hc] at hstop
    simpa using hstop
  refine ⟨gap, w, rest, ?_, hgap, hword, hends⟩
  rw [List.takeWhile_append_dropWhile]
  exact hsplit

theorem words_eq_nil_iff (t : Text) : words t = [] ↔ isBlank t = true := by
  constructor
  · intro h
    by_contra hblank
    rw [Bool.not_eq_true] at hblank
    obtain ⟨gap, w, rest, rfl, hgap, hw, hrest⟩ := exists_first_word hblank
    rw [words_append_blank hgap, words_append hw hrest] at h
    cases h
  · exact words_of_blank

theorem words_eq_cons_iff {t w : Text} {ws : List Text} : words t = w :: ws ↔
    ∃ gap rest, t = gap ++ (w ++ rest) ∧ isBlank gap = true ∧ IsWord w ∧ EndsWord rest ∧
      words rest = ws := by
  constructor
  · intro h
    have hblank : isBlank t = false := by
      rw [← Bool.not_eq_true, ← words_eq_nil_iff, h]
      exact List.cons_ne_nil w ws
    obtain ⟨gap, w', rest, rfl, hgap, hw, hrest⟩ := exists_first_word hblank
    rw [words_append_blank hgap, words_append hw hrest] at h
    obtain ⟨rfl, rfl⟩ := List.cons.inj h
    exact ⟨gap, rest, rfl, hgap, hw, hrest, rfl⟩
  · rintro ⟨gap, rest, rfl, hgap, hw, hrest, rfl⟩
    rw [words_append_blank hgap, words_append hw hrest]

theorem IsWord.first {w : Text} (h : IsWord w) :
    ∀ c ∈ w.head?, Char.isBlank c = false :=
  fun c hc => h.solid c (List.mem_of_mem_head? hc)

/-- What is solid stands behind a word with blanks in between. -/
theorem EndsWord.gap_ne_nil {gap t rest : Text} (h : EndsWord (gap ++ (t ++ rest)))
    (hne : t ≠ []) (hfirst : ∀ c ∈ t.head?, Char.isBlank c = false) : gap ≠ [] := by
  rintro rfl
  obtain ⟨c, more, rfl⟩ := List.exists_cons_of_ne_nil hne
  have hc := h c rfl
  rw [hfirst c rfl] at hc
  cases hc

/-! ## Trimmed texts -/

/-- A text that neither begins nor ends with a blank. -/
structure IsTrimmed (t : Text) : Prop where
  first : ∀ c ∈ t.head?, Char.isBlank c = false
  last : ∀ c ∈ t.getLast?, Char.isBlank c = false

theorem IsTrimmed.trim_eq {t : Text} (h : IsTrimmed t) : trim t = t := by
  rcases List.eq_nil_or_concat t with rfl | ⟨front, d, ht⟩
  · rfl
  · rw [List.concat_eq_append] at ht
    subst ht
    have hd : Char.isBlank d = false := h.last d (by simp)
    have hstart : trimStart (front ++ [d]) = front ++ [d] := by
      obtain ⟨c, rest, heq⟩ := List.exists_cons_of_ne_nil
        (List.append_ne_nil_of_right_ne_nil front (List.cons_ne_nil d []))
      rw [heq]
      exact trimStart_of_solid (h.first c (by rw [heq]; rfl))
    rw [trim, hstart, trimEnd_concat_of_solid hd]

/-- From a word to a trimmed text, whatever is in between. -/
theorem IsTrimmed.behind_word {w t : Text} (ht : IsTrimmed t) (hne : t ≠ [])
    (hw : IsWord w) (between : Text) : IsTrimmed (w ++ (between ++ t)) := by
  constructor
  · intro c hc
    obtain ⟨d, rest, rfl⟩ := List.exists_cons_of_ne_nil hw.ne_nil
    exact hw.first c hc
  · intro c hc
    rw [← List.append_assoc, List.getLast?_append_of_ne_nil _ hne] at hc
    exact ht.last c hc

theorem isTrimmed_trim (t : Text) : IsTrimmed (trim t) := by
  constructor
  · intro c hc
    obtain ⟨rest, hrest⟩ := List.head?_eq_some_iff.mp hc
    exact head_trimStart ((trimStart_trim t).trans hrest)
  · intro c hc
    rw [trim, trimEnd, List.getLast?_reverse] at hc
    obtain ⟨rest, hrest⟩ := List.head?_eq_some_iff.mp hc
    exact head_trimStart hrest

end Graft.Text
