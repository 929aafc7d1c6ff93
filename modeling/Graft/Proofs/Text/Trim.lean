import Graft.Text.Class

/-!
# Trimming

What trimming takes away is blank, and blanks around a text do not show
in the trimmed text.
-/

namespace Graft.Text

open Graft.Char

@[simp] theorem isBlank_nil : isBlank [] = true := rfl

@[simp] theorem isBlank_cons (c : Char) (t : Text) :
    isBlank (c :: t) = (Char.isBlank c && isBlank t) := rfl

@[simp] theorem isBlank_append (s t : Text) :
    isBlank (s ++ t) = (isBlank s && isBlank t) :=
  List.all_append

@[simp] theorem isBlank_reverse (t : Text) : isBlank t.reverse = isBlank t :=
  List.all_reverse

theorem isBlank_takeWhile (t : Text) : isBlank (t.takeWhile Char.isBlank) = true :=
  List.all_takeWhile

/-- A text is a blank piece followed by its trimmed form. -/
theorem exists_append_trimStart (t : Text) :
    ∃ a, isBlank a = true ∧ t = a ++ trimStart t :=
  ⟨t.takeWhile Char.isBlank, isBlank_takeWhile t,
    (List.takeWhile_append_dropWhile).symm⟩

theorem exists_trimEnd_append (t : Text) :
    ∃ b, isBlank b = true ∧ t = trimEnd t ++ b := by
  obtain ⟨a, ha, heq⟩ := exists_append_trimStart t.reverse
  refine ⟨a.reverse, by rw [isBlank_reverse, ha], ?_⟩
  have := congrArg List.reverse heq
  rwa [List.reverse_reverse, List.reverse_append] at this

/-- A text is its trimmed form between two blank pieces. -/
theorem exists_trim (t : Text) : ∃ a b, isBlank a = true ∧ isBlank b = true ∧
    t = a ++ trim t ++ b := by
  obtain ⟨a, ha, hstart⟩ := exists_append_trimStart t
  obtain ⟨b, hb, hend⟩ := exists_trimEnd_append (trimStart t)
  refine ⟨a, b, ha, hb, ?_⟩
  rw [trim, List.append_assoc, ← hend, ← hstart]

theorem trimStart_append_of_blank {a : Text} (ha : isBlank a = true) (t : Text) :
    trimStart (a ++ t) = trimStart t := by
  induction a with
  | nil => rfl
  | cons c rest ih =>
    rw [isBlank_cons, Bool.and_eq_true] at ha
    rw [List.cons_append, trimStart, List.dropWhile_cons_of_pos ha.1]
    exact ih ha.2

theorem trimEnd_append_of_blank {b : Text} (hb : isBlank b = true) (t : Text) :
    trimEnd (t ++ b) = trimEnd t := by
  have :=
    trimStart_append_of_blank (a := b.reverse) (by rw [isBlank_reverse, hb]) t.reverse
  rw [trimEnd, trimEnd, List.reverse_append]
  exact congrArg List.reverse this

theorem trimStart_of_solid {c : Char} {t : Text} (hc : Char.isBlank c = false) :
    trimStart (c :: t) = c :: t := by
  rw [trimStart, List.dropWhile_cons_of_neg (by rw [hc]; decide)]

/-- What follows a text that is not blank does not change the blanks
in front of it. -/
theorem trimStart_append {t : Text} (h : trimStart t ≠ []) (u : Text) :
    trimStart (t ++ u) = trimStart t ++ u := by
  rw [trimStart] at h
  rw [trimStart, trimStart, List.dropWhile_append, if_neg (by rwa [List.isEmpty_iff])]

theorem trimStart_eq_nil_iff (t : Text) : trimStart t = [] ↔ isBlank t = true := by
  induction t with
  | nil => simp [trimStart]
  | cons c rest ih =>
    by_cases hc : Char.isBlank c = true
    · rw [trimStart, List.dropWhile_cons_of_pos hc, isBlank_cons, hc, Bool.true_and]
      exact ih
    · rw [Bool.not_eq_true] at hc
      rw [trimStart_of_solid hc, isBlank_cons, hc]
      simp

/-- What is left of a text begins with a character that is not blank. -/
theorem head_trimStart {c : Char} {t rest : Text} (h : trimStart t = c :: rest) :
    Char.isBlank c = false := by
  induction t with
  | nil => cases h
  | cons d t ih =>
    by_cases hd : Char.isBlank d = true
    · rw [trimStart, List.dropWhile_cons_of_pos hd] at h
      exact ih h
    · rw [Bool.not_eq_true] at hd
      rw [trimStart_of_solid hd] at h
      cases h
      exact hd

@[simp] theorem trimStart_trimStart (t : Text) :
    trimStart (trimStart t) = trimStart t := by
  cases h : trimStart t with
  | nil => rfl
  | cons c rest => exact trimStart_of_solid (head_trimStart h)

@[simp] theorem trimEnd_trimEnd (t : Text) : trimEnd (trimEnd t) = trimEnd t := by
  rw [trimEnd, trimEnd, List.reverse_reverse]
  exact congrArg List.reverse (trimStart_trimStart t.reverse)

/-- Blanks in front of a solid character are trimmed only as far as nothing else
is before it. -/
theorem trimStart_append_solid {c : Char} (hc : Char.isBlank c = false) (x y : Text) :
    trimStart (x ++ c :: y) = trimStart x ++ c :: y := by
  by_cases hx : trimStart x = []
  · rw [trimStart_append_of_blank ((trimStart_eq_nil_iff x).mp hx),
      trimStart_of_solid hc, hx]
    rfl
  · exact trimStart_append hx _

/-- Trimming the end of a text leaves all up to its last solid character. -/
theorem trimEnd_append_solid {c : Char} (hc : Char.isBlank c = false) (x y : Text) :
    trimEnd (x ++ c :: y) = x ++ c :: trimEnd y := by
  have hback := trimStart_append_solid hc y.reverse x.reverse
  have hreverse : (x ++ c :: y).reverse = y.reverse ++ c :: x.reverse := by simp
  rw [trimEnd, hreverse, ← trimStart, hback]
  simp [trimEnd, trimStart]

theorem trimEnd_cons_of_solid {c : Char} {t : Text} (hc : Char.isBlank c = false) :
    trimEnd (c :: t) = c :: trimEnd t := trimEnd_append_solid hc [] t

theorem trimEnd_concat_of_solid {c : Char} (hc : Char.isBlank c = false) (t : Text) :
    trimEnd (t ++ [c]) = t ++ [c] := trimEnd_append_solid hc t []

theorem trimStart_trim (t : Text) : trimStart (trim t) = trim t := by
  cases h : trimStart t with
  | nil =>
    rw [trim, h]
    rfl
  | cons c rest =>
    have hc := head_trimStart h
    rw [trim, h, trimEnd_cons_of_solid hc, trimStart_of_solid hc]

theorem trim_eq_nil_iff (t : Text) : trim t = [] ↔ isBlank t = true := by
  constructor
  · intro h
    obtain ⟨a, b, ha, hb, heq⟩ := exists_trim t
    rw [heq, h, List.append_nil, isBlank_append, ha, hb]
    rfl
  · intro h
    rw [trim, (trimStart_eq_nil_iff t).mpr h]
    rfl

@[simp] theorem trim_trim (t : Text) : trim (trim t) = trim t := by
  rw [trim, trimStart_trim, trim, trimEnd_trimEnd]

@[simp] theorem trim_append_left {a : Text} (ha : isBlank a = true) (t : Text) :
    trim (a ++ t) = trim t := by
  rw [trim, trimStart_append_of_blank ha, trim]

theorem trim_append_right {b : Text} (hb : isBlank b = true) (t : Text) :
    trim (t ++ b) = trim t := by
  by_cases ht : isBlank t = true
  · have hnil : trim t = [] := by rw [trim, (trimStart_eq_nil_iff t).mpr ht]; rfl
    rw [trim_append_left ht, hnil, trim, (trimStart_eq_nil_iff b).mpr hb]
    rfl
  · have hne : trimStart t ≠ [] := fun h => ht ((trimStart_eq_nil_iff t).mp h)
    rw [trim, trimStart_append hne, trimEnd_append_of_blank hb, trim]

theorem compact_append (t u : Text) : compact (t ++ u) = compact t ++ compact u :=
  List.filter_append _ _

theorem compact_of_blank {t : Text} (h : isBlank t = true) : compact t = [] := by
  rw [compact, List.filter_eq_nil_iff]
  intro c hc
  simpa using List.all_eq_true.mp h c hc

theorem compact_trim (t : Text) : compact (trim t) = compact t := by
  obtain ⟨a, b, ha, hb, heq⟩ := exists_trim t
  have hends : compact (a ++ trim t ++ b) = compact (trim t) := by
    rw [compact_append, compact_append, compact_of_blank ha, compact_of_blank hb,
      List.nil_append, List.append_nil]
  rw [← hends, ← heq]

end Graft.Text
