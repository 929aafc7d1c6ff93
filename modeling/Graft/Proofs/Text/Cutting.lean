import Graft.Text.Basic

/-!
# Cutting texts

Where a text is cut at the beginning, at the end, at the first or at the last
occurrence of a pattern, said without the functions that cut it: a cut gives
back the two pieces that make up the text.
-/

namespace Graft.Text

/-! ## At the ends -/

theorem afterHead?_eq_some_iff {pattern t rest : Text} :
    afterHead? pattern t = some rest ↔ t = pattern ++ rest := by
  induction pattern generalizing t with
  | nil => simp [afterHead?]
  | cons p pattern ih =>
    cases t with
    | nil => simp [afterHead?]
    | cons c t =>
      rw [afterHead?]
      split
      · next h => simp [ih, eq_of_beq h]
      · next h =>
        have hne : c ≠ p := fun heq => h (by simp [heq])
        simp [hne]

theorem beforeTail?_eq_some_iff {pattern t front : Text} :
    beforeTail? pattern t = some front ↔ t = front ++ pattern := by
  rw [beforeTail?, Option.map_eq_some_iff]
  constructor
  · rintro ⟨rest, h, rfl⟩
    have := congrArg List.reverse (afterHead?_eq_some_iff.mp h)
    simpa using this
  · rintro rfl
    exact ⟨front.reverse, afterHead?_eq_some_iff.mpr (by simp), by simp⟩

theorem beforeTail?_append (front pattern : Text) :
    beforeTail? pattern (front ++ pattern) = some front :=
  beforeTail?_eq_some_iff.mpr rfl

/-- A text with another last character does not end in the pattern. -/
theorem beforeTail?_concat_of_ne {c d : Char} (h : c ≠ d) (pattern front : Text) :
    beforeTail? (pattern ++ [d]) (front ++ [c]) = none := by
  cases hcut : beforeTail? (pattern ++ [d]) (front ++ [c]) with
  | none => rfl
  | some rest =>
    have heq := beforeTail?_eq_some_iff.mp hcut
    rw [← List.append_assoc] at heq
    exact absurd (List.cons.inj (List.append_inj' heq rfl).2).1 h

/-! ## At the first occurrence -/

/-- A text contains a pattern when the pattern stands in it somewhere. -/
theorem contains_iff (pattern t : Text) :
    contains pattern t = true ↔ pattern <:+: t := by
  unfold contains
  induction t with
  | nil => cases pattern <;> simp [cutAt?]
  | cons c rest ih =>
    rw [cutAt?, List.infix_cons_iff, ← ih]
    cases h : afterHead? pattern (c :: rest) with
    | some after =>
      have hhead : pattern <+: c :: rest := ⟨after, (afterHead?_eq_some_iff.mp h).symm⟩
      simp [hhead]
    | none =>
      have hhead : ¬ pattern <+: c :: rest := by
        rintro ⟨after, heq⟩
        rw [afterHead?_eq_some_iff.mpr heq.symm] at h
        cases h
      simp [hhead]

/-- A character that stands at no earlier place cuts the text
where it stands. -/
theorem cutAt?_append {c : Char} {front : Text} (h : c ∉ front) (after : Text) :
    cutAt? [c] (front ++ c :: after) = some (front, after) := by
  induction front with
  | nil => simp [cutAt?, afterHead?]
  | cons d front ih =>
    rw [List.mem_cons, not_or] at h
    have hmiss : afterHead? [c] (d :: (front ++ c :: after)) =
        none := by simp [afterHead?, h.1]
    rw [List.cons_append, cutAt?, hmiss, ih h.2]
    rfl

theorem cutAt?_eq_none_iff {pattern t : Text} :
    cutAt? pattern t = none ↔ ¬ pattern <:+: t := by
  rw [← contains_iff, contains, Bool.not_eq_true, Option.isSome_eq_false_iff,
    Option.isNone_iff_eq_none]

theorem cutAt?_eq_none {c : Char} {t : Text} (h : c ∉ t) : cutAt? [c] t = none :=
  cutAt?_eq_none_iff.mpr fun hwithin => h (hwithin.mem List.mem_cons_self)

/-- The pieces of a cut make up the text. -/
theorem eq_of_cutAt? {pattern t front after : Text}
    (h : cutAt? pattern t = some (front, after)) :
    t = front ++ pattern ++ after := by
  induction t generalizing front with
  | nil =>
    rw [cutAt?] at h
    split at h
    · next hempty =>
      obtain ⟨rfl, rfl⟩ : [] = front ∧ [] = after := by simpa using h
      simpa using hempty
    · cases h
  | cons c rest ih =>
    rw [cutAt?] at h
    cases hhead : afterHead? pattern (c :: rest) with
    | some behind =>
      rw [hhead] at h
      obtain ⟨rfl, rfl⟩ : [] = front ∧ behind = after := by simpa using h
      exact afterHead?_eq_some_iff.mp hhead
    | none =>
      rw [hhead] at h
      obtain ⟨⟨front', after'⟩, hcut, heq⟩ := Option.map_eq_some_iff.mp h
      obtain ⟨rfl, rfl⟩ : c :: front' = front ∧ after' = after := by simpa using heq
      rw [ih hcut]
      rfl

/-- A pattern that is not complete before its last character cuts the text
where it stands. -/
theorem cutAt?_of_first {pattern front : Text} (hne : pattern ≠ [])
    (h : ¬ pattern <:+: front ++ pattern.dropLast) (after : Text) :
    cutAt? pattern (front ++ pattern ++ after) = some (front, after) := by
  have hlength : pattern.dropLast.length + 1 = pattern.length := by
    rw [List.length_dropLast, Nat.sub_add_cancel (List.length_pos_iff.mpr hne)]
  -- no occurrence begins in front of the last one, as it would have to end
  -- within it
  induction front with
  | nil =>
    have hhead : afterHead? pattern (pattern ++ after) = some after :=
      afterHead?_eq_some_iff.mpr rfl
    obtain ⟨c, rest, rfl⟩ := List.exists_cons_of_ne_nil hne
    rw [List.nil_append, List.cons_append, cutAt?, ← List.cons_append, hhead]
  | cons c front ih =>
    have hmiss : afterHead? pattern (c :: (front ++ pattern ++ after)) = none := by
      rw [← Option.not_isSome_iff_eq_none, Option.isSome_iff_exists]
      rintro ⟨behind, hhead⟩
      have hpattern : pattern <+: c :: (front ++ pattern ++ after) :=
        ⟨behind, (afterHead?_eq_some_iff.mp hhead).symm⟩
      have hstart : c :: front ++
          pattern.dropLast <+: c :: (front ++ pattern ++ after) := by
        obtain ⟨last, hlast⟩ := List.dropLast_prefix pattern
        have hparts : c :: front ++ (pattern.dropLast ++ last) ++ after =
            c :: (front ++ pattern ++ after) := by rw [hlast]; rfl
        exact ⟨last ++ after, by rw [← hparts]; simp⟩
      have hshort : pattern.length ≤ (c :: front ++ pattern.dropLast).length := by
        simp only [List.cons_append, List.length_cons, List.length_append]
        omega
      exact h (List.prefix_of_prefix_length_le hpattern hstart hshort).isInfix
    have hfront : ¬ pattern <:+: front ++ pattern.dropLast :=
      fun hwithin => h (hwithin.trans (List.suffix_cons c _).isInfix)
    rw [List.cons_append, List.cons_append, cutAt?, hmiss, ih hfront]
    rfl

/-! ## At the last occurrence -/

theorem cutAtLast?_append {c : Char} {after : Text} (h : c ∉ after) (front : Text) :
    cutAtLast? c (front ++ c :: after) = some (front, after) := by
  have hafter : ∀ x ∈ after.reverse, (x != c) = true := fun x hx => by
    rw [bne_iff_ne]
    rintro rfl
    exact h (List.mem_reverse.mp hx)
  have htail : (front ++ c :: after).reverse.takeWhile (· != c) = after.reverse := by
    rw [List.reverse_append, List.reverse_cons, List.append_assoc,
      List.takeWhile_append_of_pos hafter, List.singleton_append,
      List.takeWhile_cons_of_neg (by simp), List.append_nil]
  rw [cutAtLast?, htail, List.reverse_reverse, if_pos (by simp)]
  dsimp only
  rw [List.length_append, List.length_cons,
    show front.length + (after.length + 1) - after.length - 1 = front.length by omega,
    List.take_left]

/-- A text falls into what stands before the last occurrence of a character and
what stands behind it. -/
theorem cutAtLast?_eq_some_iff {c : Char} {t front after : Text} :
    cutAtLast? c t = some (front, after) ↔ c ∉ after ∧ t = front ++ c :: after := by
  constructor
  · intro h
    have hmem : c ∈ t.reverse := by
      rw [cutAtLast?] at h
      split at h
      · next helem => exact List.mem_reverse.mpr (List.elem_iff.mp helem)
      · cases h
    obtain ⟨w, rest, hsplit, hw⟩ := List.eq_append_cons_of_mem hmem
    obtain rfl : t = rest.reverse ++ c :: w.reverse := by
      rw [← List.reverse_reverse t, hsplit, List.reverse_append, List.reverse_cons,
        List.append_assoc, List.singleton_append]
    have hw' : c ∉ w.reverse := fun hc => hw (List.mem_reverse.mp hc)
    rw [cutAtLast?_append hw', Option.some.injEq, Prod.mk.injEq] at h
    obtain ⟨rfl, rfl⟩ := h
    exact ⟨hw', rfl⟩
  · rintro ⟨hafter, rfl⟩
    exact cutAtLast?_append hafter front

end Graft.Text
