import Graft.Code.Lines
import Graft.Proofs.Text.Slice

/-!
# What the lines around a piece take with them

A piece that is widened to its lines, and to the blank line above them, is
widened by blanks only.
-/

namespace Graft

namespace Text

theorem lastLine_suffix (t : Text) : lastLine t <:+ t := by
  have h := List.takeWhile_prefix (l := t.reverse) (· != '\n')
  simpa [lastLine] using List.reverse_suffix.mpr h

theorem firstLine_isPrefix (t : Text) : firstLine t <+: t := by
  induction t with
  | nil => simp [firstLine]
  | cons c rest ih =>
    simp only [firstLine]
    split
    · simp
    · exact (List.prefix_cons_inj c).mpr ih

/-- A suffix of what stands before a position is the slice in front of it. -/
theorem slice_of_suffix {t line : Text} {position : Nat} (hpos : position ≤ t.length)
    (h : line <:+ t.take position) :
    t.slice (position - line.length) position = line := by
  have hlen : (t.take position).length = position := by
    rw [List.length_take, Nat.min_eq_left hpos]
  have := List.suffix_iff_eq_drop.mp h
  rw [hlen] at this
  exact this.symm

/-- A prefix of what stands behind a position is the slice behind it. -/
theorem slice_of_isPrefix {t line : Text} {position : Nat}
    (h : line <+: t.drop position) :
    t.slice position (position + line.length) = line := by
  have := List.prefix_iff_eq_take.mp h
  rw [slice, List.drop_take, Nat.add_sub_cancel_left]
  exact this.symm

/-- The first line is the whole text, or it ends with the first line break. -/
theorem firstLine_cases (t : Text) :
    firstLine t = t ∨ ∃ a b, t = a ++ '\n' :: b ∧ '\n' ∉ a ∧
    firstLine t = a ++ ['\n'] := by
  induction t with
  | nil => exact .inl rfl
  | cons c rest ih =>
    rw [firstLine]
    by_cases hc : c = '\n'
    · subst hc
      exact .inr ⟨[], rest, rfl, List.not_mem_nil, rfl⟩
    · rw [if_neg (by simpa using hc)]
      rcases ih with h | ⟨a, b, hrest, ha, hline⟩
      · exact .inl (by rw [h])
      · refine .inr ⟨c :: a, b, by rw [hrest]; rfl, ?_, by rw [hline]; rfl⟩
        exact List.not_mem_cons_of_ne_of_not_mem (Ne.symm hc) ha

/-- What is left behind the characters up to a line break begins with
the line break. -/
theorem dropWhile_of_break (t : Text) :
    t.dropWhile (· != '\n') = [] ∨ ∃ rest, t.dropWhile (· != '\n') = '\n' :: rest := by
  induction t with
  | nil => exact .inl rfl
  | cons c rest ih =>
    by_cases hc : c = '\n'
    · subst hc
      exact .inr ⟨rest, rfl⟩
    · rw [List.dropWhile_cons_of_pos (by simpa using hc)]
      exact ih

end Text

namespace Code

open Text

/-- A line starts at a position. -/
def StartsLine (source : Text) (position : Nat) : Prop :=
  position = 0 ∨ source[position - 1]? = some '\n'

/-- A position behind a line break, or with nothing in front of
it, starts a line. -/
theorem startsLine_of_reverse {source front back : Text} {position : Nat}
    (h : (source.take position).reverse = front ++ back)
    (hback : back = [] ∨ ∃ rest, back = '\n' :: rest)
    (hposition : position ≤ source.length) :
    StartsLine source (position - front.length) := by
  have hlen : (source.take position).length = position := by
    rw [List.length_take, Nat.min_eq_left hposition]
  have htake : source.take position = back.reverse ++ front.reverse := by
    rw [← List.reverse_append, ← h, List.reverse_reverse]
  have hstart : position - front.length = back.length := by
    rw [← hlen, htake, List.length_append, List.length_reverse, List.length_reverse,
      Nat.add_sub_cancel]
  rw [hstart, StartsLine]
  rcases hback with rfl | ⟨rest, rfl⟩
  · exact .inl rfl
  · right
    have hget : (source.take position)[rest.length]? = some '\n' := by
      rw [htake, List.reverse_cons, List.append_assoc,
        List.getElem?_append_right (by simp)]
      simp
    rw [List.getElem?_take] at hget
    split at hget
    · exact hget
    · cases hget

theorem lineStart_starts {source : Text} {position : Nat}
    (h : position ≤ source.length) :
    StartsLine source (lineStart source position) := by
  have hsplit := List.takeWhile_append_dropWhile (p := (· != '\n'))
    (l := (source.take position).reverse)
  rw [lineStart, lastLine, List.length_reverse]
  exact startsLine_of_reverse hsplit.symm (dropWhile_of_break _) h

/-- One range holds another, and there are only blanks between their ends. -/
structure WidensByBlanks (source : Text) (start stop start' stop' : Nat) : Prop where
  starts : start' ≤ start
  stops : stop ≤ stop'
  inText : stop' ≤ source.length
  before : Text.isBlank (source.slice start' start) = true
  after : Text.isBlank (source.slice stop stop') = true

theorem WidensByBlanks.trans_before {source : Text}
    {start stop start' stop' start'' : Nat}
    (h : WidensByBlanks source start stop start' stop') (hle : start'' ≤ start')
    (hblank : Text.isBlank (source.slice start'' start') = true) :
    WidensByBlanks source start stop start'' stop' where
  starts := Nat.le_trans hle h.starts
  stops := h.stops
  inText := h.inText
  before := by
    rw [← slice_append_slice source hle h.starts, Text.isBlank, List.all_append]
    simp only [Bool.and_eq_true]
    exact ⟨hblank, h.before⟩
  after := h.after

theorem wholeLines_widens {source : Text} {start stop : Nat} (hle : start ≤ stop)
    (hstop : stop ≤ source.length) :
    WidensByBlanks source start stop (wholeLines source start stop).1
      (wholeLines source start stop).2 := by
  have hbefore := lastLine_suffix (source.take start)
  have hafter := firstLine_isPrefix (source.drop stop)
  have hlen : (firstLine (source.drop stop)).length ≤ source.length - stop := by
    have := hafter.length_le
    rwa [List.length_drop] at this
  simp only [wholeLines]
  constructor
  · split <;> omega
  · split <;> omega
  · split <;> omega
  · split
    · next h =>
      rw [slice_of_suffix (Nat.le_trans hle hstop) hbefore]
      exact h
    · simp [Text.isBlank]
  · split
    · next h =>
      rw [slice_of_isPrefix hafter]
      exact h
    · simp [Text.isBlank]

/-- The blank line above a position is blank up to the position, its line
break included. -/
theorem blankLineBefore?_spec {source : Text} {position start : Nat}
    (h : blankLineBefore? source position = some start) :
    start ≤ position ∧ Text.isBlank (source.slice start position) = true := by
  simp only [blankLineBefore?] at h
  split at h
  · cases h
  · next hlen =>
    split at h
    · next above habove =>
      split at h
      · next hblank =>
        obtain rfl : position - 1 - (above.takeWhile (· != '\n')).length = start := by
          simpa using h
        refine ⟨by omega, ?_⟩
        have hsuffix : (above.takeWhile (· != '\n')).reverse ++
            ['\n'] <:+ source.take position := by
          have hp : '\n' :: above.takeWhile (· != '\n') <+:
              (source.take position).reverse := by
            rw [habove]
            exact (List.prefix_cons_inj _).mpr (List.takeWhile_prefix _)
          simpa using List.reverse_suffix.mpr hp
        have hslice := slice_of_suffix (Nat.le_of_not_lt hlen) hsuffix
        simp only [List.length_append, List.length_reverse,
          List.length_singleton] at hslice
        rw [Nat.sub_sub, Nat.add_comm 1, hslice]
        simp only [Text.isBlank, List.all_append, List.all_reverse, Bool.and_eq_true]
        exact ⟨hblank, by decide⟩
      · cases h
    · cases h

/-- What is widened to its lines starts as before or at the start of a line. -/
theorem wholeLines_start {source : Text} {start : Nat} (h : start ≤ source.length)
    (stop : Nat) :
    (wholeLines source start stop).1 = start ∨
      StartsLine source (wholeLines source start stop).1 := by
  simp only [wholeLines]
  split
  · exact .inr (lineStart_starts h)
  · exact .inl rfl

/-- What is widened to its lines stops as before, or behind the next line break,
or with the text. -/
theorem wholeLines_stop (source : Text) (start : Nat) {stop : Nat}
    (h : stop ≤ source.length) :
    (wholeLines source start stop).2 = stop ∨
      (wholeLines source start stop).2 = source.length ∨
      ∀ p, stop ≤ p → p + 1 < (wholeLines source start stop).2 →
        source[p]? ≠ some '\n' := by
  simp only [wholeLines]
  split
  · right
    rcases firstLine_cases (source.drop stop) with hline | ⟨a, b, hdrop, ha, hline⟩
    · left
      rw [hline, List.length_drop, Nat.add_sub_cancel' h]
    · right
      intro p hp hlt hbreak
      rw [hline, List.length_append, List.length_singleton] at hlt
      apply ha
      have hget : (source.drop stop)[p - stop]? = some '\n' := by
        rw [List.getElem?_drop, Nat.add_sub_cancel' hp]
        exact hbreak
      rw [hdrop, List.getElem?_append_left (by omega)] at hget
      exact List.mem_of_getElem? hget
  · exact .inl rfl

/-- The blank line above a position starts a line. -/
theorem blankLineBefore?_starts {source : Text} {position start : Nat}
    (h : blankLineBefore? source position = some start) : StartsLine source start := by
  simp only [blankLineBefore?] at h
  split at h
  · cases h
  · next hlen =>
    split at h
    · next above habove =>
      split at h
      · obtain rfl : position - 1 - (above.takeWhile (· != '\n')).length = start := by
          simpa using h
        have hsplit : (source.take position).reverse =
            ('\n' :: above.takeWhile (· != '\n')) ++ above.dropWhile (· != '\n') := by
          rw [habove, List.cons_append, List.takeWhile_append_dropWhile]
        have hstarts := startsLine_of_reverse hsplit (dropWhile_of_break above)
          (Nat.le_of_not_lt hlen)
        rwa [List.length_cons, Nat.add_comm, ← Nat.sub_sub] at hstarts
      · cases h
    · cases h

end Code

end Graft
