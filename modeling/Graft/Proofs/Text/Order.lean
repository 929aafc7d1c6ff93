import Graft.Text.Order
import Mathlib.Data.Char
import Mathlib.Data.List.Lex
import Mathlib.Data.List.Sort

/-!
# Sorted names

Sorting puts the members of a list into the order of texts, each of them once.
What comes out is settled by which members there are: how often a list has them,
and in which order, does not show (`sortDistinct_congr`).
-/

namespace Graft.Text

/-- The order of texts is that of lists of characters. -/
theorem before_iff {t u : Text} : before t u = true ↔ t < u := by
  induction t generalizing u with
  | nil => cases u <;> simp [before]
  | cons a as ih =>
    cases u with
    | nil => simp [before]
    | cons b bs =>
      rw [before, List.cons_lt_cons_iff, ← ih]
      by_cases hab : a = b
      · simp [hab]
      · have hlt : a.toNat < b.toNat ↔ a < b := UInt32.lt_iff_toNat_lt.symm
        simp [hab, hlt]

theorem pairwise_insertDistinct (t : Text) {ts : List Text} (h : ts.Pairwise (· < ·)) :
    (insertDistinct t ts).Pairwise (· < ·) := by
  induction ts with
  | nil => simp [insertDistinct]
  | cons u rest ih =>
    obtain ⟨hbehind, hrest⟩ := List.pairwise_cons.mp h
    rw [insertDistinct]
    by_cases hsame : t = u
    · rwa [if_pos (beq_iff_eq.mpr hsame)]
    · rw [if_neg (by simpa using hsame)]
      by_cases hbefore : t < u
      · rw [if_pos (before_iff.mpr hbefore)]
        refine List.pairwise_cons.mpr ⟨?_, h⟩
        intro v hv
        rcases List.mem_cons.mp hv with rfl | hv
        · exact hbefore
        · exact hbefore.trans (hbehind v hv)
      · rw [if_neg (mt before_iff.mp hbefore)]
        refine List.pairwise_cons.mpr ⟨?_, ih hrest⟩
        intro v hv
        rcases (mem_insertDistinct t v rest).mp hv with rfl | hv
        · exact lt_of_le_of_ne (not_lt.mp hbefore) (Ne.symm hsame)
        · exact hbehind v hv

theorem pairwise_sortDistinct (ts : List Text) :
    (sortDistinct ts).Pairwise (· < ·) := by
  induction ts with
  | nil => exact .nil
  | cons t rest ih => exact pairwise_insertDistinct t ih

/-- **Sorting forgets** how often a name is there and at which places. -/
theorem sortDistinct_congr {ts us : List Text} (h : ∀ u, u ∈ ts ↔ u ∈ us) :
    sortDistinct ts = sortDistinct us := by
  apply (pairwise_sortDistinct ts).eq_of_mem_iff (pairwise_sortDistinct us)
  intro u
  rw [mem_sortDistinct, mem_sortDistinct, h]

end Graft.Text
