import Graft.Proofs.Code.Edits

/-!
# Edits that stand apart

Edits are applied in the order of their ranks: by start, insertions first. When
any two of them stand apart, each one starts behind the stop of the one before,
so that all of them can be applied (`render_of_apart`).
-/

namespace Graft.Code

namespace Edit

/-- Two edits touch at most: one of them stops where, or before,
the other starts. -/
def IsApart (a b : Edit) : Prop := a.stop ≤ b.start ∨ b.stop ≤ a.start

theorem IsApart.symm {a b : Edit} (h : a.IsApart b) : b.IsApart a := Or.symm h

/-- Edits that stand apart do so as they are recorded. -/
theorem IsApart.clampTo {a b : Edit} (h : a.IsApart b) (ha : a.start ≤ a.stop)
    (hb : b.start ≤ b.stop) (length : Nat) :
    (a.clampTo length).IsApart (b.clampTo length) := by
  unfold IsApart Edit.clampTo at *
  dsimp only
  omega

/-- The place of an edit in the order of application. -/
def rank (e : Edit) : Nat := if e.isInsertion then 2 * e.start else 2 * e.start + 1

theorem goesBefore_iff (a b : Edit) : a.goesBefore b = true ↔ a.rank < b.rank := by
  simp only [goesBefore, rank, Bool.or_eq_true, Bool.and_eq_true, decide_eq_true_iff,
    beq_iff_eq, Bool.not_eq_true']
  cases ha : a.isInsertion <;> cases hb : b.isInsertion <;> simp <;> omega

/-! ## The order of application -/

theorem place_perm (e : Edit) (edits : List Edit) :
    (place e edits).Perm (e :: edits) := by
  induction edits with
  | nil => exact .refl _
  | cons f rest ih =>
    rw [place]
    split
    · exact .refl _
    · exact (ih.cons f).trans (.swap e f rest)

theorem foldl_place_perm (edits done : List Edit) :
    (edits.foldl (fun done e => place e done) done).Perm (edits ++ done) := by
  induction edits generalizing done with
  | nil => exact .refl _
  | cons e rest ih =>
    exact (ih (place e done)).trans
      (((place_perm e done).append_left rest).trans List.perm_middle)

theorem arrange_perm (edits : List Edit) : (arrange edits).Perm edits := by
  have h := foldl_place_perm edits []
  rwa [List.append_nil] at h

theorem place_sorted {edits : List Edit}
    (h : edits.Pairwise fun a b => a.rank ≤ b.rank) (e : Edit) :
    (place e edits).Pairwise fun a b => a.rank ≤ b.rank := by
  induction h with
  | nil => exact List.pairwise_singleton _ _
  | @cons f rest hhead hrest ih =>
    rw [place]
    by_cases hbefore : e.goesBefore f = true
    · rw [if_pos hbefore]
      have hef : e.rank < f.rank := (goesBefore_iff e f).mp hbefore
      refine .cons (fun g hg => ?_) (.cons hhead hrest)
      rcases List.mem_cons.mp hg with rfl | hg
      · exact Nat.le_of_lt hef
      · exact Nat.le_trans (Nat.le_of_lt hef) (hhead g hg)
    · rw [if_neg hbefore]
      have hfe : f.rank ≤ e.rank :=
        Nat.le_of_not_lt fun hlt => hbefore ((goesBefore_iff e f).mpr hlt)
      refine .cons (fun g hg => ?_) ih
      rcases (mem_place e g rest).mp hg with rfl | hg
      · exact hfe
      · exact hhead g hg

theorem arrange_sorted (edits : List Edit) :
    (arrange edits).Pairwise fun a b => a.rank ≤ b.rank := by
  have h : ∀ done : List Edit, (done.Pairwise fun a b => a.rank ≤ b.rank) →
      (edits.foldl (fun done e => place e done) done).Pairwise fun a b =>
        a.rank ≤ b.rank := by
    induction edits with
    | nil => exact fun _ hdone => hdone
    | cons e rest ih => exact fun done hdone => ih _ (place_sorted hdone e)
  exact h [] .nil

/-- Of two edits that stand apart, the one that goes first stops before the
other starts. -/
theorem IsApart.stop_le {a b : Edit} (h : a.IsApart b) (hb : b.start ≤ b.stop)
    (hrank : a.rank ≤ b.rank) : a.stop ≤ b.start := by
  rcases h with h | h
  · exact h
  · -- both start at one position, where the second only inserts; so does the first
    have hstart : a.start = b.start ∧ b.stop = b.start := by
      unfold rank at hrank
      split at hrank <;> split at hrank <;> omega
    have hinsert : b.isInsertion = true := beq_iff_eq.mpr hstart.2.symm
    unfold rank at hrank
    rw [if_pos hinsert] at hrank
    split at hrank
    · next hself =>
      have : a.start = a.stop := eq_of_beq hself
      omega
    · omega

end Edit

namespace EditBuffer

theorem apply_of_sorted {source : Text} {edits : List Edit} {cursor : Nat}
    (hsorted : edits.Pairwise fun a b => a.stop ≤ b.start)
    (hcursor : ∀ e ∈ edits, cursor ≤ e.start) :
    ∃ out, apply source cursor edits = .ok out := by
  induction hsorted generalizing cursor with
  | nil => exact ⟨_, rfl⟩
  | @cons e rest hhead _ ih =>
    obtain ⟨tail, htail⟩ := ih hhead
    have hstart : ¬ e.start < cursor := Nat.not_lt.mpr (hcursor e List.mem_cons_self)
    rw [apply, if_neg hstart, htail]
    exact ⟨_, rfl⟩

/-- Edits that stand apart, each with its start before its stop,
can be applied. -/
theorem render_of_apart {b : EditBuffer} (hproper : ∀ e ∈ b.edits, e.start ≤ e.stop)
    (hapart : b.edits.Pairwise Edit.IsApart) : ∃ out, b.render = .ok out := by
  have hperm := Edit.arrange_perm b.edits
  have happly : (Edit.arrange b.edits).Pairwise Edit.IsApart :=
    (hperm.pairwise_iff Edit.IsApart.symm).mpr hapart
  apply apply_of_sorted _ fun e _ => Nat.zero_le e.start
  refine (happly.and (Edit.arrange_sorted b.edits)).imp_of_mem ?_
  intro e f _ hf h
  exact h.1.stop_le (hproper f (hperm.mem_iff.mp hf)) h.2

end EditBuffer

end Graft.Code
