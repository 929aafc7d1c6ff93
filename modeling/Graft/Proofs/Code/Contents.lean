import Graft.Proofs.Code.AtOnce

/-!
# What positions contribute to an edited text

An edited text is made of the contents of its positions, so it can be cut at any
position, and what a position holds stands in it in one piece: all that is
inserted there, one text behind the other.
-/

namespace Graft

namespace Code

namespace Edit

variable {source : Text} {edits : List Edit} {p : Nat}

/-- An edited text falls into what stands in front of a position and what stands
from there on. -/
theorem atOnce_split (source : Text) (edits : List Edit) (h : p ≤ source.length) :
    atOnce source edits =
      contents source edits 0 p ++ contents source edits p (source.length + 1 - p) := by
  have hcount : source.length + 1 = p + (source.length + 1 - p) := by omega
  rw [atOnce, List.range_eq_range', ← contents, hcount, contents_add,
    Nat.zero_add, ← hcount]

/-- What a position holds stands in the edited text. -/
theorem contentAt_isInfix (source : Text) (edits : List Edit) (h : p ≤ source.length) :
    contentAt source edits p <:+: atOnce source edits := by
  obtain ⟨n, hn⟩ : ∃ n, source.length + 1 - p = n + 1 := ⟨source.length - p, by omega⟩
  rw [atOnce_split source edits h, hn, contents_succ, ← List.append_assoc]
  exact List.infix_append _ _ _

/-- What is inserted at a position. -/
def insertedAt (edits : List Edit) (p : Nat) : Text :=
  (edits.filter (insertsAt p)).flatMap text

/-- What is inserted at a position stands in the edited text in one piece, right
behind what becomes of the text in front of the position. -/
theorem contents_insertedAt (source : Text) (edits : List Edit) (h : p ≤ source.length) :
    contents source edits 0 p ++ insertedAt edits p <+: atOnce source edits := by
  obtain ⟨n, hn⟩ : ∃ n, source.length + 1 - p = n + 1 := ⟨source.length - p, by omega⟩
  rw [atOnce_split source edits h, hn, contents_succ, List.prefix_append_right_inj,
    contentAt, ← insertedAt, List.append_assoc, List.append_assoc]
  exact List.prefix_append _ _

/-- What edits in one piece insert stands in one piece in what all
of them insert. -/
theorem flatMap_text_isInfix {es fs : List Edit} (h : es <:+: fs) :
    es.flatMap text <:+: fs.flatMap text := by
  obtain ⟨front, back, rfl⟩ := h
  rw [List.flatMap_append, List.flatMap_append]
  exact List.infix_append _ _ _

private theorem text_isInfix_flatMap {e : Edit} (he : e ∈ edits) :
    e.text <:+: edits.flatMap text := by
  obtain ⟨front, back, rfl⟩ := List.append_of_mem he
  have h := flatMap_text_isInfix (List.infix_append front [e] back)
  rwa [List.flatMap_singleton, List.append_assoc, List.singleton_append] at h

/-- The text of an insertion is part of what is inserted at its position. -/
theorem text_isInfix_insertedAt {e : Edit} (he : e ∈ edits) (h : e.insertsAt p = true) :
    e.text <:+: insertedAt edits p :=
  text_isInfix_flatMap (List.mem_filter.mpr ⟨he, h⟩)

/-- The text of every edit stands in the edited text. -/
theorem text_isInfix {e : Edit} (he : e ∈ edits) (h : e.start ≤ source.length) :
    e.text <:+: atOnce source edits := by
  refine List.IsInfix.trans ?_ (contentAt_isInfix source edits h)
  rw [contentAt]
  cases hinsertion : e.isInsertion with
  | true =>
    have hat : e.insertsAt e.start = true := by simp [insertsAt, hinsertion]
    rw [List.append_assoc]
    exact (text_isInfix_insertedAt he hat).trans (List.prefix_append _ _).isInfix
  | false =>
    have hmem : e ∈ edits.filter (replacesFrom e.start) :=
      List.mem_filter.mpr ⟨he, by simp [replacesFrom, hinsertion]⟩
    exact (text_isInfix_flatMap hmem).trans (List.infix_append _ _ _)

/-! ## Order -/

private theorem mem_of_filter_rank {es fs : List Edit}
    (h : ∀ r, es.filter (·.rank == r) = fs.filter (·.rank == r)) {e : Edit}
    (he : e ∈ es) :
    e ∈ fs := by
  have hmem : e ∈ es.filter (·.rank == e.rank) :=
    List.mem_filter.mpr ⟨he, beq_self_eq_true _⟩
  rw [h] at hmem
  exact (List.mem_filter.mp hmem).1

/-- Two lists that are in order are equal if they hold the same edits at each
place of the order, in the same order. -/
theorem eq_of_filter_rank {es fs : List Edit}
    (hes : es.Pairwise fun a b => a.rank ≤ b.rank)
    (hfs : fs.Pairwise fun a b => a.rank ≤ b.rank)
    (h : ∀ r, es.filter (·.rank == r) = fs.filter (·.rank == r)) : es = fs := by
  induction es generalizing fs with
  | nil =>
    rw [eq_comm, List.eq_nil_iff_forall_not_mem]
    intro f hf
    cases mem_of_filter_rank (fun r => (h r).symm) hf
  | cons e es ih =>
    have he : e ∈ fs := mem_of_filter_rank h List.mem_cons_self
    cases fs with
    | nil => cases he
    | cons f fs =>
      have hf : f ∈ e :: es :=
        mem_of_filter_rank (fun r => (h r).symm) List.mem_cons_self
      rw [List.pairwise_cons] at hes hfs
      -- each head is in both lists, so neither goes before the other
      have hrank : e.rank = f.rank := by
        apply Nat.le_antisymm
        · rcases List.mem_cons.mp hf with rfl | hf
          · exact Nat.le_refl _
          · exact hes.1 f hf
        · rcases List.mem_cons.mp he with rfl | he
          · exact Nat.le_refl _
          · exact hfs.1 e he
      obtain rfl : e = f := by
        have hhead := h e.rank
        rw [List.filter_cons, List.filter_cons, if_pos (by simp),
          if_pos (by simp [hrank])] at hhead
        exact (List.cons.inj hhead).1
      rw [ih hes.2 hfs.2]
      intro r
      have htail := h r
      rw [List.filter_cons, List.filter_cons] at htail
      split at htail
      · exact (List.cons.inj htail).2
      · exact htail

/-- What is made at each place of the order of application, in its order,
decides on that order. -/
theorem arrange_congr {es fs : List Edit}
    (h : ∀ r, es.filter (·.rank == r) = fs.filter (·.rank == r)) :
    arrange es = arrange fs :=
  eq_of_filter_rank (arrange_sorted es) (arrange_sorted fs) fun r => by
    rw [filter_rank_arrange, filter_rank_arrange, h]

end Edit

end Code

end Graft
