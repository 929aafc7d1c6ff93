import Graft.Proofs.Code.Contents
import Graft.Proofs.Merge.HandWritten

/-!
# What an outcome is made of

The outcome of a session is its source with all recorded edits applied at once.
What the edits insert stands in it, and the insertions at one position stand
there in the order in which they were recorded.
-/

namespace Graft.Merge

open Java Entity Code

namespace Session

variable {s : Session} {out : Text}

theorem buffer_source (s : Session) : s.buffer.source = s.source := by
  rw [buffer_eq]

/-- Every edit is recorded within the source. -/
theorem buffer_isWithin (s : Session) :
    ∀ e ∈ s.buffer.edits, e.IsWithin s.buffer.source.length := by
  intro e he
  rw [buffer_eq] at he ⊢
  obtain ⟨f, -, rfl⟩ := List.mem_map.mp he
  exact Edit.isWithin_clampTo _ _

/-- An outcome is the source with the recorded edits applied at once. -/
theorem atOnce_of_written (h : s.write = .ok (some out)) :
    out = Edit.atOnce s.source s.buffer.edits := by
  rw [← s.buffer_source]
  exact ((EditBuffer.render_eq_ok_iff s.buffer_isWithin).mp (write_eq_some h).2).2

/-- The text of every edit stands in the outcome. -/
theorem text_isInfix_of_written (h : s.write = .ok (some out)) {e : Edit}
    (he : e ∈ s.edits) :
    e.text <:+: out := by
  rw [atOnce_of_written h, buffer_eq]
  have hmem : e.clampTo s.source.length ∈ s.edits.map (Edit.clampTo s.source.length) :=
    List.mem_map_of_mem he
  refine Edit.text_isInfix (e := e.clampTo s.source.length) hmem ?_
  show min e.start (min e.stop s.source.length) ≤ s.source.length
  omega

/-- What is inserted at a position stands in an outcome right behind what becomes
of the source in front of the position. -/
theorem insertedAt_of_written (h : s.write = .ok (some out)) {position : Nat}
    (hposition : position ≤ s.source.length) :
    Edit.contents s.source s.buffer.edits 0 position ++
      Edit.insertedAt s.buffer.edits position <+: out := by
  rw [atOnce_of_written h]
  exact Edit.contents_insertedAt s.source s.buffer.edits hposition

/-- The text of an insertion is recorded among what is inserted at its position,
or at the end of the source when it is behind that. -/
theorem text_isInfix_insertedAt {e : Edit} (he : e ∈ s.edits)
    (hinsertion : e.stop = e.start) :
    e.text <:+: Edit.insertedAt s.buffer.edits (min e.start s.source.length) := by
  have hmem : e.clampTo s.source.length ∈ s.buffer.edits := by
    rw [buffer_eq]
    exact List.mem_map_of_mem he
  refine Edit.text_isInfix_insertedAt (e := e.clampTo s.source.length) hmem ?_
  simp [Edit.insertsAt, Edit.isInsertion, Edit.clampTo, hinsertion]

end Session

end Graft.Merge
