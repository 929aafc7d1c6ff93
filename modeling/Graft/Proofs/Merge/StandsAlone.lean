import Graft.Proofs.Merge.Seams

/-!
# Texts that stand alone

A text stands alone when it is read as whole items and nothing is left over
behind it. So it fits between the items of every body (`StandsAlone.fits`). When
it does so only together with a line break, it fits where the line ends behind
it (`StandsAlone.fits_inLine`).
-/

namespace Graft.Merge

open Java Entity

/-- Behind a text, what follows is read on its own, and no documentation comment
is left for it. -/
def EndsClear (read : Text → List Token) (t : Text) : Prop :=
  ((read (t ++ "x".toList)).getLast?.any fun x =>
    x.start == t.length && x.doc.isNone) = true

instance (read : Text → List Token) (t : Text) : Decidable (EndsClear read t) :=
  inferInstanceAs (Decidable (_ = true))

theorem EndsClear.exists_token {read : Text → List Token} {t : Text}
    (h : EndsClear read t) :
    ∃ before x, read (t ++ "x".toList) = before ++ [x] ∧ x.start = t.length ∧
      x.doc = none := by
  obtain ⟨x, hx, hclear⟩ := (Option.any_eq_true _ _).mp h
  rw [Bool.and_eq_true, beq_iff_eq, Option.isNone_iff_eq_none] at hclear
  obtain ⟨before, hread⟩ := List.getLast?_eq_some_iff.mp hx
  exact ⟨before, x, hread, hclear⟩

/-! ## Texts that are whole items -/

/-- The tokens of a text, as they are read in front of something else. -/
def tokensBefore (t : Text) : List Token :=
  (Cursor.fileStart.read (t ++ "x".toList)).dropLast

/-- A text is whole items of a type of a kind: every bracket in it is closed
and closes another, its last item is finished, and nothing that begins in it
goes on behind it. -/
structure StandsAlone (kind : TypeKind) (t : Text) : Prop where
  closed : Tree.flats (Tree.ofTokens (tokensBefore t)) = tokensBefore t
  inside : ∀ u ∈ Tree.ofTokens (tokensBefore t), u.isStray = false
  finished :
    (readItems t (Tree.sizes (Tree.ofTokens (tokensBefore t)) + 1) (some kind) false
    (Tree.ofTokens (tokensBefore t))).unfinished = false
  clear : EndsClear Cursor.fileStart.read t

instance (kind : TypeKind) (t : Text) : Decidable (StandsAlone kind t) :=
  decidable_of_iff
    (Tree.flats (Tree.ofTokens (tokensBefore t)) = tokensBefore t ∧
      (∀ u ∈ Tree.ofTokens (tokensBefore t), u.isStray = false) ∧
      (readItems t (Tree.sizes (Tree.ofTokens (tokensBefore t)) + 1) (some kind) false
        (Tree.ofTokens (tokensBefore t))).unfinished = false ∧
      EndsClear Cursor.fileStart.read t)
    ⟨fun ⟨h1, h2, h3, h4⟩ => ⟨h1, h2, h3, h4⟩,
      fun h => ⟨h.closed, h.inside, h.finished, h.clear⟩⟩

section

variable {kind : TypeKind} {t : Text}

/-- How a text that stands alone is read in front of something else. -/
theorem StandsAlone.exists_pieces (h : StandsAlone kind t) :
    ∃ xs, Lexes "x".toList t xs ∧
    Cursor.fileStart.emit xs = tokensBefore t ∧
    (Cursor.fileStart.behindAll xs).doc = none := by
  obtain ⟨before, x, hread, hstart, hdoc⟩ := h.clear.exists_token
  obtain ⟨zs, hzs⟩ := Lexes.exists_whole (t ++ "x".toList)
  have hemit := (Cursor.read_eq hzs Cursor.fileStart).symm.trans hread
  obtain ⟨xs, ys, rfl, hxs, hcursor⟩ := Cursor.exists_token_piece hemit
  obtain ⟨u, w, htext, hu, hw⟩ := hzs.of_append
  -- the word behind the text begins where the text ends
  have hlength : t.length = u.length := by
    have hposition := Cursor.position_behindAll hu Cursor.fileStart
    rw [hcursor, hstart] at hposition
    exact hposition.trans (Nat.zero_add _)
  obtain ⟨rfl, rfl⟩ := List.append_inj htext hlength
  refine ⟨xs, by rwa [List.append_nil] at hu, ?_, by rw [hcursor, hdoc]⟩
  rw [tokensBefore, hread, hxs, List.dropLast_concat]

/-- **A text that stands alone fits** between the items of every body. -/
theorem StandsAlone.fits (h : StandsAlone kind t) :
    Fits (inAnnotationBody (some kind)) false t := by
  obtain ⟨xs, hxs, hemit, hdoc⟩ := h.exists_pieces
  have hsettled := settled_of_finished (Nat.lt_succ_self _) h.finished
  have hnested := (nested_ofTokens h.closed).anywhere h.inside
  rw [← h.closed] at hemit
  refine ⟨xs, fun w _ => hxs.of_settled (by decide) hsettled (hnested none) hemit w,
    fun s hs => ?_, ?_⟩
  · exact Cursor.doc_behindAll rfl hs hdoc
  · exact exists_settled hemit.symm hnested hsettled

/-- In a line, a text fits that stands alone with the line break. -/
theorem StandsAlone.fits_inLine (h : StandsAlone kind (t ++ ['\n'])) :
    Fits (inAnnotationBody (some kind)) true t :=
  h.fits.of_break

end

end Graft.Merge
