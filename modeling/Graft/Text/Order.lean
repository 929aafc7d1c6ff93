import Graft.Text.Basic

/-!
# The order of texts

Texts are compared character by character, by code point. Lists of
names that reports and resolution depend on are kept sorted in this
order with every name once.
-/

namespace Graft.Text

/-- Whether one text comes strictly before another. -/
def before : Text → Text → Bool
  | [], [] => false
  | [], _ :: _ => true
  | _ :: _, [] => false
  | a :: as, b :: bs => if a == b then before as bs else a.toNat < b.toNat

/-- Puts a text into a sorted list, unless it is there already. -/
def insertDistinct (t : Text) : List Text → List Text
  | [] => [t]
  | u :: rest =>
    if t == u then u :: rest
    else if before t u then t :: u :: rest
    else u :: insertDistinct t rest

/-- The members of a list in their order, each of them once. -/
def sortDistinct (ts : List Text) : List Text := ts.foldr insertDistinct []

theorem mem_insertDistinct (t u : Text) (ts : List Text) :
    u ∈ insertDistinct t ts ↔ u = t ∨ u ∈ ts := by
  induction ts with
  | nil => simp [insertDistinct]
  | cons v rest ih =>
    simp only [insertDistinct]
    split
    · next h =>
      have : t = v := by simpa using h
      subst this
      simp
    · split
      · simp
      · simp only [List.mem_cons, ih]
        exact or_left_comm

theorem mem_sortDistinct (u : Text) (ts : List Text) : u ∈ sortDistinct ts ↔ u ∈ ts := by
  induction ts with
  | nil => simp [sortDistinct]
  | cons t rest ih =>
    have : sortDistinct (t :: rest) = insertDistinct t (sortDistinct rest) := rfl
    rw [this, mem_insertDistinct, ih, List.mem_cons]

end Graft.Text
