import Graft.Text.Class

/-!
# Pieces of a text

What a slice holds: its length, its characters, and how neighbouring slices fit
together. Blank pieces are described by their characters, and a piece of one
kind ends where another kind begins.
-/

namespace Graft.Text

open Graft.Char

@[simp] theorem length_slice (t : Text) (start stop : Nat) :
    (t.slice start stop).length = min stop t.length - start := by
  simp [slice]

theorem getElem?_slice (t : Text) (start stop i : Nat) :
    (t.slice start stop)[i]? = if start + i < stop then t[start + i]? else none := by
  simp only [slice, List.getElem?_drop, List.getElem?_take]

/-- Inside its bounds, a slice has the characters of the text. -/
theorem getElem?_slice_of_lt {t : Text} {start stop i : Nat} (h : start + i < stop) :
    (t.slice start stop)[i]? = t[start + i]? := by
  rw [getElem?_slice, if_pos h]

@[simp] theorem slice_self (t : Text) (position : Nat) :
    t.slice position position = [] := by
  apply List.eq_nil_of_length_eq_zero
  rw [length_slice]
  omega

/-- Neighbouring slices fit together. -/
theorem slice_append_slice (t : Text) {a b c : Nat} (hab : a ≤ b) (hbc : b ≤ c) :
    t.slice a b ++ t.slice b c = t.slice a c := by
  apply List.ext_getElem?
  intro i
  rw [List.getElem?_append, length_slice]
  split
  · next h =>
    rw [getElem?_slice_of_lt (by omega), getElem?_slice_of_lt (by omega)]
  · next h =>
    rw [getElem?_slice, getElem?_slice]
    by_cases hb : b ≤ t.length
    · have hi : b + (i - (min b t.length - a)) = a + i := by omega
      rw [hi]
    · rw [List.getElem?_eq_none (by omega), List.getElem?_eq_none (by omega)]
      simp

/-- A piece is blank when each of its characters is. -/
theorem isBlank_slice_iff (t : Text) (start stop : Nat) :
    isBlank (t.slice start stop) = true ↔
      ∀ p c, start ≤ p → p < stop → t[p]? = some c → Char.isBlank c = true := by
  simp only [isBlank, List.all_eq_true]
  constructor
  · intro h p c hstart hstop hc
    apply h c
    apply List.mem_of_getElem? (i := p - start)
    rw [getElem?_slice_of_lt (by omega)]
    rwa [show start + (p - start) = p by omega]
  · intro h c hc
    obtain ⟨i, hi⟩ := List.mem_iff_getElem?.mp hc
    rw [getElem?_slice] at hi
    split at hi
    · exact h _ c (by omega) (by assumption) hi
    · cases hi

/-- Where a front of characters of one kind ends is settled by
what follows it. -/
theorem front_inj {p : Char → Bool} {a a' x x' : Text} (ha : a.all p = true)
    (ha' : a'.all p = true) (hx : ∀ c ∈ x.head?, p c = false)
    (hx' : ∀ c ∈ x'.head?, p c = false) :
    a ++ x = a' ++ x' ↔ a = a' ∧ x = x' := by
  have hfront : ∀ {b y : Text}, b.all p = true → (∀ c ∈ y.head?, p c = false) →
      (b ++ y).takeWhile p = b := by
    intro b y hb hy
    rw [List.takeWhile_append_of_pos (List.all_eq_true.mp hb)]
    cases y with
    | nil => simp
    | cons c rest => simp [hy c rfl]
  constructor
  · intro h
    obtain rfl : a = a' := by rw [← hfront ha hx, h, hfront ha' hx']
    exact ⟨rfl, List.append_cancel_left h⟩
  · rintro ⟨rfl, rfl⟩
    rfl

end Graft.Text
