import Graft.Code.Edits
import Graft.Proofs.Text.Slice

/-!
# What edits leave alone

A character that no edit replaces stands in the edited text as well. `landing`
says where: the outcome of applying edits keeps these characters, in their
order, and a stretch that no edit reaches into stays in one piece.
-/

namespace Graft.Code

namespace Edit

/-- The edit does not replace the character at a position. -/
def Clears (e : Edit) (position : Nat) : Prop := position < e.start ∨ e.stop ≤ position

/-- The edit neither replaces nor splits anything between two positions. -/
def Spares (e : Edit) (start stop : Nat) : Prop :=
  (e.stop ≤ start ∨ stop ≤ e.start) ∧ ¬ (start < e.start ∧ e.start < stop)

theorem Spares.clears {e : Edit} {start stop p : Nat} (h : e.Spares start stop)
    (hstart : start ≤ p) (hstop : p < stop) : e.Clears p := by
  rcases h.1 with h | h
  · exact .inr (by omega)
  · exact .inl (by omega)

/-- An edit as it is recorded against a text of some length. -/
def clampTo (length : Nat) (e : Edit) : Edit :=
  { e with start := min e.start (min e.stop length), stop := min e.stop length }

/-- An edit inside the text is recorded as it is. -/
theorem clampTo_of_le {length : Nat} {e : Edit} (hle : e.start ≤ e.stop)
    (hstop : e.stop ≤ length) :
    e.clampTo length = e := by
  rw [clampTo, Nat.min_eq_left hstop, Nat.min_eq_left hle]

/-! ## The order of application -/

theorem mem_place (e f : Edit) (edits : List Edit) :
    f ∈ place e edits ↔ f = e ∨ f ∈ edits := by
  induction edits with
  | nil => simp [place]
  | cons g rest ih =>
    simp only [place]
    split
    · simp
    · simp only [List.mem_cons, ih]
      exact or_left_comm

private theorem mem_foldl_place (f : Edit) (edits done : List Edit) :
    f ∈ edits.foldl (fun done e => place e done) done ↔ f ∈ edits ∨ f ∈ done := by
  induction edits generalizing done with
  | nil => simp
  | cons e rest ih =>
    rw [List.foldl_cons, ih, mem_place, List.mem_cons, ← or_assoc,
      or_comm (a := f ∈ rest)]

/-- Arranging edits neither adds nor loses one. -/
@[simp] theorem mem_arrange (f : Edit) (edits : List Edit) :
    f ∈ arrange edits ↔ f ∈ edits := by
  simp [arrange, mem_foldl_place]

/-! ## Where characters go -/

/-- The position, in the outcome of applying edits from `cursor` on, of a
character that they do not replace. What is inserted at a position comes before
the character there. -/
def landing (cursor : Nat) : List Edit → Nat → Nat
  | [], p => p - cursor
  | e :: rest, p =>
    if p < e.start then p - cursor
    else e.start - cursor + e.text.length + landing e.stop rest p

theorem landing_lt {edits : List Edit} {cursor p q : Nat} (hp : cursor ≤ p)
    (hpq : p < q) (hclear : ∀ e ∈ edits, e.Clears p ∧ e.Clears q) :
    landing cursor edits p < landing cursor edits q := by
  induction edits generalizing cursor with
  | nil =>
    simp only [landing]
    omega
  | cons e rest ih =>
    obtain ⟨hcp, hcq⟩ := hclear e List.mem_cons_self
    simp only [landing]
    by_cases hq : q < e.start
    · rw [if_pos hq, if_pos (by omega)]
      omega
    · rw [if_neg hq]
      by_cases hpe : p < e.start
      · rw [if_pos hpe]
        omega
      · rw [if_neg hpe]
        have hstop : e.stop ≤ p := hcp.resolve_left hpe
        have := ih hstop fun f hf => hclear f (List.mem_cons_of_mem _ hf)
        omega

/-- What edits spare stays in one piece. -/
theorem landing_add {edits : List Edit} {cursor start stop i : Nat}
    (hcursor : cursor ≤ start) (hi : start + i < stop)
    (hspare : ∀ e ∈ edits, e.Spares start stop) :
    landing cursor edits (start + i) = landing cursor edits start + i := by
  induction edits generalizing cursor with
  | nil =>
    simp only [landing]
    omega
  | cons e rest ih =>
    have he := hspare e List.mem_cons_self
    simp only [landing]
    by_cases hs : start < e.start
    · have hge : stop ≤ e.start := by
        have := he.2
        omega
      rw [if_pos hs, if_pos (by omega)]
      omega
    · rw [if_neg hs, if_neg (by omega)]
      have hstop : e.stop ≤ start := by
        rcases he.1 with h | h <;> omega
      rw [ih hstop fun f hf => hspare f (List.mem_cons_of_mem _ hf)]
      omega

end Edit

namespace EditBuffer

/-- A character that no edit replaces is found where it lands. -/
theorem getElem?_landing_of_apply {source out : Text} {cursor p : Nat}
    {edits : List Edit} (happly : apply source cursor edits = .ok out)
    (hp : cursor ≤ p) (hlen : p < source.length) (hclear : ∀ e ∈ edits, e.Clears p) :
    out[Edit.landing cursor edits p]? = source[p]? := by
  induction edits generalizing cursor out with
  | nil =>
    simp only [apply, Except.ok.injEq] at happly
    subst happly
    rw [Edit.landing, List.getElem?_drop, show cursor + (p - cursor) = p by omega]
  | cons e rest ih =>
    simp only [apply] at happly
    split at happly
    · cases happly
    · next hge =>
      obtain ⟨tail, htail, rfl⟩ : ∃ tail, apply source e.stop rest = .ok tail ∧
          source.slice cursor e.start ++ e.text ++ tail = out := by
        cases hr : apply source e.stop rest with
        | error o => simp [hr, Except.map] at happly
        | ok tail => exact ⟨tail, rfl, by simpa [hr, Except.map] using happly⟩
      simp only [Edit.landing]
      -- the position is in front of the next edit or behind it, as no edit
      -- touches it
      by_cases hlt : p < e.start
      · rw [if_pos hlt, List.append_assoc, List.getElem?_append_left (by simp; omega),
          Text.getElem?_slice_of_lt (by omega), show cursor + (p - cursor) = p by omega]
      · rw [if_neg hlt]
        have hstop : e.stop ≤ p := (hclear e List.mem_cons_self).resolve_left hlt
        have hpiece : (source.slice cursor e.start ++ e.text).length =
            e.start - cursor + e.text.length := by
          rw [List.length_append, Text.length_slice, Nat.min_eq_left (by omega)]
        rw [← hpiece, List.getElem?_append_right (by omega), Nat.add_sub_cancel_left]
        exact ih htail hstop fun f hf => hclear f (List.mem_cons_of_mem _ hf)

/-- The position in the edited text of a character that no edit replaces. -/
def landing (b : EditBuffer) (p : Nat) : Nat := Edit.landing 0 (Edit.arrange b.edits) p

section

variable {b : EditBuffer} {out : Text}

/-- A character that no edit replaces is found where it lands. -/
theorem getElem?_landing (hrender : b.render = .ok out) {p : Nat}
    (hlen : p < b.source.length) (hclear : ∀ e ∈ b.edits, e.Clears p) :
    out[b.landing p]? = b.source[p]? :=
  getElem?_landing_of_apply hrender (Nat.zero_le p) hlen fun e he =>
    hclear e ((Edit.mem_arrange e _).mp he)

/-- Characters that no edit replaces keep their order. -/
theorem landing_lt_landing {p q : Nat} (hpq : p < q)
    (hclear : ∀ e ∈ b.edits, e.Clears p ∧ e.Clears q) : b.landing p < b.landing q :=
  Edit.landing_lt (Nat.zero_le p) hpq fun e he =>
    hclear e ((Edit.mem_arrange e _).mp he)

/-- A stretch that every edit spares stands in the edited text as it was. -/
theorem slice_landing (hrender : b.render = .ok out) {start stop : Nat}
    (hlen : stop ≤ b.source.length) (hspare : ∀ e ∈ b.edits, e.Spares start stop) :
    out.slice (b.landing start) (b.landing start + (stop - start)) =
      b.source.slice start stop := by
  apply List.ext_getElem?
  intro i
  rw [Text.getElem?_slice, Text.getElem?_slice]
  by_cases hi : start + i < stop
  · rw [if_pos (by omega), if_pos hi]
    have hadd : b.landing (start + i) = b.landing start + i :=
      Edit.landing_add (Nat.zero_le start) hi fun e he =>
        hspare e ((Edit.mem_arrange e _).mp he)
    rw [← hadd]
    exact getElem?_landing hrender (by omega) fun e he =>
      (hspare e he).clears (Nat.le_add_right start i) hi
  · rw [if_neg (by omega), if_neg hi]

end

end EditBuffer

end Graft.Code
