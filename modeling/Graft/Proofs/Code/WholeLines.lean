import Graft.Proofs.Code.Contents

/-!
# Lines that stay whole

A stretch of a text that edits spare is found again in one piece. It is one line
of the edited text when a line break, or the end of the text, is in front of it
and behind it: whatever is inserted at its ends keeps to lines of its own, what
stands in front of it ends with a line break, and the break behind it is kept
(`KeepsLine`). Such lines keep their order.
-/

namespace Graft

namespace Code

/-- A text stands in another one from a position on, as one whole line. -/
structure IsLineAt (out line : Text) (position : Nat) : Prop where
  stands : out.slice position (position + line.length) = line
  begins : position = 0 ∨ out[position - 1]? = some '\n'
  ends : out.length = position + line.length ∨ out[position + line.length]? = some '\n'

instance (out line : Text) (position : Nat) : Decidable (IsLineAt out line position) :=
  decidable_of_iff
    ((position = 0 ∨ out[position - 1]? = some '\n') ∧
      (out.length = position + line.length ∨ out[position + line.length]? = some '\n') ∧
      out.slice position (position + line.length) = line)
    ⟨fun ⟨h1, h2, h3⟩ => ⟨h3, h1, h2⟩, fun h => ⟨h.begins, h.ends, h.stands⟩⟩

/-- A line stands within the text. -/
theorem IsLineAt.lt_length {out line : Text} {position : Nat}
    (h : IsLineAt out line position) (filled : line ≠ []) :
    position < out.length := by
  have hpos := List.length_pos_of_ne_nil filled
  rcases h.ends with hend | hbreak
  · omega
  · have := (List.getElem?_eq_some_iff.mp hbreak).1
    omega

/-- A text that stands between line breaks is a whole line. -/
theorem isLineAt_append {front line back : Text}
    (hfront : front = [] ∨ ∃ x, front = x ++ ['\n'])
    (hback : back = [] ∨ ∃ x, back = '\n' :: x) :
    IsLineAt (front ++ (line ++ back)) line front.length where
  stands := by
    rw [Text.slice, List.take_length_add_append, List.drop_left, List.take_left]
  begins := by
    rcases hfront with rfl | ⟨x, rfl⟩
    · exact .inl rfl
    · right
      rw [List.length_append, List.length_singleton, Nat.add_sub_cancel,
        List.append_assoc, List.getElem?_append_right (Nat.le_refl _), Nat.sub_self]
      rfl
  ends := by
    rcases hback with rfl | ⟨x, rfl⟩
    · left
      simp
    · right
      rw [← List.append_assoc, ← List.length_append,
        List.getElem?_append_right (Nat.le_refl _), Nat.sub_self]
      rfl

namespace Edit

variable {source : Text} {edits : List Edit} {a b p : Nat}

/-- Where the text from a position on goes, behind all that is inserted
at the position. -/
def lineAt (source : Text) (edits : List Edit) (p : Nat) : Nat :=
  (contents source edits 0 p ++ insertedAt edits p).length

theorem insertsAt_iff {e : Edit} : e.insertsAt p = true ↔ e.start = p ∧ e.stop = p := by
  simp only [insertsAt, isInsertion, Bool.and_eq_true, beq_iff_eq]
  omega

theorem replacesFrom_iff {e : Edit} :
    e.replacesFrom p = true ↔ e.start = p ∧ e.stop ≠ p := by
  simp only [replacesFrom, isInsertion, Bool.and_eq_true, Bool.not_eq_true',
    beq_eq_false_iff_ne, beq_iff_eq, ne_eq]
  omega

theorem covers_iff {e : Edit} : e.covers p = true ↔ e.start ≤ p ∧ p < e.stop := by
  simp [covers]

/-- A position that no edit replaces holds what is inserted there and
its own character. -/
theorem contentAt_of_clear (h : ∀ e ∈ edits, e.covers p = false) (hfrom : ∀ e ∈ edits,
    e.replacesFrom p = false) :
    contentAt source edits p = insertedAt edits p ++ source[p]?.toList := by
  have hcovers : edits.any (covers p) = false := by
    rw [List.any_eq_false]
    exact fun e he => by simp [h e he]
  have hnone : edits.filter (replacesFrom p) = [] := by
    rw [List.filter_eq_nil_iff]
    exact fun e he => by simp [hfrom e he]
  rw [contentAt, hnone, hcovers, if_neg Bool.false_ne_true, List.flatMap_nil,
    List.append_nil]
  rfl

/-- A stretch that edits spare stands behind what is inserted in front of it. -/
theorem contents_spared (hab : a < b) (hspared : ∀ e ∈ edits, e.Spares a b)
    (hproper : ∀ e ∈ edits, e.start ≤ e.stop) :
    contents source edits a (b - a) = insertedAt edits a ++ source.slice a b := by
  obtain ⟨n, hn⟩ : ∃ n, b - a = n + 1 := ⟨b - a - 1, by omega⟩
  -- edits that spare the range may still insert at its front, and nowhere
  -- inside it
  have hclear (p : Nat) (hp : a ≤ p) (hpb : p < b) :
      (∀ e ∈ edits, e.covers p = false) ∧ ∀ e ∈ edits, e.replacesFrom p = false := by
    constructor <;>
    · intro e he
      have hspare := hspared e he
      have hle := hproper e he
      rw [← Bool.not_eq_true]
      simp only [covers_iff, replacesFrom_iff]
      unfold Spares at hspare
      omega
  have hinside : contents source edits (a + 1) n = source.slice (a + 1) b := by
    rw [show b = a + 1 + n by omega, ← contents_nil]
    apply contents_congr
    intro p hp hpn
    have hnone : insertedAt edits p = [] := by
      rw [insertedAt, List.flatMap_eq_nil_iff]
      intro e he
      rw [List.mem_filter, insertsAt_iff] at he
      have hspare := hspared e he.1
      unfold Spares at hspare
      omega
    rw [contentAt_of_clear (hclear p (by omega) (by omega)).1
      (hclear p (by omega) (by omega)).2, hnone, contentAt_of_lt (by simp),
      List.nil_append]
  have hhead : source.slice a b = source[a]?.toList ++ source.slice (a + 1) b := by
    rw [← Text.slice_append_slice source (show a ≤ a + 1 by omega)
      (show a + 1 ≤ b by omega), ← contents_nil source a 1, contents_succ,
      contentAt_of_lt (by simp)]
    simp [contents]
  rw [hn, contents_succ, hinside, contentAt_of_clear (hclear a (by omega) hab).1
    (hclear a (by omega) hab).2, hhead, List.append_assoc]

/-- What the positions up to one hold ends with a line break, if the last of
them that holds anything does. -/
theorem contents_endsWith
    (h : ∀ q < p, (∀ r, q < r → r < p → contentAt source edits r = []) →
    contentAt source edits q ≠ [] → ∃ x, contentAt source edits q = x ++ ['\n']) :
    contents source edits 0 p = [] ∨ ∃ x, contents source edits 0 p = x ++ ['\n'] := by
  induction p with
  | zero => exact .inl rfl
  | succ p ih =>
    have hlast : contents source edits 0 (p + 1) = contents source edits 0 p ++
        contentAt source edits p := by
      rw [contents_add, Nat.zero_add, contents_succ]
      simp [contents]
    rw [hlast]
    by_cases hnil : contentAt source edits p = []
    · rw [hnil, List.append_nil]
      refine ih fun q hq hbetween => h q (by omega) fun r hr hrp => ?_
      by_cases hrp' : r = p
      · rw [hrp', hnil]
      · exact hbetween r hr (by omega)
    · obtain ⟨x, hx⟩ := h p (Nat.lt_succ_self p) (fun r hr hrp => by omega) hnil
      exact .inr ⟨contents source edits 0 p ++ x, by rw [hx, List.append_assoc]⟩

end Edit

open Edit

/-- Edits keep the stretch between two positions as a line. -/
structure KeepsLine (source : Text) (edits : List Edit) (a b : Nat) : Prop where
  filled : a < b
  inText : b ≤ source.length
  /-- The stretch ends with its line. -/
  isLine : b = source.length ∨ source[b]? = some '\n'
  proper : ∀ e ∈ edits, e.start ≤ e.stop
  /-- No edit reaches into the stretch. -/
  spared : ∀ e ∈ edits, e.Spares a b
  /-- What is inserted in front of it has lines for itself. -/
  opens : ∀ e ∈ edits, e.insertsAt a = true → ∃ x, e.text = x ++ ['\n']
  /-- What stands in front of it ends with a line break. -/
  front : ∀ q < a, (∀ r, q < r → r < a → contentAt source edits r = []) →
    contentAt source edits q ≠ [] → ∃ x, contentAt source edits q = x ++ ['\n']
  /-- What is inserted behind it begins on a line of its own. -/
  closes : ∀ e ∈ edits, e.insertsAt b = true → ∃ x, e.text = '\n' :: x
  /-- The line break behind it is kept. -/
  kept : ∀ e ∈ edits, e.covers b = false ∧ e.replacesFrom b = false

namespace KeepsLine

variable {source : Text} {edits : List Edit} {a b a' b' : Nat}

/-- What is inserted in front of the line ends with a line break. -/
theorem insertedAt_opens (h : KeepsLine source edits a b) :
    insertedAt edits a = [] ∨ ∃ x, insertedAt edits a = x ++ ['\n'] := by
  rw [insertedAt]
  rcases List.eq_nil_or_concat (edits.filter (insertsAt a)) with
    hnil | ⟨front, last, hlast⟩
  · exact .inl (by rw [hnil]; rfl)
  · have hmem : last ∈ edits.filter (insertsAt a) := by rw [hlast]; simp
    obtain ⟨x, hx⟩ :=
      h.opens last (List.mem_filter.mp hmem).1 (List.mem_filter.mp hmem).2
    refine .inr ⟨front.flatMap text ++ x, ?_⟩
    rw [hlast, List.concat_eq_append, List.flatMap_append, List.flatMap_singleton, hx,
      List.append_assoc]

/-- What is inserted behind the line begins with a line break. -/
theorem insertedAt_closes (h : KeepsLine source edits a b) :
    insertedAt edits b = [] ∨ ∃ x, insertedAt edits b = '\n' :: x := by
  rw [insertedAt]
  cases hfirst : edits.filter (insertsAt b) with
  | nil => exact .inl rfl
  | cons first rest =>
    have hmem : first ∈ edits.filter (insertsAt b) := by
      rw [hfirst]; exact List.mem_cons_self
    obtain ⟨x, hx⟩ :=
      h.closes first (List.mem_filter.mp hmem).1 (List.mem_filter.mp hmem).2
    exact .inr ⟨x ++ rest.flatMap text, by rw [List.flatMap_cons, hx, List.cons_append]⟩

theorem contentAt_stop (h : KeepsLine source edits a b) :
    contentAt source edits b = insertedAt edits b ++ source[b]?.toList :=
  contentAt_of_clear (fun e he => (h.kept e he).1) fun e he => (h.kept e he).2

/-- What stands behind the line begins with a line break, or
there is nothing. -/
theorem contents_stop (h : KeepsLine source edits a b) :
    contents source edits b (source.length + 1 - b) = [] ∨
      ∃ x, contents source edits b (source.length + 1 - b) = '\n' :: x := by
  have hb := h.inText
  obtain ⟨n, hn⟩ : ∃ n, source.length + 1 - b = n + 1 := ⟨source.length - b, by omega⟩
  rw [hn, contents_succ, h.contentAt_stop]
  rcases h.insertedAt_closes with hnone | ⟨x, hx⟩
  · rw [hnone, List.nil_append]
    rcases h.isLine with hend | hbreak
    · left
      have hzero : n = 0 := by omega
      rw [hend, List.getElem?_eq_none (Nat.le_refl _), hzero]
      rfl
    · exact .inr ⟨_, by rw [hbreak]; rfl⟩
  · exact .inr ⟨_, by rw [hx, List.cons_append, List.cons_append]⟩

/-- The line is a line of the edited text. -/
theorem isLineAt (h : KeepsLine source edits a b) :
    IsLineAt (atOnce source edits) (source.slice a b) (lineAt source edits a) := by
  have hab := h.filled
  have hb := h.inText
  have hsplit : atOnce source edits =
      (contents source edits 0 a ++ insertedAt edits a) ++
      (source.slice a b ++ contents source edits b (source.length + 1 - b)) := by
    rw [atOnce_split source edits (show a ≤ source.length by omega),
      show source.length + 1 - a = (b - a) + (source.length + 1 - b) by omega,
      contents_add, contents_spared h.filled h.spared h.proper,
      Nat.add_sub_cancel' (Nat.le_of_lt hab)]
    simp only [List.append_assoc]
  rw [hsplit]
  refine isLineAt_append ?_ h.contents_stop
  rcases h.insertedAt_opens with hnone | ⟨x, hx⟩
  · rw [hnone, List.append_nil]
    exact contents_endsWith h.front
  · exact .inr ⟨contents source edits 0 a ++ x, by rw [hx, List.append_assoc]⟩

/-- Lines keep their order. -/
theorem lineAt_lt (h : KeepsLine source edits a b) (h' : KeepsLine source edits a' b')
    (hlt : b < a') : lineAt source edits a + (b - a) < lineAt source edits a' := by
  have hab := h.filled
  have hab' := h'.filled
  have hb' := h'.inText
  obtain ⟨c, hc⟩ : ∃ c, source[b]? = some c := ⟨_, List.getElem?_eq_getElem (by omega)⟩
  have hslice : (source.slice a b).length = b - a := by
    rw [Text.length_slice, Nat.min_eq_left h.inText]
  have hsplit : contents source edits 0 a' = contents source edits 0 a ++
      (insertedAt edits a ++ source.slice a b) ++ (insertedAt edits b ++ [c]) ++
        contents source edits (b + 1) (a' - (b + 1)) := by
    rw [show a' = a + ((b - a) + ((a' - (b + 1)) + 1)) by omega, contents_add,
      Nat.zero_add, contents_add, contents_spared h.filled h.spared h.proper,
      Nat.add_sub_cancel' (Nat.le_of_lt hab), contents_succ, h.contentAt_stop, hc,
      show a + (b - a + (a' - (b + 1) + 1)) - (b + 1) = a' - (b + 1) by omega]
    simp only [List.append_assoc]
    rfl
  simp only [lineAt, hsplit, List.length_append, List.length_singleton, hslice]
  omega

end KeepsLine

end Code

end Graft
