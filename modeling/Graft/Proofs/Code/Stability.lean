import Graft.Proofs.Code.LiteralLines
import Mathlib.Data.List.Induction

/-!
# Laying out code again

Layout takes the blanks off the ends of a line before it indents it, so that
lines which are laid out stay as they are. The code as a whole does not: the
line feeds at its ends are dropped first, and then a blank line that comes to
stand there is laid out as a line feed again.

* `layout_layout`: laying out code again drops the line feeds at its ends and
  does nothing else.
* `layout_again` says of all code when it begins and ends with a line feed, and
  when it is stable.
* `blank_line_ends_code` is code with a blank last line.
-/

namespace Graft

namespace Text

theorem head?_trimChar (c : Char) (t : Text) : (trimChar c t).head? ≠ some c := by
  rw [trimChar, List.head?_reverse]
  intro h
  have hlast : (t.dropWhile (· == c)).reverse.getLast? = some c := by
    obtain ⟨front, hfront⟩ :=
      List.dropWhile_suffix (l := (t.dropWhile (· == c)).reverse) (· == c)
    rw [← hfront, List.getLast?_append, h, Option.some_or]
  rw [List.getLast?_reverse] at hlast
  have hhead := List.head?_dropWhile_not (· == c) t
  rw [hlast] at hhead
  simp at hhead

/-- A text that neither begins nor ends with a character is left as it is when
that character is stripped. -/
theorem trimChar_eq_self_iff {c : Char} {t : Text} :
    trimChar c t = t ↔ t.head? ≠ some c ∧ t.getLast? ≠ some c := by
  have hkept : ∀ {s : Text}, s.head? ≠ some c → s.dropWhile (· == c) = s := by
    intro s hs
    cases s with
    | nil => rfl
    | cons d rest => exact List.dropWhile_cons_of_neg (by simpa using hs)
  constructor
  · intro h
    rw [← h]
    exact ⟨head?_trimChar c t, getLast?_trimChar c t⟩
  · rintro ⟨hhead, hlast⟩
    rw [trimChar, hkept hhead, hkept (by rwa [List.head?_reverse]),
      List.reverse_reverse]

theorem splitOn_cons_self (sep : Char) (t : Text) :
    splitOn sep (sep :: t) = [] :: splitOn sep t := by
  rw [splitOn, splitBy, if_pos (beq_self_eq_true sep), splitOn]

theorem splitOn_append_cons (sep : Char) (s t : Text) :
    splitOn sep (s ++ sep :: t) = splitOn sep s ++ splitOn sep t := by
  rw [splitOn_eq, splitOn_eq, splitOn_eq, List.splitOn_append_cons_self]

theorem splitOn_of_notMem {sep : Char} {t : Text} (h : sep ∉ t) :
    splitOn sep t = [t] := by
  rw [splitOn_eq, List.splitOn_eq_singleton h]

theorem join_concat (sep : Char) {lines : List Text} (h : lines ≠ []) (last : Text) :
    join [sep] (lines ++ [last]) = join [sep] lines ++ sep :: last := by
  induction lines with
  | nil => exact absurd rfl h
  | cons line rest ih =>
    cases rest with
    | nil => simp [join, List.intercalate]
    | cons next rest =>
      rw [List.cons_append, join_cons sep line (by simp), ih (List.cons_ne_nil _ _),
        join_cons_cons sep line next rest]
      simp

end Text

namespace Code

open Text

variable {style : Style} {depth : Nat}

/-! ## Lines -/

theorem layoutLine_of_blank (state : LayoutState) {raw : Text}
    (h : isBlank raw = true) :
    layoutLine style depth state raw = (state, []) := by
  rw [layoutLine, (trim_eq_nil_iff raw).mpr h]
  rfl

/-- A line is laid out as an empty line exactly if it is blank. -/
theorem layoutLine_eq_nil_iff (style : Style) (depth : Nat) (state : LayoutState)
    (raw : Text) :
    (layoutLine style depth state raw).2 = [] ↔ isBlank raw = true := by
  constructor
  · intro h
    obtain ⟨a, -, heq⟩ := layoutLine_eq style depth state raw
    rw [h] at heq
    exact (trim_eq_nil_iff raw).mp (List.append_eq_nil_iff.mp heq.symm).2
  · intro h
    rw [layoutLine_of_blank state h]

/-- **Lines that are laid out stay as they are.** -/
theorem layoutLines_layoutLines (state : LayoutState) (lines : List Text) :
    layoutLines style depth state (layoutLines style depth state lines) =
      layoutLines style depth state lines :=
  layoutLines_congr (map_trim_layoutLines style depth state lines) style depth state

/-! ## Texts -/

/-- The lines of a text are laid out. -/
def IsInLayout (style : Style) (depth : Nat) (t : Text) : Prop :=
  layoutLines style depth {} (splitOn '\n' t) = splitOn '\n' t

theorem isInLayout_layout (style : Style) (depth : Nat) (t : Text) :
    IsInLayout style depth (layout style depth t) := by
  rw [IsInLayout, splitOn_layout, layoutLines_layoutLines]

namespace IsInLayout

theorem of_cons_break {t : Text} (h : IsInLayout style depth ('\n' :: t)) :
    IsInLayout style depth t := by
  rw [IsInLayout, splitOn_cons_self, layoutLines_cons,
    layoutLine_of_blank {} isBlank_nil] at h
  exact (List.cons.inj h).2

theorem of_concat_break {t : Text} (h : IsInLayout style depth (t ++ ['\n'])) :
    IsInLayout style depth t := by
  rw [IsInLayout, splitOn_append_cons] at h
  obtain ⟨state, hconcat⟩ := layoutLines_append style depth {} (splitOn '\n' t) [[]]
  exact (List.append_inj' (hconcat.symm.trans h) rfl).1

/-- Without the line feeds at its ends, a text that is laid out is
still laid out. -/
theorem trimChar {t : Text} (h : IsInLayout style depth t) :
    IsInLayout style depth (Text.trimChar '\n' t) := by
  obtain ⟨a, b, ha, hb, heq⟩ := exists_trimChar t
  rw [heq] at h
  generalize Text.trimChar '\n' t = s at h
  have hfront : IsInLayout style depth (s ++ b) := by
    clear heq
    induction a with
    | nil => exact h
    | cons c a ih =>
      rw [List.all_cons, Bool.and_eq_true, beq_iff_eq] at ha
      obtain ⟨rfl, ha⟩ := ha
      exact ih ha h.of_cons_break
  clear h heq
  induction b using List.reverseRecOn with
  | nil => rwa [List.append_nil] at hfront
  | append_singleton b c ih =>
    rw [List.all_append, Bool.and_eq_true, List.all_cons, Bool.and_eq_true,
      beq_iff_eq] at hb
    obtain ⟨hb, rfl, -⟩ := hb
    rw [← List.append_assoc] at hfront
    exact ih hb hfront.of_concat_break

theorem layout_eq {t : Text} (h : IsInLayout style depth t) :
    layout style depth t = Text.trimChar '\n' t := by
  have hlines : layoutLines style depth {} (splitOn '\n' (Text.trimChar '\n' t)) =
      splitOn '\n' (Text.trimChar '\n' t) := h.trimChar
  rw [Code.layout_eq, hlines, join_splitOn]

end IsInLayout

/-- Laying out code again drops the line feeds at its ends. -/
theorem layout_layout (style : Style) (depth : Nat) (t : Text) :
    layout style depth (layout style depth t) = trimChar '\n' (layout style depth t) :=
  (isInLayout_layout style depth t).layout_eq

/-! ## The ends of code -/

/-- Without the line feeds at its ends, code begins with a blank line. -/
def BeginsBlank (t : Text) : Prop :=
  ∃ first rest, trimChar '\n' t = first ++ '\n' :: rest ∧ isBlank first = true

/-- Without the line feeds at its ends, code ends with a blank line. -/
def EndsBlank (t : Text) : Prop :=
  ∃ front last, trimChar '\n' t = front ++ '\n' :: last ∧ isBlank last = true

theorem beginsBlank_iff {t first rest : Text}
    (h : trimChar '\n' t = first ++ '\n' :: rest) (hfirst : '\n' ∉ first) :
    BeginsBlank t ↔ isBlank first = true := by
  constructor
  · rintro ⟨blank, rest', heq, hblank⟩
    rw [h] at heq
    rcases List.append_eq_append_iff.mp heq with ⟨more, rfl, -⟩ | ⟨more, rfl, hmore⟩
    · rw [isBlank_append, Bool.and_eq_true] at hblank
      exact hblank.1
    · cases more with
      | nil => rwa [List.append_nil]
      | cons c more =>
        obtain ⟨rfl, -⟩ := List.cons.inj hmore
        simp at hfirst
  · exact fun hblank => ⟨first, rest, h, hblank⟩

theorem endsBlank_iff {t front last : Text}
    (h : trimChar '\n' t = front ++ '\n' :: last) (hlast : '\n' ∉ last) :
    EndsBlank t ↔ isBlank last = true := by
  constructor
  · rintro ⟨front', blank, heq, hblank⟩
    rw [h] at heq
    rcases List.append_eq_append_iff.mp heq with ⟨more, rfl, hmore⟩ | ⟨more, rfl, hmore⟩
    · cases more with
      | nil => rwa [(List.cons.inj hmore).2]
      | cons c more =>
        rw [(List.cons.inj hmore).2] at hlast
        simp at hlast
    · cases more with
      | nil => rwa [← (List.cons.inj hmore).2]
      | cons c more =>
        obtain rfl : blank = more ++ '\n' :: last := (List.cons.inj hmore).2
        rw [isBlank_append, isBlank_cons, Bool.and_eq_true, Bool.and_eq_true] at hblank
        exact hblank.2.2
  · exact fun hblank => ⟨front, last, h, hblank⟩

/-- Code of a single line is laid out without a line feed. -/
theorem no_break_layout {t : Text} (h : '\n' ∉ trimChar '\n' t) :
    '\n' ∉ layout style depth t := by
  rw [layout_eq, splitOn_of_notMem h]
  have hline : '\n' ∉ (layoutLine style depth {} (trimChar '\n' t)).2 :=
    no_break_layoutLine style depth {} (not_mem_trim h)
  simpa [layoutLines, join, List.intercalate] using hline

theorem head?_layout (style : Style) (depth : Nat) (t : Text) :
    (layout style depth t).head? = some '\n' ↔ BeginsBlank t := by
  by_cases hbreak : '\n' ∈ trimChar '\n' t
  · obtain ⟨first, rest, hcut, hfirst⟩ := List.eq_append_cons_of_mem hbreak
    rw [beginsBlank_iff hcut hfirst, layout_eq, hcut, splitOn_append_cons,
      splitOn_of_notMem hfirst, List.singleton_append, layoutLines_cons,
      join_cons _ _ (layoutLines_ne_nil _ _ _ (splitOn_ne_nil _ _)),
      ← layoutLine_eq_nil_iff style depth {} first]
    have hline := no_break_layoutLine style depth {} (not_mem_trim hfirst)
    generalize (layoutLine style depth {} first).2 = line at hline ⊢
    cases line with
    | nil => simp
    | cons c line =>
      rw [List.mem_cons, not_or] at hline
      simpa using Ne.symm hline.1
  · constructor
    · intro hhead
      exact absurd (List.mem_of_head? hhead) (no_break_layout hbreak)
    · rintro ⟨first, rest, hcut, -⟩
      simp [hcut] at hbreak

theorem getLast?_layout (style : Style) (depth : Nat) (t : Text) :
    (layout style depth t).getLast? = some '\n' ↔ EndsBlank t := by
  -- with a line break the last line decides, without one nothing can end in a
  -- break
  by_cases hbreak : '\n' ∈ trimChar '\n' t
  · obtain ⟨last, front, hreverse, hlast⟩ :=
      List.eq_append_cons_of_mem (List.mem_reverse.mpr hbreak)
    have hcut : trimChar '\n' t = front.reverse ++ '\n' :: last.reverse := by
      simpa using congrArg List.reverse hreverse
    rw [← List.mem_reverse] at hlast
    obtain ⟨state, hconcat⟩ :=
      layoutLines_append style depth {} (splitOn '\n' front.reverse)
        [last.reverse]
    rw [endsBlank_iff hcut hlast, layout_eq, hcut, splitOn_append_cons,
      splitOn_of_notMem hlast, hconcat, layoutLines_cons, layoutLines,
      join_concat _ (layoutLines_ne_nil _ _ _ (splitOn_ne_nil _ _)),
      ← layoutLine_eq_nil_iff style depth state last.reverse]
    have hline := no_break_layoutLine style depth state (not_mem_trim hlast)
    generalize (layoutLine style depth state last.reverse).2 = line at hline ⊢
    rw [List.getLast?_append, List.getLast?_cons]
    cases hend : line.getLast? with
    | none => simp [List.getLast?_eq_none_iff.mp hend]
    | some c =>
      have hmem := List.mem_of_getLast? hend
      have hc : c ≠ '\n' := fun heq => hline (heq ▸ hmem)
      simpa [hc] using List.ne_nil_of_mem hmem
  · constructor
    · intro hend
      exact absurd (List.mem_of_getLast? hend) (no_break_layout hbreak)
    · rintro ⟨front, last, hcut, -⟩
      simp [hcut] at hbreak

/-- **Laying out code again** changes nothing but the line feeds at its
ends, which it drops. They stand where the code, without the line feeds at
its own ends, begins or ends with a blank line, so that code without such a
line is stable. -/
theorem layout_again (style : Style) (depth : Nat) (t : Text) :
    layout style depth (layout style depth t) = trimChar '\n' (layout style depth t) ∧
      ((layout style depth t).head? = some '\n' ↔ BeginsBlank t) ∧
      ((layout style depth t).getLast? = some '\n' ↔ EndsBlank t) ∧
      (layout style depth (layout style depth t) = layout style depth t ↔
        ¬ BeginsBlank t ∧ ¬ EndsBlank t) := by
  have hagain := layout_layout style depth t
  have hhead := head?_layout style depth t
  have hlast := getLast?_layout style depth t
  refine ⟨hagain, hhead, hlast, ?_⟩
  rw [hagain, trimChar_eq_self_iff, ne_eq, hhead, ne_eq, hlast]

/-- **A blank line at the end of code** is laid out as a line feed, which goes
when the code is laid out again. -/
theorem blank_line_ends_code :
    layout {} 0 "int a;\n   " = "int a;\n".toList ∧
      layout {} 0 (layout {} 0 "int a;\n   ") = "int a;".toList := by
  decide

end Code

end Graft
