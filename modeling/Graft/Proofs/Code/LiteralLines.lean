import Mathlib.Data.List.Forall2
import Graft.Proofs.Code.Layout
import Graft.Proofs.Text.Slice
import Graft.Proofs.Text.Words

/-!
# Literals that go over line breaks

A text block, or a literal that is left open, goes on over the end of its line,
and the blanks at the ends of the lines inside it belong to it. Layout changes
these blanks like any others.

* `Mode.significant_eq_iff` compares two texts whose lines are equal but for the
  blanks at their ends: the same is significant in both exactly when these
  blanks agree wherever a line starts or ends inside a literal
  (`Mode.SameInLiterals`).
* `normalize_layout_iff` says of all code and every style when layout keeps the
  normalized code.
* `layout_changes_text_block` is code that layout changes.
-/

namespace Graft

namespace Text

/-! ## Lines and the blanks at their ends -/

theorem not_mem_trim {c : Char} {line : Text} (h : c ∉ line) : c ∉ trim line := by
  obtain ⟨a, b, -, -, hparts⟩ := exists_trim line
  intro hc
  apply h
  rw [hparts]
  simp [hc]

/-- Trimmed, the lines of a text are the same with and without their breaks. -/
theorem map_trim_fullLines {t : Text} (hne : t ≠ []) (hlast : t.getLast? ≠ some '\n') :
    (fullLines t).map trim = (splitOn '\n' t).map trim := by
  -- a full line is a piece between line breaks, with its break or without
  have hlines : List.Forall₂ (fun line piece => line = piece ∨ line = piece ++ ['\n'])
      (fullLines t) (splitOn '\n' t) := by
    unfold splitOn
    induction t with
    | nil => exact absurd rfl hne
    | cons c rest ih =>
      rw [fullLines_cons, splitBy]
      cases rest with
      | nil =>
        have hc : c ≠ '\n' := by simpa using hlast
        simp [fullLines, splitBy, hc]
      | cons d rest =>
        rw [List.getLast?_cons_cons] at hlast
        have hall := ih (List.cons_ne_nil d rest) hlast
        split
        · next hc =>
          rw [eq_of_beq hc]
          exact .cons (.inr rfl) hall
        · revert hall
          cases fullLines (d :: rest) <;>
            cases splitBy (· == '\n') (d :: rest) <;> intro hall
          · exact .cons (.inl rfl) .nil
          · cases hall
          · cases hall
          · obtain ⟨hline, hmore⟩ := List.forall₂_cons.mp hall
            refine .cons ?_ hmore
            rcases hline with rfl | rfl
            · exact .inl rfl
            · exact .inr rfl
  have hbreak : isBlank ['\n'] = true := by decide
  clear hne hlast
  generalize fullLines t = lines, splitOn '\n' t = pieces at hlines ⊢
  induction hlines with
  | nil => rfl
  | cons hline _ ih =>
    rw [List.map_cons, List.map_cons, ih]
    rcases hline with rfl | rfl
    · rfl
    · rw [trim_append_right hbreak]

theorem getLast?_trimChar (c : Char) (t : Text) : (trimChar c t).getLast? ≠ some c := by
  rw [trimChar, List.getLast?_reverse]
  intro h
  have hhead := List.head?_dropWhile_not (· == c) (t.dropWhile (· == c)).reverse
  rw [h] at hhead
  simp at hhead

/-- Line breaks at the end of a text are seen at its end. -/
theorem getLast?_append_breaks {s b : Text} (hs : s.getLast? ≠ some '\n')
    (hb : b.all (· == '\n') = true) : b = [] ↔ (s ++ b).getLast? ≠ some '\n' := by
  rw [List.getLast?_append]
  cases hlast : b.getLast? with
  | none => simpa [List.getLast?_eq_none_iff.mp hlast] using hs
  | some c =>
    have hc : c = '\n' :=
      eq_of_beq (List.all_eq_true.mp hb c (List.mem_of_getLast? hlast))
    have hne : b ≠ [] := by
      rintro rfl
      cases hlast
    simp [hc, hne]

/-- The blanks that a line begins with. -/
def leadingBlanks (line : Text) : Text := line.takeWhile Char.isBlank

/-- The blanks that a line ends with. -/
def trailingBlanks (line : Text) : Text := (leadingBlanks line.reverse).reverse

theorem isBlank_leadingBlanks (line : Text) : isBlank (leadingBlanks line) = true :=
  isBlank_takeWhile line

theorem subset_trailingBlanks (line : Text) : trailingBlanks line ⊆ line := by
  intro c hc
  rw [trailingBlanks, List.mem_reverse] at hc
  exact List.mem_reverse.mp ((List.takeWhile_sublist _).subset hc)

theorem isBlank_trailingBlanks (line : Text) :
    isBlank (trailingBlanks line) = true := by
  rw [trailingBlanks, isBlank_reverse]
  exact isBlank_leadingBlanks line.reverse

theorem leadingBlanks_of_blank {line : Text} (h : isBlank line = true) :
    leadingBlanks line = line := by
  have htake : (line ++ []).takeWhile Char.isBlank =
      line ++ [].takeWhile Char.isBlank :=
    List.takeWhile_append_of_pos (List.all_eq_true.mp h)
  rwa [List.append_nil, List.takeWhile_nil, List.append_nil] at htake

theorem trailingBlanks_of_blank {line : Text} (h : isBlank line = true) :
    trailingBlanks line = line := by
  rw [trailingBlanks, leadingBlanks_of_blank (by rwa [isBlank_reverse]),
    List.reverse_reverse]

/-- Behind something solid, what follows does not count as
blanks at the start. -/
theorem leadingBlanks_append {t : Text} (h : isBlank t = false) (u : Text) :
    leadingBlanks (t ++ u) = leadingBlanks t := by
  have hlt : ¬ (t.takeWhile Char.isBlank).length = t.length := by
    intro hlen
    have hall := (List.takeWhile_prefix Char.isBlank).eq_of_length hlen
    rw [← hall, isBlank_takeWhile] at h
    cases h
  rw [leadingBlanks, List.takeWhile_append, if_neg hlt, leadingBlanks]

/-- A line that is not blank is its trimmed form between the
blanks at its ends. -/
theorem blanks_around {line : Text} (h : isBlank line = false) :
    line = leadingBlanks line ++ (trim line ++ trailingBlanks line) := by
  have hstart : line = leadingBlanks line ++ trimStart line :=
    List.takeWhile_append_dropWhile.symm
  have hsolid : isBlank (trimStart line).reverse = false := by
    rw [hstart, isBlank_append, isBlank_leadingBlanks, Bool.true_and] at h
    rw [isBlank_reverse, h]
  have htrailing : trailingBlanks line =
      (leadingBlanks (trimStart line).reverse).reverse := by
    rw [trailingBlanks, congrArg List.reverse hstart, List.reverse_append,
      leadingBlanks_append hsolid]
  have hend : trimStart line = trim line ++ trailingBlanks line := by
    have hsplit := List.takeWhile_append_dropWhile (p := Char.isBlank)
      (l := (trimStart line).reverse)
    rw [htrailing, trim, trimEnd, ← List.reverse_append, leadingBlanks, hsplit,
      List.reverse_reverse]
  rw [← hend]
  exact hstart

theorem all_of_no_break {t : Text} (h : '\n' ∉ t) : t.all (· != '\n') = true := by
  rw [List.all_eq_true]
  intro c hc
  have hne : c ≠ '\n' := fun heq => h (heq ▸ hc)
  simpa using hne

end Text

namespace Code

namespace Mode

open Text

/-! ## One line -/

/-- A mode that a line can start in, literals included: one that a line break
leaves as it is. -/
def IsFresh (m : Mode) : Prop := m.IsProper ∧ m.next '\n' = m

theorem isFresh_code : Mode.code.IsFresh := ⟨trivial, rfl⟩

theorem IsProper.isFresh_next_break {m : Mode} (h : m.IsProper) :
    (m.next '\n').IsFresh := by
  refine ⟨h.next '\n', ?_⟩
  cases m with
  | code => rfl
  | slash => rfl
  | lineComment => rfl
  | blockComment star => cases star <;> rfl
  | literal quote escaped =>
    have hquote : '\n' ≠ quote := by
      rcases h with rfl | rfl <;> decide
    have hback : '\n' ≠ '\\' := by decide
    cases escaped <;> simp [Mode.next, hquote, hback]

theorem IsFresh.isLineStart {m : Mode} (h : m.IsFresh) (hcode : m.inLiteral = false) :
    m.IsLineStart := by
  rw [← h.2]
  exact isLineStart_next_break hcode

/-- Inside a literal, a reader takes every blank as it takes a line break. -/
theorem next_blank {m : Mode} (h : m.IsProper) (hlit : m.inLiteral = true) {c : Char}
    (hc : Char.isBlank c = true) : m.next c = m.next '\n' := by
  cases m with
  | literal quote escaped =>
    have hback : c ≠ '\\' := ne_of_blank hc (by decide)
    have hquote : c ≠ quote ∧ '\n' ≠ quote := by
      rcases h with rfl | rfl
      · exact ⟨ne_of_blank hc (by decide), by decide⟩
      · exact ⟨ne_of_blank hc (by decide), by decide⟩
    cases escaped <;> simp [next, hback, hquote]
  | _ => cases hlit

theorem emit_literal {m : Mode} (h : m.inLiteral = true) (c : Char) :
    m.emit c = [c] := by
  cases m with
  | literal quote escaped => rfl
  | _ => cases h

theorem close_literal {m : Mode} (h : m.inLiteral = true) : m.close = [] := by
  cases m with
  | literal quote escaped => rfl
  | _ => cases h

/-- Blanks inside a literal belong to it. -/
theorem blanks_in_literal {m : Mode} (h : m.IsProper) (hlit : m.inLiteral = true)
    {b : Text} (hb : isBlank b = true) :
    (m.after b).next '\n' = m.next '\n' ∧ m.emitted b = b := by
  induction b generalizing m with
  | nil => exact ⟨rfl, rfl⟩
  | cons c rest ih =>
    rw [isBlank_cons, Bool.and_eq_true] at hb
    have hnext : m.next c = m.next '\n' := next_blank h hlit hb.1
    have hgoes : (m.next c).inLiteral = true := by
      have hblank : isBlank [c] = true := by simp [hb.1]
      rw [← hlit, ← inLiteral_after_blank h hblank, after_cons, after_nil]
    obtain ⟨hbreak, hemitted⟩ := ih (h.next c) hgoes hb.2
    rw [after_cons, emitted_cons, hbreak, hemitted, emit_literal hlit, hnext]
    exact ⟨h.isFresh_next_break.2, rfl⟩

/-- What of some blanks is significant: all of them inside a literal,
none elsewhere. -/
def kept (m : Mode) (blanks : Text) : Text := if m.inLiteral then blanks else []

theorem kept_eq_nil_iff {m : Mode} {b : Text} :
    m.kept b = [] ↔ (m.inLiteral = true → b = []) := by
  unfold kept
  split <;> simp_all

theorem kept_subset (m : Mode) (b : Text) : m.kept b ⊆ b := by
  unfold kept
  split
  · exact List.Subset.refl b
  · exact List.nil_subset b

/-- Blanks at the start of a line leave the mode as it is. -/
theorem blanks_before {m : Mode} (h : m.IsFresh) {a : Text} (ha : isBlank a = true) :
    m.after a = m ∧ m.emitted a = m.kept a := by
  unfold kept
  cases hlit : m.inLiteral with
  | false => exact blank_at_start (h.isLineStart hlit) ha
  | true =>
    refine ⟨?_, (blanks_in_literal h.1 hlit ha).2⟩
    induction a with
    | nil => rfl
    | cons c rest ih =>
      rw [isBlank_cons, Bool.and_eq_true] at ha
      rw [after_cons, next_blank h.1 hlit ha.1, h.2]
      exact ih ha.2

/-- Blanks at the end of a line leave the mode of the next line as it is. -/
theorem blanks_behind {m : Mode} (h : m.IsProper) {b : Text} (hb : isBlank b = true) :
    (m.after b).next '\n' = m.next '\n' ∧ m.significant b = m.close ++ m.kept b := by
  unfold kept
  cases hlit : m.inLiteral with
  | false =>
    obtain ⟨hnext, hsignificant⟩ := blank_at_end hlit hb
    exact ⟨hnext, by simpa using hsignificant⟩
  | true =>
    obtain ⟨hnext, hemitted⟩ := blanks_in_literal h hlit hb
    have hafter : (m.after b).inLiteral =
        true := by rw [inLiteral_after_blank h hb, hlit]
    refine ⟨hnext, ?_⟩
    rw [significant_eq, hemitted, close_literal hafter, close_literal hlit]
    simp

/-- The blanks at its ends do not change how the line behind a line is read. -/
theorem after_line {m : Mode} (h : m.IsFresh) (line : Text) :
    (m.after line).inLiteral = (m.after (trim line)).inLiteral ∧
      (m.after line).next '\n' = (m.after (trim line)).next '\n' := by
  obtain ⟨a, b, ha, hb, heq⟩ := exists_trim line
  have hproper : (m.after (trim line)).IsProper := h.1.after _
  have hafter : m.after line = (m.after (trim line)).after b := by
    rw [congrArg m.after heq, after_append, after_append, (blanks_before h ha).1]
  rw [hafter]
  exact ⟨inLiteral_after_blank hproper hb, (blanks_behind hproper hb).1⟩

theorem after_line_congr {m : Mode} (h : m.IsFresh) {line line' : Text}
    (htrim : trim line = trim line') :
    (m.after line').inLiteral = (m.after line).inLiteral ∧
      (m.after line').next '\n' = (m.after line).next '\n' := by
  obtain ⟨hlit, hnext⟩ := after_line h line
  obtain ⟨hlit', hnext'⟩ := after_line h line'
  rw [hlit, hlit', hnext, hnext', htrim]
  exact ⟨rfl, rfl⟩

/-- A line holds what it holds when trimmed, and the blanks of
literals at its ends. -/
theorem significant_line {m : Mode} (h : m.IsFresh) {line : Text}
    (hsolid : isBlank line = false) :
    m.significant line = m.kept (leadingBlanks line) ++
      (m.significant (trim line) ++ (m.after line).kept (trailingBlanks line)) := by
  have hproper : (m.after (trim line)).IsProper := h.1.after _
  obtain ⟨hafter, hemitted⟩ := blanks_before h (isBlank_leadingBlanks line)
  have hbehind := (blanks_behind hproper (isBlank_trailingBlanks line)).2
  have hkept : (m.after (trim line)).kept (trailingBlanks line) =
      (m.after line).kept (trailingBlanks line) := by
    rw [kept, kept, (after_line h line).1]
  rw [congrArg m.significant (blanks_around hsolid), significant_append, hafter,
    hemitted, significant_append, hbehind, hkept, significant_eq m (trim line),
    List.append_assoc]

/-- Lines agree in the blanks at their ends that belong to literals. -/
def SameLine (m : Mode) (line line' : Text) : Prop :=
  (m.inLiteral = true → leadingBlanks line = leadingBlanks line') ∧
    ((m.after line).inLiteral = true → trailingBlanks line = trailingBlanks line')

instance (m : Mode) (line line' : Text) : Decidable (m.SameLine line line') :=
  inferInstanceAs (Decidable (_ ∧ _))

theorem kept_inj {m : Mode} {p : Char → Bool} {a a' x x' : Text} (ha : a.all p = true)
    (ha' : a'.all p = true) (hx : m.inLiteral = true → ∀ c ∈ x.head?, p c = false)
    (hx' : m.inLiteral = true → ∀ c ∈ x'.head?, p c = false) :
    m.kept a ++ x = m.kept a' ++ x' ↔ (m.inLiteral = true → a = a') ∧ x = x' := by
  unfold kept
  cases hlit : m.inLiteral with
  | false => simp
  | true => simpa using front_inj ha ha' (hx hlit) (hx' hlit)

theorem kept_inj_break {m : Mode} {a a' x x' : Text} (ha : '\n' ∉ a) (ha' : '\n' ∉ a')
    (hx : m.inLiteral = true → ∀ c ∈ x.head?, c = '\n')
    (hx' : m.inLiteral = true → ∀ c ∈ x'.head?, c = '\n') :
    m.kept a ++ x = m.kept a' ++ x' ↔ (m.inLiteral = true → a = a') ∧ x = x' := by
  apply kept_inj (all_of_no_break ha) (all_of_no_break ha')
  · intro hlit c hc
    simp [hx hlit c hc]
  · intro hlit c hc
    simp [hx' hlit c hc]

/-- What a line holds inside a literal begins with its first solid character. -/
theorem head?_significant_trim {m : Mode} (hlit : m.inLiteral = true) {line : Text}
    (hsolid : isBlank line = false) (x : Text) :
    ∀ c ∈ (m.significant (trim line) ++ x).head?, Char.isBlank c = false := by
  cases ht : trim line with
  | nil =>
    rw [(trim_eq_nil_iff line).mp ht] at hsolid
    cases hsolid
  | cons d rest =>
    rw [significant, emit_literal hlit]
    intro c hc
    obtain rfl : d = c := by simpa using hc
    exact head_trimStart (by rw [trimStart_trim, ht])

theorem significant_blank_inj {m : Mode} (h : m.IsFresh) {line line' x x' : Text}
    (hblank : isBlank line = true) (hblank' : isBlank line' = true)
    (hline : '\n' ∉ line) (hline' : '\n' ∉ line')
    (hx : m.inLiteral = true → ∀ c ∈ x.head?, c = '\n')
    (hx' : m.inLiteral = true → ∀ c ∈ x'.head?, c = '\n') :
    m.significant line ++ x = m.significant line' ++ x' ↔
      m.SameLine line line' ∧ x = x' := by
  have hclose : m.close = [] := by
    cases hlit : m.inLiteral with
    | false => exact (h.isLineStart hlit).close
    | true => exact close_literal hlit
  have hsame : m.SameLine line line' ↔ (m.inLiteral = true → line = line') := by
    rw [SameLine, (blanks_before h hblank).1, leadingBlanks_of_blank hblank,
      leadingBlanks_of_blank hblank', trailingBlanks_of_blank hblank,
      trailingBlanks_of_blank hblank', and_self]
  rw [(blanks_behind h.1 hblank).2, (blanks_behind h.1 hblank').2, hclose,
    List.nil_append, List.nil_append, hsame]
  exact kept_inj_break hline hline' hx hx'

/-- **One line.** Lines that are equal but for the blanks at their ends hold
the same exactly when those blanks agree that belong to literals. What follows
them may not hide a difference: behind a line that ends inside a literal
stands its break. -/
theorem significant_line_inj {m : Mode} (h : m.IsFresh) {line line' x x' : Text}
    (htrim : trim line = trim line') (hline : '\n' ∉ line) (hline' : '\n' ∉ line')
    (hx : (m.after line).inLiteral = true → ∀ c ∈ x.head?, c = '\n')
    (hx' : (m.after line).inLiteral = true → ∀ c ∈ x'.head?, c = '\n') :
    m.significant line ++ x = m.significant line' ++ x' ↔
      m.SameLine line line' ∧ x = x' := by
  have hsolid' : isBlank line' = isBlank line := by
    rw [Bool.eq_iff_iff, ← trim_eq_nil_iff, ← trim_eq_nil_iff, htrim]
  cases hsolid : isBlank line with
  | true =>
    rw [hsolid] at hsolid'
    rw [(blanks_before h hsolid).1] at hx hx'
    exact significant_blank_inj h hsolid hsolid' hline hline' hx hx'
  | false =>
    rw [hsolid] at hsolid'
    have hkept : (m.after line').kept (trailingBlanks line') =
        (m.after line).kept (trailingBlanks line') := by
      rw [kept, kept, (after_line_congr h htrim).1]
    have hends : ∀ {t : Text}, '\n' ∉ t → '\n' ∉ trailingBlanks t :=
      fun ht hc => ht (subset_trailingBlanks _ hc)
    -- the blanks in front come to an end with the first solid character, those
    -- behind with the break
    rw [significant_line h hsolid, significant_line h hsolid', hkept, ← htrim]
    simp only [List.append_assoc]
    rw [kept_inj (isBlank_leadingBlanks line) (isBlank_leadingBlanks line')
      (fun hlit => head?_significant_trim hlit hsolid _)
        (fun hlit => head?_significant_trim hlit hsolid _),
        List.append_cancel_left_eq,
        kept_inj_break (hends hline) (hends hline') hx hx', SameLine, and_assoc]

/-! ## Many lines -/

/-- What a line leaves for the text behind its break. -/
theorem significant_break (m : Mode) (line x : Text) :
    m.significant (line ++ '\n' :: x) =
    m.significant line ++
      ((m.after line).kept ['\n'] ++ ((m.after line).next '\n').significant x) := by
  rw [significant_append, significant, significant_eq m line, List.append_assoc]
  unfold kept
  cases hlit : (m.after line).inLiteral with
  | false =>
    rw [emit_break hlit]
    simp
  | true =>
    rw [emit_literal hlit, close_literal hlit]
    simp

/-- Lines agree, one by one, in the blanks at their ends that
belong to literals. -/
def SameInLiterals : Mode → List Text → List Text → Prop
  | _, [], [] => True
  | m, line :: rest, line' :: rest' =>
    m.SameLine line line' ∧ SameInLiterals ((m.after line).next '\n') rest rest'
  | _, _, _ => False

instance decidableSameInLiterals :
    (m : Mode) → (lines lines' : List Text) → Decidable (m.SameInLiterals lines lines')
  | _, [], [] => .isTrue trivial
  | m, line :: rest, _ :: rest' =>
    have := decidableSameInLiterals ((m.after line).next '\n') rest rest'
    inferInstanceAs (Decidable (_ ∧ _))
  | _, [], _ :: _ => .isFalse id
  | _, _ :: _, [] => .isFalse id

/-- **Many lines.** From line to line, the mode is the same in both texts; `x`
stands for the line breaks that one of them may have at its end. -/
theorem significant_lines_iff {m : Mode} (h : m.IsFresh) {lines lines' : List Text}
    (htrim : lines.map trim = lines'.map trim) (hlines : ∀ line ∈ lines, '\n' ∉ line)
    (hlines' : ∀ line ∈ lines', '\n' ∉ line) (hne : lines ≠ []) {x : Text}
    (hx : ∀ c ∈ x.head?, c = '\n') :
    m.significant (join ['\n'] lines) ++ x = m.significant (join ['\n'] lines') ↔
      m.SameInLiterals lines lines' ∧ x = [] := by
  -- line by line; `x` is what one side has behind its last line
  induction lines generalizing m lines' with
  | nil => exact absurd rfl hne
  | cons line rest ih =>
    cases lines' with
    | nil => cases htrim
    | cons line' rest' =>
      rw [List.map_cons, List.map_cons, List.cons.injEq] at htrim
      have hline := hlines line List.mem_cons_self
      have hline' := hlines' line' List.mem_cons_self
      cases rest with
      | nil =>
        obtain rfl : rest' = [] := by simpa using htrim.2.symm
        have hinj : m.significant line ++ x = m.significant line' ++ [] ↔
            m.SameLine line line' ∧ x = [] :=
          significant_line_inj h htrim.1 hline hline' (fun _ => hx)
            (fun _ c hc => by cases hc)
        rw [List.append_nil] at hinj
        simpa [join, List.intercalate, SameInLiterals] using hinj
      | cons second rest =>
        cases rest' with
        | nil => cases htrim.2
        | cons second' rest' =>
          obtain ⟨hlit, hnext⟩ := after_line_congr h htrim.1
          have hkept : (m.after line').kept ['\n'] = (m.after line).kept ['\n'] := by
            rw [kept, kept, hlit]
          have hfirst : ∀ y : Text, (m.after line).inLiteral = true →
              ∀ c ∈ ((m.after line).kept ['\n'] ++ y).head?, c = '\n' := by
            intro y hlit c hc
            rw [kept, hlit] at hc
            simpa using hc.symm
          have hrest := ih (h.1.after line).isFresh_next_break htrim.2
            (List.forall_mem_of_forall_mem_cons hlines)
              (List.forall_mem_of_forall_mem_cons hlines')
            (List.cons_ne_nil _ _)
          rw [join_cons_cons, join_cons_cons, significant_break, significant_break,
            hkept, hnext, List.append_assoc, List.append_assoc,
            significant_line_inj h htrim.1 hline hline' (hfirst _) (hfirst _),
            List.append_cancel_left_eq, hrest]
          exact and_assoc.symm

/-- **Two texts whose lines are equal but for the blanks at their ends** hold
the same exactly when those blanks agree that belong to literals. -/
theorem significant_eq_iff {m : Mode} (h : m.IsFresh) {s t x : Text}
    (htrim : (splitOn '\n' s).map trim = (splitOn '\n' t).map trim)
    (hx : ∀ c ∈ x.head?, c = '\n') : m.significant s ++ x = m.significant t ↔
      m.SameInLiterals (splitOn '\n' s) (splitOn '\n' t) ∧ x = [] := by
  have hlines := significant_lines_iff h htrim (fun _ => not_mem_of_mem_splitOn)
    (fun _ => not_mem_of_mem_splitOn) (splitBy_ne_nil _ s) hx
  rwa [join_splitOn, join_splitOn] at hlines

end Mode

/-! ## Layout -/

theorem no_break_layoutLine (style : Style) (depth : Nat) (state : LayoutState)
    {raw : Text} (h : '\n' ∉ Text.trim raw) :
    '\n' ∉ (layoutLine style depth state raw).2 := by
  simp only [layoutLine]
  split
  · exact List.not_mem_nil
  · rw [List.mem_append, List.mem_append, not_or, not_or]
    refine ⟨⟨?_, ?_⟩, h⟩
    · intro hindent
      rcases Style.mem_indent hindent with hc | hc <;> cases hc
    · split <;> decide

theorem no_break_layoutLines (style : Style) (depth : Nat) (state : LayoutState)
    {lines : List Text} (h : ∀ line ∈ lines, '\n' ∉ Text.trim line) :
    ∀ line ∈ layoutLines style depth state lines, '\n' ∉ line := by
  induction lines generalizing state with
  | nil => simp [layoutLines]
  | cons raw rest ih =>
    rw [List.forall_mem_cons] at h
    rw [layoutLines, List.forall_mem_cons]
    exact ⟨no_break_layoutLine style depth state h.1, ih _ h.2⟩

theorem layoutLine_trim (style : Style) (depth : Nat) (state : LayoutState)
    (raw : Text) :
    layoutLine style depth state (Text.trim raw) =
      layoutLine style depth state raw := by
  simp only [layoutLine, Text.trim_trim]

theorem layoutLines_cons (style : Style) (depth : Nat) (state : LayoutState)
    (line : Text) (rest : List Text) : layoutLines style depth state (line :: rest) =
      (layoutLine style depth state line).2 ::
        layoutLines style depth (layoutLine style depth state line).1 rest := rfl

theorem layoutLines_map_trim (style : Style) (depth : Nat) (state : LayoutState)
    (lines : List Text) :
    layoutLines style depth state (lines.map Text.trim) =
      layoutLines style depth state lines := by
  induction lines generalizing state with
  | nil => rfl
  | cons line rest ih =>
    rw [List.map_cons, layoutLines_cons, layoutLines_cons, layoutLine_trim, ih]

/-- Blanks at the ends of lines do not show in their layout. -/
theorem layoutLines_congr {lines lines' : List Text}
    (h : lines.map Text.trim = lines'.map Text.trim) (style : Style) (depth : Nat)
    (state : LayoutState) :
    layoutLines style depth state lines = layoutLines style depth state lines' := by
  rw [← layoutLines_map_trim, h, layoutLines_map_trim]

theorem layoutLines_ne_nil (style : Style) (depth : Nat) (state : LayoutState)
    {lines : List Text} (h : lines ≠ []) :
    layoutLines style depth state lines ≠ [] := by
  obtain ⟨line, rest, rfl⟩ := List.exists_cons_of_ne_nil h
  exact List.cons_ne_nil _ _

/-- Layout is made line by line, from one line feed to the next. -/
theorem layout_eq (style : Style) (depth : Nat) (t : Text) : layout style depth t =
    Text.join ['\n']
      (layoutLines style depth {} (Text.splitOn '\n' (Text.trimChar '\n' t))) := by
  have hlast := Text.getLast?_trimChar '\n' t
  unfold layout
  generalize Text.trimChar '\n' t = s at hlast ⊢
  by_cases hne : s = []
  · subst hne
    rfl
  · have htrim : (Text.lines s).map Text.trim =
        (Text.splitOn '\n' s).map Text.trim := by
      rw [Text.map_trim_lines, Text.map_trim_fullLines hne hlast]
    rw [layoutLines_congr htrim]

/-- The lines of code that is laid out are the lines of the
code, each laid out. -/
theorem splitOn_layout (style : Style) (depth : Nat) (t : Text) :
    Text.splitOn '\n' (layout style depth t) =
      layoutLines style depth {} (Text.splitOn '\n' (Text.trimChar '\n' t)) := by
  rw [layout_eq]
  apply Text.splitOn_join
  · exact no_break_layoutLines style depth {} fun line hline =>
      Text.not_mem_trim (Text.not_mem_of_mem_splitOn hline)
  · exact layoutLines_ne_nil style depth {} (Text.splitOn_ne_nil _ _)

/-- Code that is laid out has the lines of the code, but for the
blanks at their ends. -/
theorem map_trim_layout (style : Style) (depth : Nat) (t : Text) :
    (Text.splitOn '\n' (Text.trimChar '\n' t)).map Text.trim =
      (Text.splitOn '\n' (layout style depth t)).map Text.trim := by
  rw [splitOn_layout, map_trim_layoutLines]

/-- Layout keeps what belongs to the literals of a code: the blanks at the
ends of lines, and the line breaks at the end of the code when a literal is
left open there. -/
def KeepsLiterals (style : Style) (depth : Nat) (t : Text) : Prop :=
  Mode.code.SameInLiterals (Text.splitOn '\n' (Text.trimChar '\n' t))
      (Text.splitOn '\n' (layout style depth t)) ∧
    ((Mode.code.after t).inLiteral = true → t.getLast? ≠ some '\n')

instance (style : Style) (depth : Nat) (t : Text) :
    Decidable (KeepsLiterals style depth t) :=
  inferInstanceAs (Decidable (_ ∧ _))

/-- **When layout keeps the structure.** The normalized code stays as
it is exactly when no literal of the code goes over lines whose ends
layout changes. -/
theorem normalize_layout_iff (style : Style) (depth : Nat) (t : Text) :
    normalize (layout style depth t) = normalize t ↔ KeepsLiterals style depth t := by
  obtain ⟨a, b, ha, hb, heq⟩ := Text.exists_trimChar t
  have hlast := Text.getLast?_trimChar '\n' t
  have htrim := map_trim_layout style depth t
  unfold KeepsLiterals
  generalize layout style depth t = out at htrim ⊢
  generalize Text.trimChar '\n' t = s at heq hlast htrim ⊢
  have hproper : (Mode.code.after s).IsProper := Mode.isFresh_code.1.after s
  obtain ⟨hafter, hemitted⟩ :=
    Mode.blank_at_start isLineStart_code (Text.isBlank_of_breaks ha)
  have hend : (Mode.code.after t).inLiteral = (Mode.code.after s).inLiteral := by
    rw [heq, Mode.after_append, Mode.after_append, hafter,
      Mode.inLiteral_after_blank hproper (Text.isBlank_of_breaks hb)]
  -- the breaks around the text count only in a literal that is still open at
  -- its end
  have hnormalize : normalize t =
      Mode.code.significant s ++ (Mode.code.after s).kept b := by
    rw [normalize, heq, List.append_assoc, Mode.significant_append, hafter, hemitted,
      Mode.significant_append,
      (Mode.blanks_behind hproper (Text.isBlank_of_breaks hb)).2, Mode.significant_eq,
      List.append_assoc, List.nil_append]
  -- none of them is kept exactly if no literal is open over a break at the end
  have hkept : (Mode.code.after s).kept b = [] ↔
      ((Mode.code.after t).inLiteral = true → t.getLast? ≠ some '\n') := by
    rw [Mode.kept_eq_nil_iff, hend]
    refine forall_congr' fun hlit => ?_
    have hfront : (a ++ s).getLast? ≠ some '\n' := by
      cases hs : s.getLast? with
      | none =>
        rw [List.getLast?_eq_none_iff.mp hs] at hlit
        cases hlit
      | some c =>
        rw [List.getLast?_append, hs, Option.some_or, ← hs]
        exact hlast
    rw [heq, Text.getLast?_append_breaks hfront hb]
  have hbreaks : ∀ c ∈ ((Mode.code.after s).kept b).head?, c = '\n' := by
    intro c hc
    exact eq_of_beq
      (List.all_eq_true.mp hb c (Mode.kept_subset _ b (List.mem_of_head? hc)))
  rw [eq_comm, hnormalize, normalize,
    Mode.significant_eq_iff Mode.isFresh_code htrim hbreaks, hkept]

/-- A text block whose lines are moved in by two blanks. -/
def textBlock : Text := "String s = \"\"\"\n  a\n  \"\"\";"

/-- A text block stays as it is where its lines stand in the right
place by chance. -/
example : KeepsLiterals { indentSize := 2 } 1 textBlock := by decide +kernel

/-- **Layout changes a text block** that stands elsewhere: the two
blanks in front of its lines go, so that the code has another structure
and another hash. -/
theorem layout_changes_text_block :
    layout {} 0 textBlock = "String s = \"\"\"\na\n\"\"\";".toList ∧
      normalize (layout {} 0 textBlock) ≠ normalize textBlock ∧
      structuralHash (layout {} 0 textBlock) ≠ structuralHash textBlock := by
  decide +kernel

end Code

end Graft
