import Graft.Code.Layout
import Graft.Proofs.Code.Lexical

/-!
# Layout keeps the structure

Laying out code changes only the blanks at the ends of its lines. When no
literal goes on over a line break, each line is read from the mode that the
break before it leaves, so that these blanks are outside literals and the
normalized code stays as it is.
-/

namespace Graft

namespace Text

/-- A line break at the end of a line is blank. -/
theorem exists_withoutBreak (line : Text) :
    ∃ b, isBlank b = true ∧ line = withoutBreak line ++ b := by
  rw [withoutBreak]
  split
  · next rest h =>
    refine ⟨['\r', '\n'], by decide, ?_⟩
    simpa using congrArg List.reverse h
  · next rest _ h =>
    refine ⟨['\n'], by decide, ?_⟩
    simpa using congrArg List.reverse h
  · exact ⟨[], rfl, (List.append_nil line).symm⟩

@[simp] theorem trim_withoutBreak (line : Text) :
    trim (withoutBreak line) = trim line := by
  obtain ⟨b, hb, heq⟩ := exists_withoutBreak line
  rw [congrArg trim heq, trim_append_right hb]

theorem map_trim_lines (t : Text) : (lines t).map trim = (fullLines t).map trim := by
  simp [lines]

theorem fullLines_eq_nil_iff (t : Text) : fullLines t = [] ↔ t = [] := by
  constructor
  · intro h
    have := flatten_fullLines t
    rw [h] at this
    exact this.symm
  · rintro rfl
    rfl

theorem fullLines_cons (c : Char) (t : Text) : fullLines (c :: t) =
    if c == '\n' then [c] :: fullLines t
    else match fullLines t with
      | [] => [[c]]
      | line :: lines => (c :: line) :: lines := rfl

/-- A text without a line break is one line. -/
theorem fullLines_of_no_break {line : Text} (hne : line ≠ []) (h : '\n' ∉ line) :
    fullLines line = [line] := by
  induction line with
  | nil => exact absurd rfl hne
  | cons c rest ih =>
    rw [List.mem_cons, not_or] at h
    rw [fullLines_cons, if_neg (by simpa using Ne.symm h.1)]
    by_cases hnil : rest = []
    · rw [hnil]
      rfl
    · rw [ih hnil h.2]

theorem fullLines_line {line : Text} (h : '\n' ∉ line) :
    fullLines (line ++ ['\n']) = [line ++ ['\n']] := by
  induction line with
  | nil => rfl
  | cons c rest ih =>
    rw [List.mem_cons, not_or] at h
    rw [List.cons_append, fullLines, ih h.2, if_neg (by simpa using Ne.symm h.1)]

theorem withoutBreak_of_no_break {line : Text} (h : '\n' ∉ line) :
    withoutBreak line = line := by
  rw [withoutBreak]
  split
  · next rest hreverse =>
    exact absurd (List.mem_reverse.mp (hreverse ▸ List.mem_cons_self)) h
  · next rest _ hreverse =>
    exact absurd (List.mem_reverse.mp (hreverse ▸ List.mem_cons_self)) h
  · rfl

theorem dropWhile_break {t : Text} (h : '\n' ∉ t) : t.dropWhile (· == '\n') = t := by
  cases t with
  | nil => rfl
  | cons c rest =>
    rw [List.mem_cons, not_or] at h
    rw [List.dropWhile_cons_of_neg (by simpa using Ne.symm h.1)]

/-- A line loses its break and nothing else. -/
theorem trimChar_line {line : Text} (hne : line ≠ []) (h : '\n' ∉ line) :
    trimChar '\n' (line ++ ['\n']) = line := by
  obtain ⟨c, rest, rfl⟩ := List.exists_cons_of_ne_nil hne
  have hc : c ≠ '\n' := fun heq => h (heq ▸ List.mem_cons_self)
  rw [trimChar, List.cons_append, List.dropWhile_cons_of_neg (by simpa using hc),
    ← List.cons_append, List.reverse_append, List.reverse_singleton,
    List.singleton_append, List.dropWhile_cons_of_pos (by decide),
    dropWhile_break (mt List.mem_reverse.mp h), List.reverse_reverse]

/-- Behind a line break, the lines are those of the rest. -/
theorem fullLines_append {s : Text} (h : s = [] ∨ s.getLast? = some '\n') (t : Text) :
    fullLines (s ++ t) = fullLines s ++ fullLines t := by
  induction s with
  | nil => rfl
  | cons c rest ih =>
    have hlast : (c :: rest).getLast? = some '\n' :=
      h.resolve_left (List.cons_ne_nil c rest)
    cases rest with
    | nil =>
      obtain rfl : c = '\n' := by simpa using hlast
      simp [fullLines]
    | cons d rest =>
      rw [List.getLast?_cons_cons] at hlast
      have hrest := ih (.inr hlast)
      rw [List.cons_append, fullLines_cons c (d :: rest ++ t),
        fullLines_cons c (d :: rest), hrest]
      split
      · rfl
      · cases hl : fullLines (d :: rest) with
        | nil => exact absurd ((fullLines_eq_nil_iff _).mp hl) (List.cons_ne_nil d rest)
        | cons line lines => rfl

theorem isBlank_of_breaks {t : Text} (h : t.all (· == '\n') = true) :
    isBlank t = true := by
  rw [isBlank, List.all_eq_true]
  intro c hc
  rw [eq_of_beq (List.all_eq_true.mp h c hc)]
  decide

theorem isBlank_takeWhile_break (t : Text) : isBlank (t.takeWhile (· == '\n')) = true :=
  isBlank_of_breaks List.all_takeWhile

theorem join_cons_cons (sep : Char) (line next : Text) (rest : List Text) :
    join [sep] (line :: next :: rest) = line ++ sep :: join [sep] (next :: rest) := by
  rw [join, join, List.intercalate_cons_cons, List.append_assoc, List.singleton_append]

theorem join_cons (sep : Char) (line : Text) {rest : List Text} (h : rest ≠ []) :
    join [sep] (line :: rest) = line ++ sep :: join [sep] rest := by
  obtain ⟨next, rest, rfl⟩ := List.exists_cons_of_ne_nil h
  exact join_cons_cons sep line next rest

/-- Lines with line breaks between them are blank when each of them is. -/
theorem isBlank_join_break (lines : List Text) :
    isBlank (join ['\n'] lines) = lines.all isBlank := by
  induction lines with
  | nil => rfl
  | cons line rest ih =>
    cases rest with
    | nil => simp [join, List.intercalate]
    | cons next rest =>
      rw [join_cons_cons, isBlank_append, isBlank_cons, ih, List.all_cons]
      rfl

theorem isBlank_flatten (lines : List Text) :
    isBlank lines.flatten = lines.all isBlank := by
  induction lines with
  | nil => rfl
  | cons line rest ih => rw [List.flatten_cons, isBlank_append, ih, List.all_cons]

/-- Whether lines are blank can be told from their trimmed forms. -/
theorem all_isBlank_of_map_trim {lines lines' : List Text}
    (h : lines.map trim = lines'.map trim) :
    lines.all isBlank = lines'.all isBlank := by
  have hall : ∀ ls : List Text, ls.all isBlank = (ls.map trim).all List.isEmpty := by
    intro ls
    rw [List.all_map]
    congr 1
    funext line
    rw [Function.comp, Bool.eq_iff_iff, List.isEmpty_iff, trim_eq_nil_iff]
  rw [hall, hall, h]

/-- A text is its stripped form between line breaks. -/
theorem exists_trimChar (t : Text) :
    ∃ a b, a.all (· == '\n') = true ∧ b.all (· == '\n') = true ∧
    t = a ++ trimChar '\n' t ++ b := by
  refine ⟨t.takeWhile (· == '\n'),
    ((t.dropWhile (· == '\n')).reverse.takeWhile (· == '\n')).reverse,
    List.all_takeWhile, ?_, ?_⟩
  · rw [List.all_reverse, List.all_takeWhile]
  · rw [trimChar, List.append_assoc, ← List.reverse_append,
      List.takeWhile_append_dropWhile, List.reverse_reverse,
      List.takeWhile_append_dropWhile]

theorem exists_trimChar_break (t : Text) : ∃ a b, isBlank a = true ∧ isBlank b = true ∧
    t = a ++ trimChar '\n' t ++ b := by
  obtain ⟨a, b, ha, hb, heq⟩ := exists_trimChar t
  exact ⟨a, b, isBlank_of_breaks ha, isBlank_of_breaks hb, heq⟩

end Text

namespace Code

namespace Mode

/-- The significant text of lines that are read one after the other. -/
def ofLines : Mode → List Text → Text
  | _, [] => []
  | m, line :: rest => m.significant line ++ ofLines ((m.after line).next '\n') rest

/-- The mode at the start of the line behind lines. -/
def afterLines : Mode → List Text → Mode
  | m, [] => m
  | m, line :: rest => afterLines ((m.after line).next '\n') rest

/-- No line ends inside a literal. -/
def ClosesLines : Mode → List Text → Prop
  | _, [] => True
  | m, line :: rest =>
    (m.after line).inLiteral = false ∧ ClosesLines ((m.after line).next '\n') rest

/-- Lines that are equal but for the blanks at their ends are read
in the same way. -/
theorem lines_congr {m : Mode} (h : m.IsLineStart) {lines lines' : List Text}
    (heq : lines.map Text.trim = lines'.map Text.trim) (hclosed : m.ClosesLines lines) :
    m.ClosesLines lines' ∧ m.ofLines lines = m.ofLines lines' ∧
      m.afterLines lines = m.afterLines lines' := by
  induction lines generalizing m lines' with
  | nil =>
    obtain rfl : lines' = [] := by simpa using heq.symm
    exact ⟨trivial, rfl, rfl⟩
  | cons line rest ih =>
    cases lines' with
    | nil => cases heq
    | cons line' rest' =>
      rw [List.map_cons, List.map_cons, List.cons.injEq] at heq
      obtain ⟨htrim, hrest⟩ := heq
      have htrimmed : (m.after (Text.trim line)).inLiteral = false := by
        rw [inLiteral_after_trim h, hclosed.1]
      obtain ⟨-, hnext, hsignificant⟩ := trimmed_line h htrimmed
      rw [htrim] at htrimmed hnext hsignificant
      obtain ⟨hclosed', hnext', hsignificant'⟩ := trimmed_line h htrimmed
      obtain ⟨h1, h2, h3⟩ := ih (isLineStart_next_break hclosed.1) hrest hclosed.2
      rw [hnext, ← hnext'] at h1 h2 h3
      rw [ofLines, ofLines, afterLines, afterLines, hnext, hsignificant, ← hnext', h2,
        h3, hsignificant']
      exact ⟨⟨hclosed', h1⟩, rfl, rfl⟩

/-- The lines of a text, each with its line break, hold all that is
significant in it. -/
theorem significant_fullLines {m : Mode} {t : Text} (hbreaks : m.BreaksOutside t)
    (hend : (m.after t).inLiteral = false) (hpending : t ≠ [] ∨ m.close = []) :
    m.ClosesLines (Text.fullLines t) ∧ m.significant t = m.ofLines (Text.fullLines t) ∧
      (t ≠ [] → m.afterLines (Text.fullLines t) = (m.after t).next '\n') := by
  -- a line break begins a new line; any other character goes to the front of
  -- the line behind it
  induction t generalizing m with
  | nil => exact ⟨trivial, hpending.resolve_left fun h => h rfl, fun h => absurd rfl h⟩
  | cons c rest ih =>
    obtain ⟨hc, hrest⟩ := hbreaks
    rw [Text.fullLines]
    by_cases hbreak : c = '\n'
    · subst hbreak
      have hopen := hc rfl
      have hstart := isLineStart_next_break hopen
      obtain ⟨hclosed, heq, hafter⟩ := ih hrest hend (.inr hstart.close)
      have hagain : (m.next '\n').next '\n' = m.next '\n' := by
        rcases hstart with h | h <;> rw [h] <;> rfl
      have hempty : m.significant ['\n'] = m.emit '\n' := by
        rw [significant, significant, hstart.close, List.append_nil]
      rw [if_pos (by decide), ClosesLines, ofLines, afterLines, after_cons, after_nil,
        hagain, hempty, significant, heq]
      refine ⟨⟨hstart.inLiteral, hclosed⟩, rfl, fun _ => ?_⟩
      by_cases hne : rest = []
      · subst hne
        exact hagain.symm
      · exact hafter hne
    · rw [if_neg (by simpa using hbreak)]
      cases hl : Text.fullLines rest with
      | nil =>
        obtain rfl := (Text.fullLines_eq_nil_iff rest).mp hl
        refine ⟨⟨hend, trivial⟩, ?_, fun _ => rfl⟩
        rw [ofLines, ofLines, List.append_nil]
      | cons line lines =>
        have hne : rest ≠ [] := by
          rintro rfl
          cases hl
        obtain ⟨hclosed, heq, hafter⟩ := ih hrest hend (.inl hne)
        rw [hl] at hclosed heq hafter
        refine ⟨hclosed, ?_, fun _ => hafter hne⟩
        rw [significant, heq, ofLines, ofLines, significant, after_cons,
          List.append_assoc]

/-- Lines with line breaks between them hold what the lines hold. -/
theorem significant_join {m : Mode} (h : m.IsLineStart) {lines : List Text}
    (hclosed : m.ClosesLines lines) :
    m.significant (Text.join ['\n'] lines) = m.ofLines lines := by
  induction lines generalizing m with
  | nil => exact h.close
  | cons line rest ih =>
    obtain ⟨hline, hrest⟩ := hclosed
    have hstart := isLineStart_next_break hline
    cases rest with
    | nil => simp [Text.join, List.intercalate, ofLines]
    | cons next rest =>
      rw [Text.join_cons_cons, significant_append, significant, ih hstart hrest,
        emit_break hline,
        show m.ofLines (line :: next :: rest) = m.significant line ++
        ((m.after line).next '\n').ofLines (next :: rest) from rfl,
        significant_eq m line, List.append_assoc]

/-- Lines with a line break behind each hold what the lines hold. -/
theorem emitted_flatMap {m : Mode} {lines : List Text} (hclosed : m.ClosesLines lines) :
    m.emitted (lines.flatMap (· ++ ['\n'])) = m.ofLines lines ∧
      m.after (lines.flatMap (· ++ ['\n'])) = m.afterLines lines := by
  induction lines generalizing m with
  | nil => exact ⟨rfl, rfl⟩
  | cons line rest ih =>
    obtain ⟨hline, hrest⟩ := hclosed
    obtain ⟨hemitted, hafter⟩ := ih hrest
    rw [List.flatMap_cons, List.append_assoc, List.singleton_append, emitted_append,
      after_append, emitted_cons, after_cons, hemitted, hafter, emit_break hline,
      ofLines, afterLines, significant_eq, List.append_assoc]
    exact ⟨rfl, rfl⟩

end Mode

/-- No literal of a text goes on over a line break or is left open. -/
def ClosesLiterals (t : Text) : Prop :=
  Mode.code.BreaksOutside t ∧ (Mode.code.after t).inLiteral = false

instance (t : Text) : Decidable (ClosesLiterals t) :=
  inferInstanceAs (Decidable (_ ∧ _))

theorem isLineStart_code : Mode.code.IsLineStart := .inl rfl

/-- Blanks around a text do not matter. -/
theorem normalize_of_blank_ends {a b t : Text} (ha : Text.isBlank a = true)
    (hb : Text.isBlank b = true) (h : ClosesLiterals (a ++ t ++ b)) :
    ClosesLiterals t ∧ normalize (a ++ t ++ b) = normalize t := by
  obtain ⟨hbreaks, hend⟩ := h
  obtain ⟨hafter, hemitted⟩ := Mode.blank_at_start isLineStart_code ha
  rw [List.append_assoc, Mode.breaksOutside_append, hafter,
    Mode.breaksOutside_append] at hbreaks
  rw [List.append_assoc, Mode.after_append, hafter, Mode.after_append,
    Mode.inLiteral_after_blank (isLineStart_code.isProper.after t) hb] at hend
  refine ⟨⟨hbreaks.2.1, hend⟩, ?_⟩
  rw [normalize, List.append_assoc, Mode.significant_append, hafter, hemitted,
    Mode.significant_append, (Mode.blank_at_end hend hb).2, normalize,
    Mode.significant_eq]
  rfl

/-! ## Layout -/

theorem Style.mem_indent {style : Style} {depth : Nat} {c : Char}
    (h : c ∈ style.indent depth) :
    c = ' ' ∨ c = '\t' := by
  obtain ⟨unit, hunit, hc⟩ := List.mem_flatten.mp h
  rw [List.eq_of_mem_replicate hunit, Style.unit] at hc
  split at hc
  · exact .inr (List.mem_singleton.mp hc)
  · exact .inl (List.eq_of_mem_replicate hc)

theorem Style.isBlank_indent (style : Style) (depth : Nat) :
    Text.isBlank (style.indent depth) = true := by
  rw [Text.isBlank, List.all_eq_true]
  intro c hc
  rcases Style.mem_indent hc with rfl | rfl <;> rfl

/-- A line is laid out as blanks and the trimmed line. -/
theorem layoutLine_eq (style : Style) (depth : Nat) (state : LayoutState) (raw : Text) :
    ∃ a, Text.isBlank a = true ∧
      (layoutLine style depth state raw).2 = a ++ Text.trim raw := by
  simp only [layoutLine]
  split
  · next h =>
    rw [List.isEmpty_iff] at h
    exact ⟨[], rfl, by rw [h]; rfl⟩
  · refine ⟨_, ?_, rfl⟩
    rw [Text.isBlank_append, Style.isBlank_indent]
    split <;> rfl

theorem map_trim_layoutLines (style : Style) (depth : Nat) (state : LayoutState)
    (lines : List Text) :
    (layoutLines style depth state lines).map Text.trim = lines.map Text.trim := by
  induction lines generalizing state with
  | nil => rfl
  | cons line rest ih =>
    obtain ⟨a, ha, heq⟩ := layoutLine_eq style depth state line
    rw [layoutLines, List.map_cons, List.map_cons, ih, heq, Text.trim_append_left ha,
      Text.trim_trim]

theorem layoutLines_append (style : Style) (depth : Nat) (state : LayoutState)
    (lines lines' : List Text) :
    ∃ state', layoutLines style depth state (lines ++ lines') =
      layoutLines style depth state lines ++ layoutLines style depth state' lines' := by
  induction lines generalizing state with
  | nil => exact ⟨state, rfl⟩
  | cons line rest ih =>
    obtain ⟨state', heq⟩ := ih (layoutLine style depth state line).1
    exact ⟨state', congrArg ((layoutLine style depth state line).2 :: ·) heq⟩

/-- **Layout keeps the structure** of every code whose literals end
on their lines. -/
theorem normalize_layout (style : Style) (depth : Nat) {t : Text}
    (h : ClosesLiterals t) :
    normalize (layout style depth t) = normalize t := by
  obtain ⟨a, b, ha, hb, heq⟩ := Text.exists_trimChar_break t
  rw [heq] at h
  obtain ⟨hclosed, hnormalize⟩ := normalize_of_blank_ends ha hb h
  rw [← heq] at hnormalize
  obtain ⟨hlines, hsignificant, -⟩ :=
    Mode.significant_fullLines hclosed.1 hclosed.2 (.inr rfl)
  have htrim : (Text.fullLines (Text.trimChar '\n' t)).map Text.trim =
      (layoutLines style depth {} (Text.lines (Text.trimChar '\n' t))).map
        Text.trim := by
    rw [map_trim_layoutLines, Text.map_trim_lines]
  obtain ⟨hlines', heq', -⟩ := Mode.lines_congr isLineStart_code htrim hlines
  have hjoin := Mode.significant_join isLineStart_code hlines'
  rw [hnormalize]
  exact hjoin.trans (heq'.symm.trans hsignificant.symm)

/-- Laying out code leaves no more blank than it was. -/
theorem isBlank_layout (style : Style) (depth : Nat) (t : Text) :
    Text.isBlank (layout style depth t) = Text.isBlank t := by
  obtain ⟨a, b, ha, hb, heq⟩ := Text.exists_trimChar_break t
  have htrim :
      (layoutLines style depth {} (Text.lines (Text.trimChar '\n' t))).map Text.trim =
      (Text.fullLines (Text.trimChar '\n' t)).map Text.trim := by
    rw [map_trim_layoutLines, Text.map_trim_lines]
  have hstripped : Text.isBlank t = Text.isBlank (Text.trimChar '\n' t) := by
    conv => lhs; rw [heq]
    rw [Text.isBlank_append, Text.isBlank_append, ha, hb, Bool.true_and, Bool.and_true]
  rw [layout, Text.isBlank_join_break, Text.all_isBlank_of_map_trim htrim,
    ← Text.isBlank_flatten, Text.flatten_fullLines, hstripped]

end Code

end Graft
