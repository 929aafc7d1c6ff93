import Graft.Code.Hash
import Graft.Proofs.Text.Trim

/-!
# Reading text piece by piece

The significant text of a text is put together from the significant texts of its
pieces, where each piece is read in the mode that those before it leave. At the
break of a line that is not in a literal nothing is pending, so that the lines
can be read one by one, and blanks at either end of a line do not matter.
-/

namespace Graft.Code

namespace Mode

/-- The significant text that is settled when a text has been read. -/
def emitted : Mode → Text → Text
  | _, [] => []
  | m, c :: rest => m.emit c ++ emitted (m.next c) rest

@[simp] theorem emitted_nil (m : Mode) : m.emitted [] = [] := rfl

@[simp] theorem emitted_cons (m : Mode) (c : Char) (t : Text) :
    m.emitted (c :: t) = m.emit c ++ (m.next c).emitted t := rfl

theorem emitted_append (m : Mode) (s t : Text) :
    m.emitted (s ++ t) = m.emitted s ++ (m.after s).emitted t := by
  induction s generalizing m with
  | nil => rfl
  | cons c rest ih =>
    rw [List.cons_append, emitted_cons, emitted_cons, ih,
    List.append_assoc, after_cons]

/-- What is significant is settled on the way or held back to the end. -/
theorem significant_eq (m : Mode) (t : Text) :
    m.significant t = m.emitted t ++ (m.after t).close := by
  induction t generalizing m with
  | nil => rfl
  | cons c rest ih => rw [significant, ih, emitted_cons, List.append_assoc, after_cons]

theorem significant_append (m : Mode) (s t : Text) :
    m.significant (s ++ t) = m.emitted s ++ (m.after s).significant t := by
  rw [significant_eq, emitted_append, after_append, significant_eq, List.append_assoc]

/-! ## Where a reader stands -/

/-- Whether a character is read as code rather than as part of a
comment or a literal. -/
def readsCode : Mode → Char → Bool
  | .code, _ => true
  | .slash, c => !(c == '/' || c == '*')
  | _, _ => false

/-- Whether the mode is inside a block comment. -/
def inBlockComment : Mode → Bool
  | .blockComment _ => true
  | _ => false

/-- Whether the mode is inside a literal. -/
def inLiteral : Mode → Bool
  | .literal _ _ => true
  | _ => false

/-! ## Literals -/

/-- A literal stands between quotes, as every reader that starts
in code finds it. -/
def IsProper : Mode → Prop
  | .literal quote _ => quote = '"' ∨ quote = '\''
  | _ => True

theorem isProper_nextOfCode (c : Char) : (nextOfCode c).IsProper := by
  rw [nextOfCode]
  split
  · assumption
  · split <;> trivial

theorem IsProper.next {m : Mode} (h : m.IsProper) (c : Char) : (m.next c).IsProper := by
  cases m with
  | code => exact isProper_nextOfCode c
  | slash =>
    rw [Mode.next]
    repeat' split
    · trivial
    · trivial
    · exact isProper_nextOfCode c
  | lineComment =>
    rw [Mode.next]
    split <;> trivial
  | blockComment star =>
    rw [Mode.next]
    split <;> trivial
  | literal quote escaped =>
    rw [Mode.next]
    repeat' split
    · exact h
    · exact h
    · trivial
    · exact h

theorem IsProper.after {m : Mode} (h : m.IsProper) (t : Text) :
    (m.after t).IsProper := by
  induction t generalizing m with
  | nil => exact h
  | cons c rest ih => exact ih (h.next c)

/-- No line of a text that is read from a mode ends inside a literal, save
perhaps the last. -/
def BreaksOutside : Mode → Text → Prop
  | _, [] => True
  | m, c :: rest => (c = '\n' → m.inLiteral = false) ∧ BreaksOutside (m.next c) rest

instance decidableBreaksOutside :
    (m : Mode) → (t : Text) → Decidable (m.BreaksOutside t)
  | _, [] => .isTrue trivial
  | m, c :: rest =>
    have := decidableBreaksOutside (m.next c) rest
    inferInstanceAs (Decidable (_ ∧ _))

theorem breaksOutside_append (m : Mode) (s t : Text) :
    m.BreaksOutside (s ++ t) ↔ m.BreaksOutside s ∧ (m.after s).BreaksOutside t := by
  induction s generalizing m with
  | nil => simp [BreaksOutside]
  | cons c rest ih =>
    simp only [List.cons_append, BreaksOutside, ih, after_cons, and_assoc]

/-! ## Blanks -/

theorem nextOfCode_of_blank {c : Char} (hc : Char.isBlank c = true) :
    nextOfCode c = .code := by
  rw [nextOfCode, if_neg, if_neg]
  · rintro rfl
    revert hc
    decide
  · rintro (rfl | rfl) <;> revert hc <;> decide

theorem emitOfCode_of_blank {c : Char} (hc : Char.isBlank c = true) :
    emitOfCode c = [] := by
  simp [emitOfCode, hc]

theorem ne_of_blank {c d : Char} (hc : Char.isBlank c = true)
    (hd : Char.isBlank d = false) :
    c ≠ d := by
  rintro rfl
  rw [hc] at hd
  cases hd

/-- The modes that a line can start in. -/
def IsLineStart (m : Mode) : Prop := m = .code ∨ m = .blockComment false

theorem IsLineStart.isProper {m : Mode} (h : m.IsLineStart) : m.IsProper := by
  rcases h with rfl | rfl <;> trivial

theorem IsLineStart.inLiteral {m : Mode} (h : m.IsLineStart) : m.inLiteral = false := by
  rcases h with rfl | rfl <;> rfl

theorem IsLineStart.close {m : Mode} (h : m.IsLineStart) : m.close = [] := by
  rcases h with rfl | rfl <;> rfl

theorem isLineStart_next_break {m : Mode} (h : m.inLiteral = false) :
    (m.next '\n').IsLineStart := by
  cases m with
  | code => exact .inl rfl
  | slash => exact .inl rfl
  | lineComment => exact .inl rfl
  | blockComment star => cases star <;> exact .inr rfl
  | literal quote escaped => cases h

/-- A line break settles what was held back. -/
theorem emit_break {m : Mode} (h : m.inLiteral = false) : m.emit '\n' = m.close := by
  cases m with
  | literal quote escaped => cases h
  | _ => rfl

/-- Blanks at the start of a line change nothing. -/
theorem blank_at_start {m : Mode} (h : m.IsLineStart) {a : Text}
    (ha : Text.isBlank a = true) :
    m.after a = m ∧ m.emitted a = [] := by
  induction a with
  | nil => exact ⟨rfl, rfl⟩
  | cons c rest ih =>
    rw [Text.isBlank_cons, Bool.and_eq_true] at ha
    obtain ⟨hafter, hemitted⟩ := ih ha.2
    have hstep : m.next c = m ∧ m.emit c = [] := by
      rcases h with rfl | rfl
      · exact ⟨nextOfCode_of_blank ha.1, emitOfCode_of_blank ha.1⟩
      · have hstar : c ≠ '*' := ne_of_blank ha.1 (by decide)
        exact ⟨by simp [next, hstar], rfl⟩
    rw [after_cons, emitted_cons, hstep.1, hstep.2]
    exact ⟨hafter, hemitted⟩

/-- Blanks do not end a literal and do not open one. -/
theorem inLiteral_after_blank {m : Mode} (h : m.IsProper) {b : Text}
    (hb : Text.isBlank b = true) :
    (m.after b).inLiteral = m.inLiteral := by
  induction b generalizing m with
  | nil => rfl
  | cons c rest ih =>
    rw [Text.isBlank_cons, Bool.and_eq_true] at hb
    have hslash : c ≠ '/' := ne_of_blank hb.1 (by decide)
    have hstar : c ≠ '*' := ne_of_blank hb.1 (by decide)
    have hback : c ≠ '\\' := ne_of_blank hb.1 (by decide)
    rw [after_cons, ih (h.next c) hb.2]
    cases m with
    | code => rw [next, nextOfCode_of_blank hb.1]
    | slash =>
      rw [next, if_neg hslash, if_neg hstar, nextOfCode_of_blank hb.1]
      rfl
    | lineComment =>
      rw [next]
      split <;> rfl
    | blockComment star => simp [next, hslash, inLiteral]
    | literal quote escaped =>
      have hquote : c ≠ quote := by
        rcases h with rfl | rfl <;> exact ne_of_blank hb.1 (by decide)
      cases escaped <;> simp [next, hback, hquote, inLiteral]

/-- Blanks at the end of a line that is not in a literal change nothing
for the next line. -/
theorem blank_at_end {m : Mode} (h : m.inLiteral = false) {b : Text}
    (hb : Text.isBlank b = true) :
    (m.after b).next '\n' = m.next '\n' ∧ m.significant b = m.close := by
  induction b generalizing m with
  | nil => exact ⟨rfl, rfl⟩
  | cons c rest ih =>
    rw [Text.isBlank_cons, Bool.and_eq_true] at hb
    have hslash : c ≠ '/' := ne_of_blank hb.1 (by decide)
    have hstar : c ≠ '*' := ne_of_blank hb.1 (by decide)
    have hcode := nextOfCode_of_blank hb.1
    have hemit := emitOfCode_of_blank hb.1
    -- a blank leaves no literal, and changes nothing that a line break would
    -- not change
    have hnext : (m.next c).inLiteral = false ∧ (m.next c).next '\n' = m.next '\n' ∧
        m.emit c ++ (m.next c).close = m.close := by
      cases m with
      | code =>
        rw [next, emit, hcode, hemit]
        exact ⟨rfl, rfl, rfl⟩
      | slash =>
        rw [next, if_neg hslash, if_neg hstar, emit,
          if_neg (by simp [hslash, hstar]), hcode, hemit]
        exact ⟨rfl, rfl, rfl⟩
      | lineComment =>
        rw [next]
        split <;> exact ⟨rfl, rfl, rfl⟩
      | blockComment star =>
        rw [next, if_neg (by simp [hslash])]
        cases star <;> simp [hstar, next, inLiteral, close, emit]
      | literal quote escaped => cases h
    obtain ⟨hmode, hsignificant⟩ := ih hnext.1 hb.2
    rw [after_cons, hmode, significant, hsignificant]
    exact hnext.2

/-- A line is read as it is read without the blanks at its ends. -/
theorem trimmed_line {m : Mode} (h : m.IsLineStart) {line : Text}
    (hclosed : (m.after (Text.trim line)).inLiteral = false) :
    (m.after line).inLiteral = false ∧
    (m.after line).next '\n' = (m.after (Text.trim line)).next '\n' ∧
      m.significant line = m.significant (Text.trim line) := by
  obtain ⟨a, b, ha, hb, heq⟩ := Text.exists_trim line
  obtain ⟨hafter, hemitted⟩ := blank_at_start h ha
  obtain ⟨hnext, hsignificant⟩ := blank_at_end hclosed hb
  have hproper : (m.after (Text.trim line)).IsProper := h.isProper.after _
  generalize Text.trim line = t at *
  subst heq
  rw [List.append_assoc, after_append, significant_append, hafter, hemitted,
    after_append, significant_append, inLiteral_after_blank hproper hb, hnext,
    hsignificant, significant_eq m t]
  exact ⟨hclosed, rfl, rfl⟩

/-- A line ends inside a literal if and only if it does without the
blanks at its ends. -/
theorem inLiteral_after_trim {m : Mode} (h : m.IsLineStart) (line : Text) :
    (m.after (Text.trim line)).inLiteral = (m.after line).inLiteral := by
  obtain ⟨a, b, ha, hb, heq⟩ := Text.exists_trim line
  have hproper : (m.after (Text.trim line)).IsProper := h.isProper.after _
  generalize Text.trim line = t at *
  subst heq
  rw [List.append_assoc, after_append, (blank_at_start h ha).1, after_append,
    inLiteral_after_blank hproper hb]

end Mode

end Graft.Code
