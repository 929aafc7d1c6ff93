import Graft.Proofs.Code.LiteralLines
import Graft.Proofs.Code.Relayout

/-!
# Braces are read as code is read

Layout reads the braces of one line at a time, looking one character ahead and
passing over what a backslash escapes. Normalization reads the text character by
character and goes on over line breaks.

* `Follows` says when the two readers stand at the same place, and
  `Follows.readBraces_eq` that from there on they take the same braces of
  the line for code.
* `map_counts_readLines` carries this from line to line, as long as no literal
  goes over a break.
* `braces_read_as_code` says so of all code, and that a line which a closing
  brace leads counts one.
-/

namespace Graft

namespace Text

/-- A text is one line, or a line and a text behind its break. -/
theorem line_induction {P : Text → Prop} (last : ∀ line, '\n' ∉ line → P line)
    (step : ∀ line rest, '\n' ∉ line → P rest → P (line ++ '\n' :: rest))
    (t : Text) : P t := by
  by_cases hbreak : '\n' ∈ t
  · obtain ⟨line, rest, hcut, hline⟩ := List.eq_append_cons_of_mem hbreak
    have hshorter : rest.length < t.length := by
      rw [hcut, List.length_append, List.length_cons]
      omega
    rw [hcut]
    exact step line rest hline (line_induction last step rest)
  · exact last t hbreak
termination_by t.length

theorem fullLines_append_cons {line : Text} (h : '\n' ∉ line) (rest : Text) :
    fullLines (line ++ '\n' :: rest) = (line ++ ['\n']) :: fullLines rest := by
  have hbreak : (line ++ ['\n']).getLast? = some '\n' := List.getLast?_concat
  rw [List.append_cons, fullLines_append (.inr hbreak), fullLines_line h,
    List.singleton_append]

end Text

namespace Code

open Text

namespace Mode

/-! ## What is significant outside literals -/

/-- What normalization copies from outside literals while it reads a text. -/
def outside : Mode → Text → Text
  | _, [] => []
  | m, c :: rest => (if m.inLiteral then [] else m.emit c) ++ outside (m.next c) rest

/-- The same line by line, each line read with its break from where the line
before it ends. -/
def outsideLines : Mode → List Text → List Text
  | _, [] => []
  | m, line :: rest => m.outside line :: outsideLines (m.after line) rest

theorem outside_append (m : Mode) (s t : Text) :
    m.outside (s ++ t) = m.outside s ++ (m.after s).outside t := by
  induction s generalizing m with
  | nil => rfl
  | cons c rest ih =>
    rw [List.cons_append, outside, ih, outside, after_cons, List.append_assoc]

/-- What is copied from outside literals is a part of what is copied. -/
theorem outside_sublist (m : Mode) (t : Text) :
    (m.outside t).Sublist (m.emitted t) := by
  induction t generalizing m with
  | nil => exact .slnil
  | cons c rest ih =>
    rw [outside, emitted_cons]
    refine List.Sublist.append ?_ (ih _)
    split
    · exact List.nil_sublist _
    · exact .refl _

theorem flatten_outsideLines (m : Mode) (lines : List Text) :
    (m.outsideLines lines).flatten = m.outside lines.flatten := by
  induction lines generalizing m with
  | nil => rfl
  | cons line rest ih =>
    rw [outsideLines, List.flatten_cons, ih, List.flatten_cons, outside_append]

section Signs

variable {sign : Char} (hblank : Char.isBlank sign = false) (hslash : sign ≠ '/')
  (hstar : sign ≠ '*')

include hblank hslash hstar

/-- A sign that opens no comment is copied from outside literals where it is
read as code. -/
theorem count_outside_cons (m : Mode) (c : Char) (rest : Text) :
    (m.outside (c :: rest)).count sign =
      ((m.next c).outside rest).count sign + if m.readsCode c ∧
      c = sign then 1 else 0 := by
  have hcode : (emitOfCode c).count sign = if c = sign then 1 else 0 := by
    unfold emitOfCode
    by_cases hc : c = sign
    · subst hc
      simp [hblank, hslash]
    · rw [if_neg hc]
      split
      · rfl
      · split
        · rfl
        · simp [hc]
  rw [outside, List.count_append, Nat.add_comm]
  congr 1
  -- a sign counts where it is read as code; a slash that is held back is no
  -- sign
  cases m with
  | code => simpa [inLiteral, readsCode, emit] using hcode
  | slash =>
    by_cases hc : c = '/' ∨ c = '*'
    · have hsign : c ≠ sign := by
        rintro rfl
        exact hc.elim hslash hstar
      simp [inLiteral, emit, hc, hsign]
    · rw [not_or] at hc
      simpa [inLiteral, readsCode, emit, hc, Ne.symm hslash] using hcode
  | _ => simp [inLiteral, readsCode, emit]

theorem count_outside_of_blank (m : Mode) {b : Text} (hb : isBlank b = true) :
    (m.outside b).count sign = 0 := by
  induction b generalizing m with
  | nil => rfl
  | cons c rest ih =>
    rw [isBlank_cons, Bool.and_eq_true] at hb
    have hsign : c ≠ sign := ne_of_blank hb.1 hblank
    rw [count_outside_cons hblank hslash hstar, ih _ hb.2, if_neg (fun h => hsign h.2)]

/-- The blanks at the ends of a line do not matter for the signs in it. -/
theorem count_outside_trim {m : Mode} (h : m.IsLineStart) (line : Text) :
    (m.outside line).count sign = (m.outside (trim line)).count sign := by
  obtain ⟨a, b, ha, hb, hparts⟩ := exists_trim line
  rw [congrArg m.outside hparts, outside_append, outside_append, after_append,
    (blank_at_start h ha).1, List.count_append, List.count_append,
    count_outside_of_blank hblank hslash hstar m ha,
    count_outside_of_blank hblank hslash hstar _ hb, Nat.zero_add, Nat.add_zero]

end Signs

/-- The braces that normalization copies from outside literals while it reads a
text, and whether it stands in a block comment behind it. -/
def braces (m : Mode) (t : Text) : LineBraces where
  opening := (m.outside t).count '\x7b'
  closing := (m.outside t).count '\x7d'
  inComment := (m.after t).inBlockComment

theorem braces_cons (m : Mode) (c : Char) (rest : Text) : m.braces (c :: rest) =
    if m.readsCode c then ((m.next c).braces rest).count c
    else (m.next c).braces rest := by
  rw [braces, count_outside_cons (by decide) (by decide) (by decide),
    count_outside_cons (by decide) (by decide) (by decide), after_cons]
  cases m.readsCode c <;> simp [braces, LineBraces.count]

theorem braces_of_code {m : Mode} {c : Char} (h : m.readsCode c = true) (rest : Text) :
    m.braces (c :: rest) = ((m.next c).braces rest).count c := by
  rw [braces_cons, if_pos h]

theorem braces_of_skipped {m : Mode} {c : Char} (h : m.readsCode c = false)
    (rest : Text) :
    m.braces (c :: rest) = (m.next c).braces rest := by
  rw [braces_cons, h, if_neg (by decide)]

/-- The rest of a line comment holds no braces. -/
theorem braces_lineComment {t : Text} (h : '\n' ∉ t) :
    Mode.lineComment.braces t = {} := by
  obtain ⟨hafter, hemitted⟩ := lineComment_body h
  have houtside : Mode.lineComment.outside t = [] :=
    List.sublist_nil.mp (hemitted ▸ outside_sublist _ t)
  rw [braces, houtside, hafter]
  rfl

end Mode

/-! ## One line -/

/-- A reader of braces, with the rest of its line before it, stands where a
reader of code stands. It has looked ahead: what comes next makes no comment of
a slash that lies behind it, and ends none with a star. -/
inductive Follows : BraceReader → Mode → Text → Prop
  | code (rest : Text) : Follows .code .code rest
  | slash {rest : Text} (opens : OpensNoComment rest) : Follows .code .slash rest
  | comment {star : Bool} {rest : Text} (closes : star = true → rest.head? ≠ some '/') :
      Follows .comment (.blockComment star) rest
  | literal (quote : Char)
      (rest : Text) : Follows (.literal quote) (.literal quote false) rest

namespace Follows

theorem code_cons {m : Mode} {c : Char} {rest : Text}
    (h : Follows .code m (c :: rest)) :
    m.next c = Mode.nextOfCode c ∧ m.readsCode c = true := by
  cases h with
  | code => exact ⟨rfl, rfl⟩
  | slash opens =>
    have hslash : c ≠ '/' := fun hc => opens.1 (by rw [hc]; rfl)
    have hstar : c ≠ '*' := fun hc => opens.2 (by rw [hc]; rfl)
    simp [Mode.next, Mode.readsCode, hslash, hstar]

/-- Without an escape, a literal goes on or ends, unless the line does. -/
theorem braces_literal {quote c : Char} {rest : Text}
    (hmore : ∀ d tail, c = '\\' → rest = d :: tail → False) :
    (Mode.literal quote false).braces (c :: rest) =
      (if c = quote then Mode.code else .literal quote false).braces rest := by
  rw [Mode.braces_of_skipped rfl, Mode.next, if_neg (by decide)]
  by_cases hback : c = '\\'
  · cases rest with
    | nil => split <;> split <;> rfl
    | cons d tail => exact absurd rfl (hmore d tail hback)
  · rw [if_neg hback]

/-- **One line.** Readers that stand at the same place take the same
braces for code. -/
theorem readBraces_eq {reader : BraceReader} {m : Mode} {rest : Text}
    (h : Follows reader m rest) (hbreak : '\n' ∉ rest) :
    readBraces reader rest = m.braces rest := by
  fun_induction readBraces reader rest generalizing m with
  | case1 rest ih =>
    -- the end of a block comment
    cases h with
    | @comment star _ closes =>
      have hstar : (Mode.blockComment star).next '*' = .blockComment true :=
        if_neg (by simp)
      have hend : (Mode.blockComment true).next '/' = .code := rfl
      rw [Mode.braces_of_skipped rfl, hstar, Mode.braces_of_skipped rfl, hend,
        ih (.code rest) (by simp_all)]
  | case2 c rest hmore ih =>
    cases h with
    | @comment star _ closes =>
      have hnext : (Mode.blockComment star).next c = .blockComment (c = '*') :=
        if_neg fun ⟨hstar, hc⟩ => closes hstar (by rw [hc]; rfl)
      have hfollows : Follows .comment (.blockComment (c = '*')) rest := by
        refine .comment fun hstar hhead => ?_
        obtain ⟨tail, htail⟩ := List.head?_eq_some_iff.mp hhead
        exact hmore tail (by simpa using hstar) htail
      rw [Mode.braces_of_skipped rfl, hnext,
        ih hfollows (List.not_mem_of_not_mem_cons hbreak)]
  | case3 =>
    cases h
    rfl
  | case4 quote c rest ih =>
    -- an escape in a literal
    cases h
    have hescape : (Mode.literal quote false).next '\\' = .literal quote true := rfl
    have hnext : (Mode.literal quote true).next c = .literal quote false := rfl
    rw [Mode.braces_of_skipped rfl, hescape, Mode.braces_of_skipped rfl, hnext,
      ih (.literal quote rest) (by simp_all)]
  | case5 quote rest hmore ih =>
    cases h
    rw [braces_literal hmore, if_pos rfl,
      ih (.code rest) (List.not_mem_of_not_mem_cons hbreak)]
  | case6 quote c rest hmore hquote ih =>
    cases h
    rw [braces_literal hmore, if_neg hquote,
      ih (.literal quote rest) (List.not_mem_of_not_mem_cons hbreak)]
  | case7 quote =>
    cases h
    rfl
  | case8 rest =>
    -- the start of a line comment
    obtain ⟨hnext, hreads⟩ := h.code_cons
    have hslash : Mode.nextOfCode '/' = .slash := rfl
    have hopen : Mode.slash.next '/' = .lineComment := rfl
    rw [Mode.braces_of_code hreads, hnext, hslash, Mode.braces_of_skipped rfl, hopen,
      Mode.braces_lineComment (by simp_all)]
    rfl
  | case9 rest ih =>
    -- the start of a block comment
    obtain ⟨hnext, hreads⟩ := h.code_cons
    have hslash : Mode.nextOfCode '/' = .slash := rfl
    have hopen : Mode.slash.next '*' = .blockComment false := rfl
    have hfollows : Follows .comment (.blockComment false) rest :=
      .comment fun hstar => nomatch hstar
    rw [Mode.braces_of_code hreads, hnext, hslash, Mode.braces_of_skipped rfl, hopen,
      ih hfollows (by simp_all)]
    rfl
  | case10 c rest hline hblock hquote ih =>
    obtain ⟨hnext, hreads⟩ := h.code_cons
    have hopen : Mode.nextOfCode c = .literal c false := if_pos hquote
    rw [Mode.braces_of_code hreads, hnext, hopen,
      ih (.literal c rest) (List.not_mem_of_not_mem_cons hbreak)]
    rcases hquote with rfl | rfl <;> rfl
  | case11 c rest hline hblock hquote ih =>
    obtain ⟨hnext, hreads⟩ := h.code_cons
    have hfollows : Follows .code (Mode.nextOfCode c) rest := by
      rw [Mode.nextOfCode, if_neg hquote]
      split
      · next hc =>
        refine .slash ⟨fun hhead => ?_, fun hhead => ?_⟩ <;>
          obtain ⟨tail, htail⟩ := List.head?_eq_some_iff.mp hhead
        · exact hline tail hc htail
        · exact hblock tail hc htail
      · exact .code rest
    rw [Mode.braces_of_code hreads, hnext,
      ih hfollows (List.not_mem_of_not_mem_cons hbreak)]
  | case12 =>
    cases h <;> rfl

end Follows

/-- The readers stand at the same place at the start of a line. -/
theorem LineBraces.ofLine_eq {m : Mode} (h : m.IsLineStart) {line : Text}
    (hbreak : '\n' ∉ line) :
    LineBraces.ofLine m.inBlockComment line = m.braces line := by
  rcases h with rfl | rfl
  · exact (Follows.code line).readBraces_eq hbreak
  · have hfollows : Follows .comment (.blockComment false) line :=
      .comment fun hstar => nomatch hstar
    exact hfollows.readBraces_eq hbreak

/-- **A line that a closing brace leads counts it**, whatever follows. -/
theorem LineBraces.one_le_closing {inComment : Bool} {line : Text}
    (h : closesFirst inComment line = true) :
    1 ≤ (LineBraces.ofLine inComment line).closing := by
  rw [closesFirst, Bool.and_eq_true, Bool.not_eq_true', beq_iff_eq] at h
  obtain ⟨rfl, hhead⟩ := h
  obtain ⟨rest, rfl⟩ := List.head?_eq_some_iff.mp hhead
  have hread :
      LineBraces.ofLine false ('\x7d' :: rest) =
        (readBraces .code rest).count '\x7d' := rfl
  rw [hread, LineBraces.count, if_pos rfl]
  exact Nat.le_add_left 1 _

/-! ## Many lines -/

variable {style : Style} {depth : Nat}

/-- What layout reads off lines, each in the state that the lines
before it leave. -/
def readLines (style : Style) (depth : Nat) : LayoutState → List Text → List LineBraces
  | _, [] => []
  | state, raw :: rest =>
    .ofLine state.inComment (trim raw) ::
      readLines style depth (layoutLine style depth state raw).1 rest

/-- How many braces open in a text and how many close. -/
def braceCounts (t : Text) : Nat × Nat := (t.count '\x7b', t.count '\x7d')

/-- The numbers that were read off a line. -/
def LineBraces.counts (braces : LineBraces) : Nat × Nat :=
  (braces.opening, braces.closing)

/-- Only the line itself says whether a block comment is open behind it; a blank
line leaves it. -/
theorem inComment_layoutLine (state : LayoutState) (raw : Text) :
    (layoutLine style depth state raw).1.inComment =
      (LineBraces.ofLine state.inComment (trim raw)).inComment := by
  simp only [layoutLine]
  split
  · next hempty =>
    rw [List.isEmpty_iff.mp hempty]
    cases state.inComment <;> rfl
  · rfl

/-- A line break that is not in a literal leaves a block comment as it is. -/
theorem Mode.inBlockComment_next_break {m : Mode} (h : m.inLiteral = false) :
    (m.next '\n').inBlockComment = m.inBlockComment := by
  cases m with
  | literal quote escaped => cases h
  | blockComment star => cases star <;> rfl
  | _ => rfl

/-- A line is read by layout, without the blanks at its ends, as normalization
reads it with its break. -/
theorem LineBraces.counts_ofLine {m : Mode} (h : m.IsLineStart) {line b : Text}
    (hline : '\n' ∉ line) (hb : isBlank b = true) :
    (LineBraces.ofLine m.inBlockComment (trim line)).counts =
      braceCounts (m.outside (line ++ b)) := by
  have htrim : ∀ {sign : Char}, Char.isBlank sign = false → sign ≠ '/' → sign ≠ '*' →
      (m.outside (line ++ b)).count sign = (m.outside (trim line)).count sign := by
    intro sign hblank hslash hstar
    rw [Mode.count_outside_trim hblank hslash hstar h, trim_append_right hb]
  rw [LineBraces.ofLine_eq h (not_mem_trim hline), LineBraces.counts, Mode.braces,
    braceCounts, htrim (by decide) (by decide) (by decide),
    htrim (by decide) (by decide) (by decide)]

/-- **Many lines.** As long as no literal goes over a line break, layout counts
in each line the braces that normalization copies from it. -/
theorem map_counts_readLines {m : Mode} (h : m.IsLineStart) {t : Text}
    (hbreaks : m.BreaksOutside t) {state : LayoutState}
    (hstate : state.inComment = m.inBlockComment) :
    (readLines style depth state (lines t)).map LineBraces.counts =
      (m.outsideLines (fullLines t)).map braceCounts := by
  induction t using line_induction generalizing m state with
  | last line hline =>
    by_cases hnil : line = []
    · subst hnil
      rfl
    · have hcounts := LineBraces.counts_ofLine h hline isBlank_nil
      rw [List.append_nil] at hcounts
      rw [lines, fullLines_of_no_break hnil hline, List.map_singleton, readLines,
        trim_withoutBreak, hstate, List.map_cons, hcounts]
      rfl
  | step line rest hline ih =>
    have hbreak : isBlank ['\n'] = true := by decide
    obtain ⟨-, hclosed, hrest⟩ :=
      (Mode.breaksOutside_append m line ('\n' :: rest)).mp hbreaks
    have hlit : (m.after (trim line)).inLiteral = false := by
      rw [Mode.inLiteral_after_trim h, hclosed rfl]
    -- the state behind the line is where normalization stands behind its break
    have hnext :
        (layoutLine style depth state (withoutBreak (line ++ ['\n']))).1.inComment =
        ((m.after line).next '\n').inBlockComment := by
      rw [inComment_layoutLine, trim_withoutBreak, trim_append_right hbreak, hstate,
        LineBraces.ofLine_eq h (not_mem_trim hline), (Mode.trimmed_line h hlit).2.1,
        Mode.inBlockComment_next_break hlit]
      rfl
    rw [lines, fullLines_append_cons hline, List.map_cons, readLines,
      trim_withoutBreak, trim_append_right hbreak, hstate, List.map_cons,
      LineBraces.counts_ofLine h hline hbreak, Mode.outsideLines, List.map_cons,
      Mode.after_append]
    exact congrArg _ (ih (Mode.isLineStart_next_break (hclosed rfl)) hrest hnext)

/-- Layout counts in each line of a text the braces that normalization copies
from it, outside literals. -/
def CountsAsCode (style : Style) (depth : Nat) (t : Text) : Prop :=
  (readLines style depth {} (lines t)).map LineBraces.counts =
    (Mode.code.outsideLines (fullLines t)).map braceCounts

/-- **Braces are read as code is read.** A line that a closing brace leads
counts at least one, so that this one can be taken off. In code with no literal
that goes over a line break, layout counts in each line the braces that
normalization copies from it outside literals; this holds for the lines of the
code and for those that are laid out, where the line feeds at its ends are gone.
A literal that is left open on the last line does no harm. -/
theorem braces_read_as_code (style : Style) (depth : Nat) (code : Text) :
    (∀ inComment line, closesFirst inComment line = true →
      1 ≤ (LineBraces.ofLine inComment line).closing) ∧
    (Mode.code.outsideLines (fullLines code)).flatten.Sublist (normalize code) ∧
    (Mode.code.BreaksOutside code →
      CountsAsCode style depth code ∧
      CountsAsCode style depth (trimChar '\n' code)) := by
  refine ⟨fun _ _ => LineBraces.one_le_closing, ?_, fun hbreaks => ⟨?_, ?_⟩⟩
  · rw [Mode.flatten_outsideLines, flatten_fullLines, normalize, Mode.significant_eq]
    exact (Mode.outside_sublist _ code).trans (List.sublist_append_left _ _)
  · exact map_counts_readLines isLineStart_code hbreaks rfl
  · obtain ⟨a, b, ha, -, hparts⟩ := exists_trimChar_break code
    rw [hparts, List.append_assoc, Mode.breaksOutside_append, Mode.breaksOutside_append,
      (Mode.blank_at_start isLineStart_code ha).1] at hbreaks
    exact map_counts_readLines isLineStart_code hbreaks.2.1 rfl

namespace BracesSample

/-- Braces in comments and in literals, beside escapes and a comment that begins
with a slash. -/
def code : Text :=
  "\n/* \x7b\n * \x7d */ if (a / b > 0) \x7b\n  s = \"\\\"\x7b\"; // \x7d\n".toList ++
    "\x7d else \x7b c = '\x7d'; \x7d /*/ \x7d */ \x7b\n".toList

end BracesSample

open BracesSample in
/-- In the sample, four lines are laid out, of which only two have
braces of code. -/
theorem braces_read_as_code_sample :
    (closesFirst false "\x7d else \x7b c = '\x7d'; \x7d" = true ∧
      1 ≤ (LineBraces.ofLine false "\x7d else \x7b c = '\x7d'; \x7d").closing) ∧
    Mode.code.BreaksOutside code ∧ CountsAsCode {} 1 (trimChar '\n' code) ∧
    (Mode.code.outsideLines (fullLines (trimChar '\n' code))).map braceCounts =
      [(0, 0), (1, 0), (0, 0), (2, 2)] := by
  obtain ⟨hleads, -, hlines⟩ := braces_read_as_code {} 1 code
  have hfirst : closesFirst false "\x7d else \x7b c = '\x7d'; \x7d" = true := by
    decide +kernel
  have hbreaks : Mode.code.BreaksOutside code := by decide +kernel
  exact ⟨⟨hfirst, hleads _ _ hfirst⟩, hbreaks, (hlines hbreaks).2, by decide +kernel⟩

/-- To both readers a text block is a literal with line breaks in it, and layout
takes each of its lines for code. -/
example : ¬ CountsAsCode {} 0 "s = \"\"\"\n  \x7b\n  \"\"\";" := by
  unfold CountsAsCode
  decide +kernel

end Code

end Graft
