import Graft.Proofs.Code.Stability
import Graft.Settings.Basic

/-!
# The style of code that is laid out

Layout moves a line in by whole units, and the star of a comment that goes on by
one blank more. Detection passes over lines with a star in front and takes the
smallest indentation that is left, so that one line at the first level is enough
to find the unit again (`detect_layout`).
-/

namespace Graft

namespace Text

/-- Without its line feed, a line loses at most a carriage return. -/
theorem exists_withoutBreak_append (piece : Text) :
    ∃ b, isBlank b = true ∧ piece = withoutBreak (piece ++ ['\n']) ++ b := by
  rw [withoutBreak, List.reverse_append, List.reverse_singleton, List.singleton_append]
  split
  · next rest h =>
    refine ⟨['\r'], by decide, ?_⟩
    simpa using congrArg List.reverse (List.cons.inj h).2
  · next rest _ h =>
    refine ⟨[], rfl, ?_⟩
    simpa using congrArg List.reverse (List.cons.inj h).2
  · next h => exact absurd rfl (h piece.reverse)

/-- The lines of a text stand between its line feeds, up to a
carriage return. -/
theorem exists_of_mem_lines_join {pieces : List Text}
    (hpieces : ∀ piece ∈ pieces, '\n' ∉ piece) {line : Text}
    (h : line ∈ lines (join ['\n'] pieces)) :
    ∃ piece ∈ pieces, ∃ b, isBlank b = true ∧ piece = line ++ b := by
  induction pieces with
  | nil => cases h
  | cons piece rest ih =>
    obtain ⟨hpiece, hrest⟩ := List.forall_mem_cons.mp hpieces
    by_cases hlast : rest = []
    · subst hlast
      have hjoin : join ['\n'] [piece] = piece := by simp [join, List.intercalate]
      have hne : piece ≠ [] := by
        rintro rfl
        cases h
      rw [hjoin, lines, fullLines_of_no_break hne hpiece, List.map_singleton,
        withoutBreak_of_no_break hpiece, List.mem_singleton] at h
      exact ⟨piece, List.mem_cons_self, [], rfl, by rw [h, List.append_nil]⟩
    · have hbreak : (piece ++ ['\n']).getLast? = some '\n' := List.getLast?_concat
      rw [join_cons _ _ hlast, List.append_cons, lines, fullLines_append (.inr hbreak),
        fullLines_line hpiece, List.singleton_append, List.map_cons] at h
      rcases List.mem_cons.mp h with rfl | hmore
      · exact ⟨piece, List.mem_cons_self, exists_withoutBreak_append piece⟩
      · obtain ⟨piece', hmem, hparts⟩ := ih hrest hmore
        exact ⟨piece', List.mem_cons_of_mem _ hmem, hparts⟩

theorem exists_of_mem_lines {t line : Text} (h : line ∈ lines t) :
    ∃ piece ∈ splitOn '\n' t, ∃ b, isBlank b = true ∧ piece = line ++ b := by
  rw [← join_splitOn '\n' t] at h
  exact exists_of_mem_lines_join (fun _ => not_mem_of_mem_splitOn) h

end Text

namespace Code

open Text

namespace Style

/-! ## The evidence of a line -/

/-- What the blanks in front of a line say about its style. -/
def evidenceOfFront (front : Text) : Evidence :=
  match front with
  | [] => .nothing
  | '\t' :: _ => .tab
  | _ => if front.count ' ' = 0 then .nothing else .blanks (front.count ' ')

theorem evidenceOfFront_spaces (n : Nat) :
    evidenceOfFront (List.replicate n ' ') = if n = 0 then .nothing else .blanks n := by
  cases n with
  | zero => rfl
  | succ n =>
    have hcount : (List.replicate (n + 1) ' ').count ' ' = n + 1 :=
      List.count_replicate_self
    have hfront : evidenceOfFront (List.replicate (n + 1) ' ') =
        if (List.replicate (n + 1) ' ').count ' ' = 0 then .nothing
        else .blanks ((List.replicate (n + 1) ' ').count ' ') := rfl
    rw [hfront, hcount]

theorem evidence_eq {front : Text} (hfront : isBlank front = true) {c : Char}
    (hc : Char.isBlank c = false) (hstar : c ≠ '*') (rest : Text) :
    evidence (front ++ c :: rest) = evidenceOfFront front := by
  have hcontent : trimStart (front ++ c :: rest) = c :: rest := by
    rw [trimStart_append_of_blank hfront, trimStart_of_solid hc]
  have hlength : (front ++ c :: rest).length - (c :: rest).length = front.length := by
    rw [List.length_append, Nat.add_sub_cancel]
  rw [evidence, hcontent, hlength, List.take_left, if_neg (by simpa using hstar)]
  rfl

theorem evidence_of_star {front : Text} (hfront : isBlank front = true) (rest : Text) :
    evidence (front ++ '*' :: rest) = .nothing := by
  have hstar : Char.isBlank '*' = false := by decide
  rw [evidence, trimStart_append_of_blank hfront, trimStart_of_solid hstar]
  rfl

theorem evidence_of_blank {line : Text} (h : isBlank line = true) :
    evidence line = .nothing := by
  rw [evidence, (trimStart_eq_nil_iff line).mpr h]
  rfl

/-- Blanks at the end of a line say nothing. -/
theorem evidence_append_blank {b : Text} (hb : isBlank b = true) (line : Text) :
    evidence (line ++ b) = evidence line := by
  by_cases hline : isBlank line = true
  · rw [evidence_of_blank hline,
      evidence_of_blank (by rw [isBlank_append, hline, hb]; rfl)]
  · obtain ⟨front, hfront, hparts⟩ := exists_append_trimStart line
    cases hcontent : trimStart line with
    | nil => exact absurd ((trimStart_eq_nil_iff line).mp hcontent) hline
    | cons c rest =>
      have hc := head_trimStart hcontent
      rw [hparts, hcontent, List.append_assoc, List.cons_append]
      by_cases hstar : c = '*'
      · rw [hstar, evidence_of_star hfront, evidence_of_star hfront]
      · rw [evidence_eq hfront hc hstar, evidence_eq hfront hc hstar]

/-! ## Levels -/

/-- A line stands at a level: so many units are in front of its first character
that is not blank, and this character is not a star. -/
def StandsAt (s : Style) (level : Nat) (line : Text) : Prop :=
  ∃ c rest, line = s.indent level ++ c :: rest ∧ Char.isBlank c = false ∧ c ≠ '*'

variable {s : Style}

theorem indent_of_tab (h : s.indentChar = .tab) (level : Nat) :
    s.indent level = List.replicate level '\t' := by
  rw [indent, unit, h]
  exact List.flatten_replicate_singleton

theorem indent_of_space (h : s.indentChar = .space) (level : Nat) :
    s.indent level = List.replicate (level * s.indentSize) ' ' := by
  rw [indent, unit, h]
  exact List.flatten_replicate_replicate

theorem StandsAt.evidence_eq {level : Nat} {line : Text} (h : s.StandsAt level line) :
    evidence line = evidenceOfFront (s.indent level) := by
  obtain ⟨c, rest, rfl, hc, hstar⟩ := h
  exact Style.evidence_eq (s.isBlank_indent level) hc hstar rest

theorem StandsAt.evidence_tab (htab : s.indentChar = .tab) {level : Nat} {line : Text}
    (h : s.StandsAt level line) :
    evidence line = if level = 0 then .nothing else .tab := by
  rw [h.evidence_eq, indent_of_tab htab]
  cases level <;> rfl

theorem StandsAt.evidence_space (hspace : s.indentChar = .space) {level : Nat}
    {line : Text} (h : s.StandsAt level line) : evidence line =
      if level * s.indentSize = 0 then .nothing
      else .blanks (level * s.indentSize) := by
  rw [h.evidence_eq, indent_of_space hspace, evidenceOfFront_spaces]

/-! ## The evidence of many lines -/

/-- Tabs are found as soon as there is a line with one and none that says
anything else. -/
theorem ofLines_of_tab {lines : List Text}
    (hall : ∀ line ∈ lines, evidence line = .nothing ∨ evidence line = .tab)
    (hsome : ∃ line ∈ lines, evidence line = .tab) (smallest : Option Nat) :
    ofLines smallest lines = { indentChar := .tab, indentSize := 1 } := by
  induction lines with
  | nil => simp at hsome
  | cons line rest ih =>
    obtain ⟨hline, hrest⟩ := List.forall_mem_cons.mp hall
    rw [ofLines]
    rcases hline with hnothing | htab
    · rw [hnothing]
      apply ih hrest
      obtain ⟨line', hmem, htab⟩ := hsome
      rcases List.mem_cons.mp hmem with rfl | hmem
      · rw [hnothing] at htab
        cases htab
      · exact ⟨line', hmem, htab⟩
    · rw [htab]

/-- The smallest indentation is found: it was seen before, or it
is still to come. -/
theorem ofLines_of_blanks {n : Nat} (hn : 1 ≤ n ∧ n ≤ 8) {lines : List Text}
    (hall : ∀ line ∈ lines, evidence line = .nothing ∨ ∃ m, n ≤ m ∧
      evidence line = .blanks m) {smallest : Option Nat}
    (hsmallest : ∀ m ∈ smallest, n ≤ m)
    (hsome : smallest = some n ∨ ∃ line ∈ lines, evidence line = .blanks n) :
    ofLines smallest lines = { indentSize := n } := by
  -- the smallest size so far is never below `n`, and `n` is it or is still to
  -- come
  induction lines generalizing smallest with
  | nil =>
    obtain rfl : smallest = some n := by simpa using hsome
    rw [ofLines]
    exact if_pos hn
  | cons line rest ih =>
    obtain ⟨hline, hrest⟩ := List.forall_mem_cons.mp hall
    rw [ofLines]
    rcases hline with hnothing | ⟨m, hm, hblanks⟩
    · rw [hnothing]
      refine ih hrest hsmallest (hsome.imp_right ?_)
      rintro ⟨line', hmem, hblanks⟩
      rcases List.mem_cons.mp hmem with rfl | hmem
      · rw [hnothing] at hblanks
        cases hblanks
      · exact ⟨line', hmem, hblanks⟩
    · rw [hblanks]
      cases smallest with
      | none =>
        refine ih hrest (by simpa using hm) ?_
        obtain ⟨line', hmem, hblanks'⟩ := hsome.resolve_left (by simp)
        rcases List.mem_cons.mp hmem with rfl | hmem
        · rw [hblanks] at hblanks'
          obtain rfl : m = n := by simpa using hblanks'
          exact .inl rfl
        · exact .inr ⟨line', hmem, hblanks'⟩
      | some k =>
        have hk : n ≤ k := hsmallest k rfl
        show ofLines (some (min k m)) rest = _
        refine ih hrest (by simpa using Nat.le_min.mpr ⟨hk, hm⟩) ?_
        rcases hsome with hfound | ⟨line', hmem, hblanks'⟩
        · obtain rfl : k = n := by simpa using hfound
          exact .inl (congrArg some (Nat.min_eq_left hm))
        · rcases List.mem_cons.mp hmem with rfl | hmem
          · rw [hblanks] at hblanks'
            obtain rfl : m = n := by simpa using hblanks'
            exact .inl (congrArg some (Nat.min_eq_right hk))
          · exact .inr ⟨line', hmem, hblanks'⟩

end Style

open Style

/-! ## Code that is laid out -/

section

variable {style : Style} {depth : Nat}

/-- The level that a line is laid out at. -/
def lineLevel (depth : Nat) (state : LayoutState) (raw : Text) : Nat :=
  depth + if closesFirst state.inComment (trim raw) then state.level - 1
    else state.level

/-- A line of code that is laid out is empty, stands at its level, or has
a star in front. -/
theorem layoutLine_cases (style : Style) (depth : Nat) (state : LayoutState)
    (raw : Text) :
    (layoutLine style depth state raw).2 = [] ∨
      style.StandsAt (lineLevel depth state raw) (layoutLine style depth state raw).2 ∨
      ∃ front rest, isBlank front = true ∧
        (layoutLine style depth state raw).2 = front ++ '*' :: rest := by
  simp only [layoutLine]
  cases htrim : trim raw with
  | nil => exact .inl rfl
  | cons c rest =>
    have hc : Char.isBlank c = false := head_trimStart (by rw [trimStart_trim, htrim])
    rw [if_neg (by simp)]
    by_cases hstar : c = '*'
    · subst hstar
      refine .inr (.inr ⟨_, rest, ?_, rfl⟩)
      rw [isBlank_append, style.isBlank_indent]
      split <;> rfl
    · refine .inr (.inl ⟨c, rest, ?_, hc, hstar⟩)
      rw [lineLevel, htrim]
      simp [hstar]

theorem exists_of_mem_layoutLines {state : LayoutState} {lines : List Text}
    {line : Text} (h : line ∈ layoutLines style depth state lines) :
    ∃ state' raw, line = (layoutLine style depth state' raw).2 := by
  induction lines generalizing state with
  | nil => cases h
  | cons raw rest ih =>
    rw [layoutLines_cons] at h
    rcases List.mem_cons.mp h with hline | hmore
    · exact ⟨state, raw, hline⟩
    · exact ih hmore

/-- Each line of code that is laid out says nothing about its style, or as much
as a level does. -/
theorem evidence_of_mem_lines_layout {code line : Text}
    (h : line ∈ Text.lines (layout style depth code)) :
    evidence line = .nothing ∨ ∃ level laidOut, style.StandsAt level laidOut ∧
      evidence line = evidence laidOut := by
  obtain ⟨piece, hpiece, b, hb, hparts⟩ := exists_of_mem_lines h
  rw [splitOn_layout] at hpiece
  obtain ⟨state, raw, hlayout⟩ := exists_of_mem_layoutLines hpiece
  rw [← evidence_append_blank hb line, ← hparts, hlayout]
  rcases layoutLine_cases style depth state raw with
    hempty | hstands | ⟨front, rest, hfront, hstar⟩
  · rw [hempty]
    exact .inl rfl
  · exact .inr ⟨_, _, hstands, rfl⟩
  · rw [hstar]
    exact .inl (evidence_of_star hfront rest)

theorem checkStyle_eq_ok_iff (s : Style) : Settings.checkStyle s = .ok () ↔
    (s.indentChar = .space → 1 ≤ s.indentSize ∧ s.indentSize ≤ 8) ∧
    40 ≤ s.lineWidth := by
  rw [Settings.checkStyle]
  split
  · next h =>
    constructor
    · intro hok
      cases hok
    · intro hok
      exact absurd (hok.1 h.1) h.2
  · next h =>
    rw [not_and, not_not] at h
    split
    · next hwidth =>
      constructor
      · intro hok
        cases hok
      · intro hok
        omega
    · next hwidth => exact ⟨fun _ => ⟨h, by omega⟩, fun _ => rfl⟩

/-- **Detection finds the style that code is laid out in**, as soon as a line
stands at the first level: the same character makes the indentation, and a level
has the same unit. -/
theorem detect_layout (valid : Settings.checkStyle style = .ok ()) (depth : Nat)
    (code : Text)
    (first : ∃ line ∈ Text.lines (layout style depth code), style.StandsAt 1 line) :
    (detect (layout style depth code)).indentChar = style.indentChar ∧
      (detect (layout style depth code)).unit = style.unit := by
  obtain ⟨line, hline, hfirst⟩ := first
  -- tabs show on every line that is indented, blanks by the smallest
  -- indentation
  cases hchar : style.indentChar with
  | tab =>
    have hdetect : detect (layout style depth code) =
        { indentChar := .tab, indentSize := 1 } := by
      apply ofLines_of_tab
      · intro line' hline'
        rcases evidence_of_mem_lines_layout hline' with
          hnothing | ⟨level, laidOut, hstands, heq⟩
        · exact .inl hnothing
        · rw [heq, hstands.evidence_tab hchar]
          split
          · exact .inl rfl
          · exact .inr rfl
      · exact ⟨line, hline, hfirst.evidence_tab hchar⟩
    rw [hdetect, unit, unit, hchar]
    exact ⟨rfl, rfl⟩
  | space =>
    have hsize := ((checkStyle_eq_ok_iff style).mp valid).1 hchar
    have hdetect : detect (layout style depth code) =
        { indentSize := style.indentSize } := by
      apply ofLines_of_blanks hsize
      · intro line' hline'
        rcases evidence_of_mem_lines_layout hline' with
          hnothing | ⟨level, laidOut, hstands, heq⟩
        · exact .inl hnothing
        · rw [heq, hstands.evidence_space hchar]
          split
          · exact .inl rfl
          · next hne =>
            have hlevel : 1 ≤ level :=
              Nat.pos_of_ne_zero (fun h => hne (by rw [h, Nat.zero_mul]))
            exact .inr ⟨_, Nat.le_mul_of_pos_left _ hlevel, rfl⟩
      · exact fun m hm => by cases hm
      · refine .inr ⟨line, hline, ?_⟩
        rw [hfirst.evidence_space hchar, Nat.one_mul, if_neg (by omega)]
    rw [hdetect, unit, unit, hchar]
    exact ⟨rfl, rfl⟩

end

namespace DetectionSample

/-- Two blanks make a level. -/
def style : Style := { indentSize := 2 }

/-- A class with a comment that goes on over lines and a method inside it. -/
def code : Text :=
  "class A \x7b\n/**\n* Counts \x7b.\n*/\nint n;\nvoid f() \x7b\nn++;\n\x7d\n\x7d"

end DetectionSample

open DetectionSample in
/-- In the sample, the field stands at the first level; three blanks are in
front of the stars. -/
theorem detect_layout_sample :
    Settings.checkStyle style = .ok () ∧
      "  int n;".toList ∈ Text.lines (layout style 0 code) ∧
      "   */".toList ∈ Text.lines (layout style 0 code) ∧
      style.StandsAt 1 "  int n;" ∧
      (detect (layout style 0 code)).indentChar = .space ∧
      (detect (layout style 0 code)).unit = "  ".toList := by
  have valid : Settings.checkStyle style = .ok () := by decide
  have hfield : "  int n;".toList ∈ Text.lines (layout style 0 code) := by decide
  have hfirst : style.StandsAt 1 "  int n;" := ⟨'i', "nt n;".toList, by decide⟩
  have hdetect := detect_layout valid 0 code ⟨_, hfield, hfirst⟩
  exact ⟨valid, hfield, by decide, hfirst, hdetect.1, hdetect.2⟩

end Code

end Graft
