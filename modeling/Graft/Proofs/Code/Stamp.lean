import Graft.Code.Stamp
import Graft.Proofs.Code.Layout

/-!
# Where the stamp goes

Stamped code holds the marker behind its leading comments, and nothing else is
added to what it holds. Laid out, the marker has a line for itself, which a
reader finds in front of everything that is significant. A comment that shares
its line with the declaration takes the declaration with it: the marker goes
behind both (`IsCommentedLine`).
-/

namespace Graft.Code

/-! ## Leading comments -/

/-- Every line but the last ends with its break. -/
theorem getLast?_of_mem_dropLast {t line : Text}
    (h : line ∈ (Text.fullLines t).dropLast) :
    line.getLast? = some '\n' := by
  induction t generalizing line with
  | nil => cases h
  | cons c rest ih =>
    rw [Text.fullLines] at h
    split at h
    · next hc =>
      cases hl : Text.fullLines rest with
      | nil =>
        rw [hl] at h
        cases h
      | cons first lines =>
        rw [hl, List.dropLast_cons_of_ne_nil (List.cons_ne_nil _ _), ← hl] at h
        rcases List.mem_cons.mp h with rfl | h
        · rw [eq_of_beq hc]
          rfl
        · exact ih h
    · cases hl : Text.fullLines rest with
      | nil =>
        rw [hl] at h
        cases h
      | cons first lines =>
        rw [hl] at h ih
        cases lines with
        | nil => cases h
        | cons second lines =>
          rw [List.dropLast_cons_of_ne_nil (List.cons_ne_nil _ _)] at h ih
          rcases List.mem_cons.mp h with rfl | h
          · have hfirst := ih List.mem_cons_self
            cases first with
            | nil => cases hfirst
            | cons d first => rw [List.getLast?_cons_cons, hfirst]
          · exact ih (List.mem_cons_of_mem _ h)

theorem spanLeading_append (inBlock : Bool) (lines : List Text) :
    (spanLeading inBlock lines).1 ++ (spanLeading inBlock lines).2 = lines := by
  induction lines generalizing inBlock with
  | nil => rfl
  | cons line rest ih =>
    simp only [spanLeading]
    split
    · rfl
    · rw [List.cons_append, ih]

/-- The first line that does not lead is not blank. -/
theorem spanLeading_not_blank {inBlock : Bool} {lines others : List Text}
    {line : Text} (h : (spanLeading inBlock lines).2 = line :: others) :
    Text.isBlank line = false := by
  induction lines generalizing inBlock with
  | nil => cases h
  | cons first rest ih =>
    simp only [spanLeading] at h
    split at h
    · next hleads =>
      cases h
      rw [← Bool.not_eq_true]
      intro hblank
      have htrim : Text.trim line = [] := by
        rw [Text.trim, (Text.trimStart_eq_nil_iff line).mpr hblank]
        rfl
      rw [leadingLine, htrim] at hleads
      cases inBlock <;> simp at hleads
    · exact ih h

/-- In front of a declaration, leading comments end with a line break. -/
theorem leading_ends_with_break {t : Text} (h : (splitLeadingComments t).2 ≠ []) :
    (splitLeadingComments t).1 = [] ∨
      (splitLeadingComments t).1.getLast? = some '\n' := by
  have hlines := spanLeading_append false (Text.fullLines t)
  have hothers : (spanLeading false (Text.fullLines t)).2 ≠ [] := by
    intro hnil
    exact h (by simp [splitLeadingComments, hnil])
  have hleading : ∀ line ∈ (spanLeading false (Text.fullLines t)).1,
      line.getLast? = some '\n' := by
    intro line hline
    apply getLast?_of_mem_dropLast (t := t)
    rw [← hlines, List.dropLast_append_of_ne_nil hothers]
    exact List.mem_append_left _ hline
  rcases List.eq_nil_or_concat (spanLeading false (Text.fullLines t)).1 with
    hnil | ⟨front, last, heq⟩
  · left
    simp [splitLeadingComments, hnil]
  · right
    have hlast := hleading last (by simp [heq])
    simp [splitLeadingComments, heq, List.getLast?_append, hlast]

/-- A declaration is not blank. -/
theorem trimStart_declaration_ne_nil {t : Text} (h : (splitLeadingComments t).2 ≠ []) :
    Text.trimStart (splitLeadingComments t).2 ≠ [] := by
  intro hnil
  have hblank := (Text.trimStart_eq_nil_iff _).mp hnil
  cases hothers : (spanLeading false (Text.fullLines t)).2 with
  | nil => exact h (by simp [splitLeadingComments, hothers])
  | cons line others =>
    simp only [splitLeadingComments, hothers, List.flatten_cons, Text.isBlank_append,
      spanLeading_not_blank hothers] at hblank
    cases hblank

/-! ## The marker -/

/-- The marker for a hash, without its line break. -/
def mark (h : Int32) : Text := "@Generated(hash = " ++ showHash h ++ ")"

theorem marker_eq (h : Int32) : marker h = mark h ++ ['\n'] := by
  have hend : ")\n".toList = ")".toList ++ ['\n'] := by decide +kernel
  unfold marker mark
  simp only [hend, List.append_assoc]

theorem mem_showHash {h : Int32} {c : Char} (hc : c ∈ showHash h) :
    c.isDigit = true ∨ c = '-' := by
  rw [showHash, Text.ofInt] at hc
  split at hc
  · rcases List.mem_cons.mp hc with rfl | hc
    · exact .inr rfl
    · exact .inl (Nat.isDigit_of_mem_toDigits (by decide) (by decide) hc)
  · exact .inl (Nat.isDigit_of_mem_toDigits (by decide) (by decide) hc)

/-- A character that opens or closes neither a literal nor a
comment nor a line. -/
def IsPlain (c : Char) : Prop := c ≠ '"' ∧ c ≠ '\'' ∧ c ≠ '/' ∧ c ≠ '\n'

instance (c : Char) : Decidable (IsPlain c) := inferInstanceAs (Decidable (_ ∧ _))

theorem isPlain_of_mem_showHash {h : Int32} {c : Char} (hc : c ∈ showHash h) :
    IsPlain c := by
  rcases mem_showHash hc with hdigit | hminus
  · refine ⟨?_, ?_, ?_, ?_⟩ <;> rintro rfl <;> revert hdigit <;> decide
  · rw [hminus]
    decide

/-- The marker stands on one line and holds no literal and no comment. -/
theorem isPlain_of_mem_mark {h : Int32} {c : Char} (hc : c ∈ mark h) : IsPlain c := by
  have hfront : "@Generated(hash = ".toList.all
      (fun c => decide (IsPlain c)) = true := by
    decide +kernel
  have hback : ")".toList.all (fun c => decide (IsPlain c)) = true := by decide +kernel
  unfold mark at hc
  rcases List.mem_append.mp hc with hc | hc
  · rcases List.mem_append.mp hc with hc | hc
    · exact of_decide_eq_true (List.all_eq_true.mp hfront c hc)
    · exact isPlain_of_mem_showHash hc
  · exact of_decide_eq_true (List.all_eq_true.mp hback c hc)

/-- A plain text is read as code. -/
theorem after_plain {t : Text} (h : ∀ c ∈ t, IsPlain c) :
    Mode.code.after t = .code := by
  induction t with
  | nil => rfl
  | cons c rest ih =>
    obtain ⟨hdouble, hsingle, hslash, -⟩ := h c List.mem_cons_self
    have hnext : Mode.code.next c = .code := by
      rw [Mode.next, Mode.nextOfCode, if_neg (by simp [hdouble, hsingle]),
        if_neg hslash]
    rw [Mode.after_cons, hnext]
    exact ih fun d hd => h d (List.mem_cons_of_mem _ hd)

theorem after_mark (h : Int32) : Mode.code.after (mark h) = .code :=
  after_plain fun _ hc => isPlain_of_mem_mark hc

/-- Of plain text, all is significant but the blanks. -/
theorem emitted_plain {t : Text} (h : ∀ c ∈ t, IsPlain c) :
    Mode.code.emitted t = t.filter (fun c => !Char.isBlank c) := by
  induction t with
  | nil => rfl
  | cons c rest ih =>
    have hplain : Mode.code.after [c] = .code :=
      after_plain (by simpa using h c List.mem_cons_self)
    have hnext : Mode.code.next c = .code := hplain
    have hslash : c ≠ '/' := (h c List.mem_cons_self).2.2.1
    have hemit : Mode.code.emit c = if Char.isBlank c then [] else [c] := by
      rw [Mode.emit, Mode.emitOfCode, if_neg hslash]
    rw [Mode.emitted_cons, hnext, hemit, ih fun d hd => h d (List.mem_cons_of_mem c hd),
      List.filter_cons]
    cases Char.isBlank c <;> rfl

theorem isBlank_of_mem_showHash {h : Int32} {c : Char} (hc : c ∈ showHash h) :
    Char.isBlank c = false := by
  rcases mem_showHash hc with hdigit | rfl
  · simp only [Char.isDigit, Bool.and_eq_true, decide_eq_true_eq] at hdigit
    have hlow : 48 ≤ c.toNat := hdigit.1
    have hhigh : c.toNat ≤ 57 := hdigit.2
    simp [Char.isBlank]
    omega
  · decide

/-- The significant text of the marker for a hash. -/
theorem emitted_mark (h : Int32) :
    Mode.code.emitted (mark h) = "@Generated(hash=" ++ showHash h ++ ")" := by
  have hhash : (showHash h).filter (fun c => !Char.isBlank c) = showHash h := by
    rw [List.filter_eq_self]
    intro c hc
    rw [isBlank_of_mem_showHash hc]
    rfl
  have hfront : "@Generated(hash = ".toList.filter (fun c => !Char.isBlank c) =
      "@Generated(hash=".toList := by decide +kernel
  have hback : ")".toList.filter (fun c => !Char.isBlank c) = ")".toList := by
    decide +kernel
  rw [emitted_plain fun c hc => isPlain_of_mem_mark hc]
  unfold mark
  rw [List.filter_append, List.filter_append, hhash, hfront, hback]

theorem breaksOutside_of_no_break {m : Mode} {t : Text} (h : '\n' ∉ t) :
    m.BreaksOutside t := by
  induction t generalizing m with
  | nil => trivial
  | cons c rest ih =>
    rw [List.mem_cons, not_or] at h
    exact ⟨fun hc => absurd hc.symm h.1, ih h.2⟩

theorem mark_eq_cons (h : Int32) : ∃ rest, mark h = '@' :: rest := ⟨_, rfl⟩

theorem getLast?_mark (h : Int32) : (mark h).getLast? = some ')' := by
  have hend : ")".toList = [')'] := by decide +kernel
  unfold mark
  rw [hend, List.getLast?_concat]

theorem trimEnd_append_mark (t : Text) (h : Int32) :
    Text.trimEnd (t ++ mark h) = t ++ mark h := by
  obtain ⟨start, hstart⟩ := List.getLast?_eq_some_iff.mp (getLast?_mark h)
  rw [hstart, ← List.append_assoc]
  exact Text.trimEnd_concat_of_solid (by decide) _

theorem trim_mark (h : Int32) : Text.trim (mark h) = mark h := by
  have hstart : Text.trimStart (mark h) = mark h := by
    obtain ⟨rest, hrest⟩ := mark_eq_cons h
    rw [hrest]
    exact Text.trimStart_of_solid (by decide)
  rw [Text.trim, hstart]
  exact trimEnd_append_mark [] h

/-! ## Stamped code -/

/-- Code that can be stamped: its leading comments hold nothing significant and
are closed, a declaration follows, and literals end on their lines. -/
structure Stampable (t : Text) : Prop where
  outside : Mode.code.after (splitLeadingComments t).1 = .code
  empty : Mode.code.emitted (splitLeadingComments t).1 = []
  declares : (splitLeadingComments t).2 ≠ []
  closed : ClosesLiterals t

instance (t : Text) : Decidable (Stampable t) :=
  decidable_of_iff
    ((Mode.code.after (splitLeadingComments t).1 = .code ∧
        Mode.code.emitted (splitLeadingComments t).1 = []) ∧
      (splitLeadingComments t).2 ≠ [] ∧ ClosesLiterals t)
    ⟨fun ⟨⟨h1, h2⟩, h3, h4⟩ => ⟨h1, h2, h3, h4⟩,
      fun h => ⟨⟨h.outside, h.empty⟩, h.declares, h.closed⟩⟩

theorem stamp_eq (t : Text) : stamp t = (splitLeadingComments t).1 ++
    (mark (structuralHash t) ++ '\n' :: Text.trimStart (splitLeadingComments t).2) := by
  simp [stamp, marker_eq]

/-- Code that is marked holds the marker at least. -/
theorem isBlank_ensureStamped (t : Text) : Text.isBlank (ensureStamped t) = false := by
  have hat : Char.isBlank '@' = false := by decide
  rw [ensureStamped]
  by_cases hmarked : isMarked t = true
  · -- a text that starts with a marker starts with its sign
    rw [if_pos hmarked, ← splitLeadingComments_append t, Text.isBlank_append]
    rw [isMarked] at hmarked
    have hne : Text.trimStart (splitLeadingComments t).2 ≠ [] := by
      intro hnil
      rw [hnil, startsWithMarker] at hmarked
      · cases hmarked
      · intro n rest _ h
        cases h
    cases hblank : Text.isBlank (splitLeadingComments t).2 with
    | true => exact absurd ((Text.trimStart_eq_nil_iff _).mpr hblank) hne
    | false => rw [Bool.and_false]
  · obtain ⟨rest, hrest⟩ := mark_eq_cons (structuralHash t)
    rw [if_neg hmarked, stamp_eq, hrest, Text.isBlank_append, List.cons_append,
      Text.isBlank_cons, hat, Bool.false_and, Bool.and_false]

namespace Stampable

variable {t : Text} (h : Stampable t)

include h

/-- All that is significant stands in the declaration. -/
theorem normalize_eq :
    normalize t = Mode.code.significant
      (Text.trimStart (splitLeadingComments t).2) := by
  obtain ⟨a, ha, heq⟩ := Text.exists_append_trimStart (splitLeadingComments t).2
  obtain ⟨hafter, hemitted⟩ := Mode.blank_at_start isLineStart_code ha
  have hdeclaration : Mode.code.significant (splitLeadingComments t).2 =
      Mode.code.significant (Text.trimStart (splitLeadingComments t).2) := by
    rw [congrArg Mode.code.significant heq, Mode.significant_append, hafter, hemitted,
      List.nil_append]
  rw [normalize, ← splitLeadingComments_append t, Mode.significant_append, h.outside,
    h.empty, List.nil_append, hdeclaration, splitLeadingComments_append]

theorem closed_parts : Mode.code.BreaksOutside (splitLeadingComments t).1 ∧
    Mode.code.BreaksOutside (Text.trimStart (splitLeadingComments t).2) ∧
    (Mode.code.after (Text.trimStart (splitLeadingComments t).2)).inLiteral =
      false := by
  obtain ⟨a, ha, heq⟩ := Text.exists_append_trimStart (splitLeadingComments t).2
  obtain ⟨hbreaks, hend⟩ := h.closed
  rw [← splitLeadingComments_append t, Mode.breaksOutside_append, h.outside, heq,
    Mode.breaksOutside_append, (Mode.blank_at_start isLineStart_code ha).1] at hbreaks
  rw [← splitLeadingComments_append t, Mode.after_append, h.outside, heq,
    Mode.after_append, (Mode.blank_at_start isLineStart_code ha).1] at hend
  exact ⟨hbreaks.1, hbreaks.2.2, hend⟩

theorem closesLiterals_stamp : ClosesLiterals (stamp t) := by
  obtain ⟨hcomments, hdeclaration, hend⟩ := h.closed_parts
  have hmark : Mode.code.BreaksOutside (mark (structuralHash t)) :=
    breaksOutside_of_no_break fun hc => (isPlain_of_mem_mark hc).2.2.2 rfl
  have hbreak : Mode.code.next '\n' = .code := rfl
  constructor
  · rw [stamp_eq, Mode.breaksOutside_append, h.outside,
      Mode.breaksOutside_append, after_mark]
    exact ⟨hcomments, hmark, fun _ => rfl, hdeclaration⟩
  · rw [stamp_eq, Mode.after_append, h.outside, Mode.after_append, after_mark,
      Mode.after_cons, hbreak]
    exact hend

/-- The stamp adds the marker to what is significant. -/
theorem normalize_stamp :
    normalize (stamp t) = normalize (mark (structuralHash t)) ++ normalize t := by
  have hmark := Mode.significant_eq .code (mark (structuralHash t))
  rw [after_mark, show Mode.code.close = [] from rfl, List.append_nil] at hmark
  rw [h.normalize_eq, normalize, stamp_eq, Mode.significant_append, h.outside, h.empty,
    List.nil_append, Mode.significant_append, after_mark, normalize, hmark]
  rfl

end Stampable

/-! ## Stamped code, laid out -/

theorem join_append_cons (lines : List Text) (line : Text) (lines' : List Text) :
    Text.join ['\n'] (lines ++ line :: lines') =
      lines.flatMap (· ++ ['\n']) ++ line ++ lines'.flatMap ('\n' :: ·) := by
  induction lines with
  | nil =>
    induction lines' generalizing line with
    | nil => simp [Text.join, List.intercalate]
    | cons next rest ih =>
      have := ih next
      simp only [List.nil_append] at this ⊢
      rw [Text.join_cons_cons, this]
      simp
  | cons first rest ih =>
    rw [List.cons_append, Text.join_cons '\n' first (by simp), ih]
    simp

/-- Stripping line breaks from a text with a marked line in it
leaves that line. -/
theorem trimChar_around (comments : Text) {middle declaration : Text}
    (hmiddle : middle.head? = some '@')
    (hdeclaration : declaration.any (· != '\n') = true) :
    ∃ rest, Text.trimChar '\n' (comments ++ (middle ++ '\n' :: declaration)) =
      comments.dropWhile (· == '\n') ++ (middle ++ '\n' :: rest) := by
  obtain ⟨tail, rfl⟩ := List.head?_eq_some_iff.mp hmiddle
  -- the sign in the middle stops the trimming from the left, and the
  -- declaration that from the right
  have hfront :
      (comments ++ ('@' :: tail ++ '\n' :: declaration)).dropWhile (· == '\n') =
      comments.dropWhile (· == '\n') ++ ('@' :: tail ++ '\n' :: declaration) := by
    rw [List.dropWhile_append]
    split
    · next hnil =>
      rw [List.isEmpty_iff] at hnil
      rw [hnil, List.cons_append, List.dropWhile_cons_of_neg (by decide)]
      rfl
    · rfl
  have hback : (declaration.reverse.dropWhile (· == '\n')).isEmpty = false := by
    rw [List.any_eq_true] at hdeclaration
    obtain ⟨c, hc, hne⟩ := hdeclaration
    rw [← Bool.not_eq_true, List.isEmpty_iff]
    intro hnil
    have hall : (declaration.reverse.takeWhile (· == '\n')).all (· == '\n') = true :=
      List.all_takeWhile
    have heq :=
      List.takeWhile_append_dropWhile (p := (· == '\n')) (l := declaration.reverse)
    rw [hnil, List.append_nil] at heq
    rw [heq, List.all_reverse, List.all_eq_true] at hall
    rw [bne, hall c hc] at hne
    cases hne
  refine ⟨(declaration.reverse.dropWhile (· == '\n')).reverse, ?_⟩
  rw [Text.trimChar, hfront]
  generalize comments.dropWhile (· == '\n') = front
  have hsplit : (front ++ ('@' :: tail ++ '\n' :: declaration)).reverse =
      declaration.reverse ++ (front ++ ('@' :: tail ++ ['\n'])).reverse := by
    simp
  rw [hsplit, List.dropWhile_append, hback]
  simp

/-- A line among lines, with what stands before it up to a line break. -/
theorem lines_around {front line : Text}
    (hfront : front = [] ∨ front.getLast? = some '\n') (hline : '\n' ∉ line)
    (hlast : line.getLast? = some ')') (rest : Text) :
    Text.lines (front ++ (line ++ '\n' :: rest)) =
      Text.lines front ++ line :: Text.lines rest := by
  have hsplit : line ++ '\n' :: rest = (line ++ ['\n']) ++ rest := by simp
  have hbreak : Text.withoutBreak (line ++ ['\n']) = line := by
    obtain ⟨start, rfl⟩ := List.getLast?_eq_some_iff.mp hlast
    simp [Text.withoutBreak]
  rw [Text.lines, Text.fullLines_append hfront, hsplit,
    Text.fullLines_append (by simp), Text.fullLines_line hline, List.map_append,
    List.map_append, List.map_singleton, hbreak]
  rfl

/-- Comments on lines of their own hold nothing, line by line. -/
theorem read_leading {front : Text} (hbreaks : Mode.code.BreaksOutside front)
    (hafter : Mode.code.after front = .code) (hemitted : Mode.code.emitted front = []) :
    Mode.code.ClosesLines (Text.fullLines front) ∧
    Mode.code.ofLines (Text.fullLines front) = [] ∧
      Mode.code.afterLines (Text.fullLines front) = .code := by
  obtain ⟨hclosed, hsignificant, hlines⟩ :=
    Mode.significant_fullLines hbreaks (by rw [hafter]; rfl) (.inr rfl)
  refine ⟨hclosed, ?_, ?_⟩
  · rw [← hsignificant, Mode.significant_eq, hafter, hemitted]
    rfl
  · by_cases hnil : front = []
    · rw [hnil]
      rfl
    · rw [hlines hnil, hafter]
      rfl

/-- **The marker has a line for itself.** In front of it stands
nothing significant. -/
theorem Stampable.exists_mark_layout {t : Text} (h : Stampable t) (style : Style)
    (depth : Nat) :
    ∃ lead rest, layout style depth (stamp t) =
      lead ++ mark (structuralHash t) ++ rest ∧
      Mode.code.after lead = .code ∧ Mode.code.emitted lead = [] := by
  obtain ⟨hbreaks, -, -⟩ := h.closed_parts
  have hdeclaration :
      (Text.trimStart (splitLeadingComments t).2).any (· != '\n') = true := by
    cases hd : Text.trimStart (splitLeadingComments t).2 with
    | nil => exact absurd hd (trimStart_declaration_ne_nil h.declares)
    | cons c rest =>
      have hc : c ≠ '\n' := by
        rintro rfl
        exact absurd (Text.head_trimStart hd) (by decide)
      simp [hc]
  have hat : (mark (structuralHash t)).head? = some '@' := rfl
  obtain ⟨rest, hrest⟩ := trimChar_around (splitLeadingComments t).1 hat hdeclaration
  -- the line breaks in front are gone, the other leading lines are still there
  let a := (splitLeadingComments t).1.takeWhile (· == '\n')
  let front := (splitLeadingComments t).1.dropWhile (· == '\n')
  have hparts : (splitLeadingComments t).1 = a ++ front :=
    List.takeWhile_append_dropWhile.symm
  have ha : Text.isBlank a = true := Text.isBlank_takeWhile_break _
  have hends : front = [] ∨ front.getLast? = some '\n' := by
    by_cases hnil : front = []
    · exact .inl hnil
    · right
      have hcomments : (splitLeadingComments t).1 ≠ [] := by
        rw [hparts]
        exact List.append_ne_nil_of_right_ne_nil a hnil
      have hlast := (leading_ends_with_break h.declares).resolve_left hcomments
      rw [hparts, List.getLast?_append] at hlast
      cases hfront : front.getLast? with
      | none => exact absurd (List.getLast?_eq_none_iff.mp hfront) hnil
      | some c => rwa [hfront, Option.some_or] at hlast
  obtain ⟨hafter, hemitted⟩ := Mode.blank_at_start isLineStart_code ha
  have houtside := h.outside
  have hempty := h.empty
  rw [hparts, Mode.after_append, hafter] at houtside
  rw [hparts, Mode.emitted_append, hafter, hemitted, List.nil_append] at hempty
  rw [hparts, Mode.breaksOutside_append, hafter] at hbreaks
  obtain ⟨hclosed, hof, hmode⟩ := read_leading hbreaks.2 houtside hempty
  have hline : '\n' ∉ mark (structuralHash t) :=
    fun hc => (isPlain_of_mem_mark hc).2.2.2 rfl
  obtain ⟨state, hlayout⟩ := layoutLines_append style depth {} (Text.lines front)
    (mark (structuralHash t) :: Text.lines rest)
  obtain ⟨b, hb, hmark⟩ := layoutLine_eq style depth state (mark (structuralHash t))
  rw [trim_mark] at hmark
  have htrim : (Text.fullLines front).map Text.trim =
      (layoutLines style depth {} (Text.lines front)).map Text.trim := by
    rw [map_trim_layoutLines, Text.map_trim_lines]
  obtain ⟨hclosed', hof', hmode'⟩ := Mode.lines_congr isLineStart_code htrim hclosed
  obtain ⟨hemitted', hafter'⟩ := Mode.emitted_flatMap hclosed'
  rw [← hof', hof] at hemitted'
  rw [← hmode', hmode] at hafter'
  obtain ⟨hafterb, hemittedb⟩ := Mode.blank_at_start isLineStart_code hb
  refine ⟨(layoutLines style depth {} (Text.lines front)).flatMap (· ++ ['\n']) ++ b,
    (layoutLines style depth (layoutLine style depth state (mark (structuralHash t))).1
      (Text.lines rest)).flatMap ('\n' :: ·), ?_, ?_, ?_⟩
  · rw [layout, stamp_eq, hrest, lines_around hends hline (getLast?_mark _), hlayout,
      layoutLines, join_append_cons, hmark]
    simp only [List.append_assoc]
  · rw [Mode.after_append, hafter', hafterb]
  · rw [Mode.emitted_append, hafter', hemitted', hemittedb]
    rfl

/-! ## A comment and its declaration on one line -/

/-- A line that begins with a block comment which is closed on it: the comment
of a declaration, say, that follows on the same line. -/
structure IsCommentedLine (line : Text) : Prop where
  oneLine : '\n' ∉ line
  opens : "/*".toList.isPrefixOf (Text.trim line) = true
  closes : Text.contains "*/" (Text.trim line) = true

instance (line : Text) : Decidable (IsCommentedLine line) :=
  decidable_of_iff
    ('\n' ∉ line ∧ "/*".toList.isPrefixOf (Text.trim line) = true ∧
      Text.contains "*/" (Text.trim line) = true)
    ⟨fun ⟨h1, h2, h3⟩ => ⟨h1, h2, h3⟩, fun h => ⟨h.oneLine, h.opens, h.closes⟩⟩

namespace IsCommentedLine

variable {line : Text} (h : IsCommentedLine line)

include h

theorem trimStart_ne_nil : Text.trimStart line ≠ [] := by
  intro hnil
  have hopens := h.opens
  rw [Text.trim, hnil] at hopens
  cases hopens

theorem ne_nil : line ≠ [] := by
  rintro rfl
  exact h.trimStart_ne_nil rfl

/-- The line leads as a whole, with what stands behind the comment. -/
theorem leadingLine_eq {b : Text} (hb : Text.isBlank b = true) :
    leadingLine false (line ++ b) = (true, false) := by
  rw [leadingLine, Text.trim_append_right hb, if_neg (by decide),
    if_pos h.opens, h.closes]
  rfl

theorem splitLeadingComments_eq : splitLeadingComments line = (line, []) := by
  have hleads : leadingLine false line = (true, false) := by
    simpa using h.leadingLine_eq Text.isBlank_nil
  rw [splitLeadingComments, Text.fullLines_of_no_break h.ne_nil h.oneLine,
    spanLeading, hleads]
  simp [spanLeading]

theorem ensureStamped_eq :
    ensureStamped line = line ++ marker (structuralHash line) := by
  have hmarked : isMarked line = false := by
    rw [isMarked, h.splitLeadingComments_eq]
    cases line.length <;> rfl
  rw [ensureStamped, hmarked, if_neg (by decide), stamp_eq,
    h.splitLeadingComments_eq, marker_eq]
  rfl

/-- **The mark goes behind the declaration.** -/
theorem layout_ensureStamped (style : Style) (depth : Nat) :
    layout style depth (ensureStamped line) =
      style.indent depth ++ (Text.trimStart line ++ mark (structuralHash line)) := by
  have hline : '\n' ∉ line ++ mark (structuralHash line) := by
    rw [List.mem_append, not_or]
    exact ⟨h.oneLine, fun hc => (isPlain_of_mem_mark hc).2.2.2 rfl⟩
  have hne : line ++ mark (structuralHash line) ≠ [] :=
    List.append_ne_nil_of_left_ne_nil h.ne_nil _
  have htrim : Text.trim (line ++ mark (structuralHash line)) =
      Text.trimStart line ++ mark (structuralHash line) := by
    rw [Text.trim, Text.trimStart_append h.trimStart_ne_nil, trimEnd_append_mark]
  -- the comment opens the line, so no brace takes it out a level
  obtain ⟨rest, hrest⟩ : ∃ rest, Text.trimStart line = '/' :: rest := by
    obtain ⟨rest, hrest⟩ := List.isPrefixOf_iff_prefix.mp h.opens
    obtain ⟨b, -, hb⟩ := Text.exists_trimEnd_append (Text.trimStart line)
    rw [hb, ← Text.trim, ← hrest]
    exact ⟨_, rfl⟩
  rw [layout, h.ensureStamped_eq, marker_eq, ← List.append_assoc,
    Text.trimChar_line hne hline, Text.lines, Text.fullLines_of_no_break hne hline,
    List.map_singleton, Text.withoutBreak_of_no_break hline, layoutLines,
    layoutLine, htrim, hrest]
  simp [layoutLines, Text.join, List.intercalate, closesFirst]

end IsCommentedLine

end Graft.Code
