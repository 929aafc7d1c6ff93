import Graft.Proofs.Code.Relayout
import Graft.Proofs.Code.Stamp
import Graft.Proofs.Text.Cutting

/-!
# Declarations behind their comments

The stamp looks for its place line by line, comments are read character by
character. Where every comment in front of a declaration has its lines for
itself (`CommentLines`), both find the same place: the marker stands directly in
front of the declaration, behind all comments, and stamped code is recognised as
marked (`stamp_marks_declaration`). A comment that shares a line with its
declaration leads with it, and the marker falls behind both
(`stamp_commented_line`).
-/

namespace Graft

namespace Text

/-! ## Where comments end -/

/-- The end of a comment does not go when a line is trimmed. -/
theorem contains_trim (line : Text) :
    contains "*/" (trim line) = contains "*/" line := by
  have hstar : Char.isBlank '*' = false := by decide
  have hslash : Char.isBlank '/' = false := by decide
  rw [Bool.eq_iff_iff, contains_iff, contains_iff]
  constructor
  · intro h
    obtain ⟨a, b, -, -, heq⟩ := exists_trim line
    rw [heq]
    exact h.trans ⟨a, b, rfl⟩
  · rintro ⟨x, y, heq⟩
    have hline : line = x ++ '*' :: '/' :: y := by
      rw [← heq]
      simp
    have hend : trimEnd ((trimStart x ++ ['*']) ++ '/' :: y) =
        (trimStart x ++ ['*']) ++ '/' :: trimEnd y := trimEnd_append_solid hslash _ y
    refine ⟨trimStart x, trimEnd y, ?_⟩
    rw [hline, trim, trimStart_append_solid hstar]
    simpa using hend.symm

end Text

namespace Code

open Text

/-! ## Leading lines -/

/-- Read with a block comment open or not, `front` leads whatever follows it,
and leaves a block comment open or not. -/
def Leads (inBlock : Bool) (front : Text) (stillIn : Bool) : Prop :=
  ∀ t, (spanLeading inBlock (fullLines (front ++ t))).1.flatten =
      front ++ (spanLeading stillIn (fullLines t)).1.flatten ∧
    (spanLeading inBlock (fullLines (front ++ t))).2 =
      (spanLeading stillIn (fullLines t)).2

namespace Leads

theorem nil (inBlock : Bool) : Leads inBlock [] inBlock := fun _ => ⟨rfl, rfl⟩

theorem append {first second : Text} {a b c : Bool} (h : Leads a first b)
    (h' : Leads b second c) : Leads a (first ++ second) c := by
  intro t
  obtain ⟨hfront, hback⟩ := h (second ++ t)
  obtain ⟨hfront', hback'⟩ := h' t
  rw [List.append_assoc, hfront, hback, hfront', hback', List.append_assoc]
  exact ⟨rfl, rfl⟩

theorem line {inBlock stillIn : Bool} {line : Text} (hline : '\n' ∉ line)
    (h : leadingLine inBlock (line ++ ['\n']) = (true, stillIn)) :
    Leads inBlock (line ++ ['\n']) stillIn := by
  intro t
  have hlast : (line ++ ['\n']).getLast? = some '\n' := List.getLast?_concat
  rw [fullLines_append (.inr hlast), fullLines_line hline, List.singleton_append,
    spanLeading, h]
  exact ⟨rfl, rfl⟩

end Leads

theorem leadingLine_of_blank {line : Text} (h : isBlank line = true) :
    leadingLine false line = (true, false) := by
  have htrim : trim line = [] := (trim_eq_nil_iff line).mpr h
  rw [leadingLine, htrim]
  rfl

/-- Two solid characters behind the indentation of a line are still there when
it is trimmed. -/
theorem trim_line {indent : Text} (h : isBlank indent = true) {c d : Char}
    (hc : Char.isBlank c = false) (hd : Char.isBlank d = false) (rest : Text) :
    trim (indent ++ c :: d :: rest) = c :: d :: trimEnd rest := by
  rw [trim_append_left h, trim, trimStart_of_solid hc, trimEnd_cons_of_solid hc,
    trimEnd_cons_of_solid hd]

theorem leadingLine_lineComment {indent : Text} (h : isBlank indent = true)
    (rest : Text) :
    leadingLine false (indent ++ '/' :: '/' :: rest) = (true, false) := by
  rw [leadingLine, trim_line h (by decide) (by decide)]
  rfl

/-- A line that opens a block comment leads, and leaves it open unless its end
stands on the line. -/
theorem leadingLine_opening {indent : Text} (h : isBlank indent = true) (rest : Text) :
    leadingLine false (indent ++ '/' :: '*' :: rest) =
      (true, !Text.contains "*/" (indent ++ '/' :: '*' :: rest)) := by
  rw [← contains_trim, leadingLine, trim_line h (by decide) (by decide)]
  rfl

/-- The opening of a block comment is not its end, and no part of it. -/
theorem no_end_opening {indent body : Text} (h : isBlank indent = true)
    (hend : ¬ ['*', '/'] <:+: body) (hhead : body.head? ≠ some '/') :
    ¬ ['*', '/'] <:+: indent ++ '/' :: '*' :: body := by
  intro hinfix
  have hcontains : Text.contains "*/" (indent ++ '/' :: '*' :: body) = true :=
    (contains_iff _ _).mpr hinfix
  rw [← contains_trim, trim_append_left h, contains_trim] at hcontains
  have hopening : ['*', '/'] <:+: '/' :: '*' :: body := (contains_iff _ _).mp hcontains
  rw [List.infix_cons_iff, List.infix_cons_iff] at hopening
  rcases hopening with hfirst | ⟨rest, hsecond⟩ | hlater
  · have hne : '*' = '/' := (List.cons_prefix_cons.mp hfirst).1
    cases hne
  · obtain rfl : '/' :: rest = body := by simpa using hsecond
    exact hhead rfl
  · exact hend hlater

theorem leadingLine_inBlock (line : Text) :
    leadingLine true line = (true, !Text.contains "*/" line) := by
  rw [← contains_trim]
  rfl

/-- **The lines of a block comment lead** up to the one with its end. The first
line is read with `front` before the comment goes on. -/
theorem leads_block {inBlock : Bool} {front body behind : Text}
    (hopen : ∀ line,
      leadingLine inBlock (front ++ line) = (true, !Text.contains "*/" (front ++ line)))
    (hfront : '\n' ∉ front) (hbehind : '\n' ∉ behind)
    (hend : '\n' ∈ body → ¬ ['*', '/'] <:+: front ++ body) :
    Leads inBlock (front ++ (body ++ '*' :: '/' :: (behind ++ ['\n']))) false := by
  -- `front` is what the line has had so far; each break in the body ends a line
  -- of the comment
  induction body generalizing inBlock front with
  | nil =>
    have hline : '\n' ∉ front ++ '*' :: '/' :: behind := by simp [hfront, hbehind]
    have hcontains :
        Text.contains "*/" (front ++ ('*' :: '/' :: behind ++ ['\n'])) = true :=
      (contains_iff _ _).mpr ⟨front, behind ++ ['\n'], by simp⟩
    have hleads := hopen ('*' :: '/' :: behind ++ ['\n'])
    rw [hcontains, ← List.append_assoc] at hleads
    simpa using Leads.line hline hleads
  | cons c rest ih =>
    by_cases hc : c = '\n'
    · subst hc
      have hnone := hend List.mem_cons_self
      have hfirst : Text.contains "*/" (front ++ ['\n']) = false := by
        rw [← Bool.not_eq_true, contains_iff]
        exact fun h => hnone (h.trans ⟨[], rest, by simp⟩)
      have hleads := hopen ['\n']
      rw [hfirst] at hleads
      have hrest : Leads true
          ([] ++ (rest ++ '*' :: '/' :: (behind ++ ['\n']))) false :=
        ih leadingLine_inBlock List.not_mem_nil
          (fun _ h => hnone (h.trans ⟨front ++ ['\n'], [], by simp⟩))
      simpa using (Leads.line hfront hleads).append hrest
    · have hmore : Leads inBlock
          ((front ++ [c]) ++ (rest ++ '*' :: '/' :: (behind ++ ['\n']))) false := by
        apply ih
        · intro line
          simpa using hopen (c :: line)
        · simp [hfront, Ne.symm hc]
        · intro hbreak
          simpa using hend (List.mem_cons_of_mem c hbreak)
      simpa using hmore

/-! ## Comments on lines of their own -/

/-- Whole lines that hold nothing but comments. Behind the end of a
block comment, its last line may hold blanks and more comments, if these
end with the line. -/
inductive CommentLines : Text → Prop
  | nil : CommentLines []
  | blank {line rest : Text} (blank : Text.isBlank line = true) (inLine : '\n' ∉ line)
      (more : CommentLines rest) : CommentLines (line ++ '\n' :: rest)
  | lineComment {indent body rest : Text} (blank : Text.isBlank indent = true)
      (inLine : '\n' ∉ indent ++ body) (more : CommentLines rest) :
      CommentLines (indent ++ '/' :: '/' :: (body ++ '\n' :: rest))
  /-- A comment over several lines may not begin with a slash: for a reader of
  lines, its opening would close it. -/
  | blockComment {indent body behind rest : Text} (blank : Text.isBlank indent = true)
      (inLine : '\n' ∉ indent) (noEnd : ¬ ['*', '/'] <:+: body)
      (opens : '\n' ∈ body → body.head? ≠ some '/') (endsLine : '\n' ∉ behind)
      (closed : Filler (behind ++ ['\n'])) (more : CommentLines rest) :
      CommentLines
        (indent ++ '/' :: '*' :: (body ++ '*' :: '/' :: (behind ++ '\n' :: rest)))

namespace CommentLines

variable {front : Text}

theorem filler (h : CommentLines front) : Filler front := by
  have hbreak : Char.isBlank '\n' = true := by decide
  induction h with
  | nil => exact .nil
  | blank hblank _ _ ih => exact (filler_of_blank hblank).append (.blank hbreak ih)
  | lineComment hblank hline _ ih =>
    rw [List.mem_append, not_or] at hline
    exact (filler_of_blank hblank).append (.lineComment hline.2 ih)
  | @blockComment indent body behind rest hblank _ hend _ _ hclosed _ ih =>
    have hbehind : behind ++ '\n' :: rest = behind ++ ['\n'] ++ rest := by simp
    apply (filler_of_blank hblank).append
    rw [hbehind]
    exact .blockComment hend (hclosed.append ih)

/-- Comments on lines of their own lead, whatever follows them. -/
theorem leads (h : CommentLines front) : Leads false front false := by
  have hbreak : isBlank ['\n'] = true := by decide
  -- each comment is read over its own lines
  induction h with
  | nil => exact .nil false
  | @blank line rest hblank hline _ ih =>
    have hleads : Leads false (line ++ ['\n']) false :=
      .line hline (leadingLine_of_blank (by rw [isBlank_append, hblank, hbreak]; rfl))
    simpa using hleads.append ih
  | @lineComment indent body rest hblank hline _ ih =>
    rw [List.mem_append, not_or] at hline
    have hnone : '\n' ∉ indent ++ '/' :: '/' :: body := by simp [hline]
    have hleads : Leads false (indent ++ '/' :: '/' :: body ++ ['\n']) false := by
      apply Leads.line hnone
      simpa using leadingLine_lineComment hblank (body ++ ['\n'])
    simpa using hleads.append ih
  | @blockComment indent body behind rest hblank hline hend hopen hbehind _ _ ih =>
    have hnone : '\n' ∉ indent ++ ['/', '*'] := by simp [hline]
    have hbody : '\n' ∈ body → ¬ ['*', '/'] <:+: (indent ++ ['/', '*']) ++ body := by
      intro hmem
      rw [List.append_assoc]
      exact no_end_opening hblank hend (hopen hmem)
    have hleads : Leads false
        ((indent ++ ['/', '*']) ++ (body ++ '*' :: '/' :: (behind ++ ['\n'])))
          false := by
      apply leads_block _ hnone hbehind hbody
      intro line
      simpa using leadingLine_opening hblank line
    simpa using hleads.append ih

end CommentLines

/-! ## The declaration -/

/-- A text that begins with something other than a blank or a comment. -/
structure StartsDeclaration (t : Text) : Prop where
  solid : ∃ c rest, t = c :: rest ∧ Char.isBlank c = false
  noLineComment : ¬ ['/', '/'] <+: t
  noBlockComment : ¬ ['/', '*'] <+: t

/-- The first line of an indented text begins with the indentation and goes on
as the text does. -/
theorem fullLines_indented {indent : Text} (h : '\n' ∉ indent) {c : Char}
    (hc : c ≠ '\n') (rest : Text) : ∃ line lines,
      fullLines (indent ++ c :: rest) = (indent ++ c :: line) :: lines ∧
      line <+: rest := by
  induction indent with
  | nil =>
    rw [List.nil_append, fullLines_cons, if_neg (by simpa using hc)]
    have hflatten := flatten_fullLines rest
    cases hl : fullLines rest with
    | nil => exact ⟨[], [], rfl, List.nil_prefix⟩
    | cons line lines =>
      rw [hl] at hflatten
      exact ⟨line, lines, rfl, lines.flatten, hflatten⟩
  | cons d indent ih =>
    rw [List.mem_cons, not_or] at h
    obtain ⟨line, lines, heq, hrest⟩ := ih h.2
    refine ⟨line, lines, ?_, hrest⟩
    rw [List.cons_append, fullLines_cons, if_neg (by simpa using Ne.symm h.1), heq]
    rfl

/-- The lines of a declaration do not lead it. -/
theorem spanLeading_declaration {indent t : Text} (hblank : isBlank indent = true)
    (hindent : '\n' ∉ indent) (h : StartsDeclaration t) :
    spanLeading false (fullLines (indent ++ t)) = ([], fullLines (indent ++ t)) := by
  obtain ⟨c, rest, rfl, hc⟩ := h.solid
  have hbreak : c ≠ '\n' := by
    rintro rfl
    cases hc
  obtain ⟨line, lines, hlines, hrest⟩ := fullLines_indented hindent hbreak rest
  obtain ⟨b, -, hend⟩ := exists_trimEnd_append line
  have htrim : trim (indent ++ c :: line) = c :: trimEnd line := by
    rw [trim_append_left hblank, trim, trimStart_of_solid hc, trimEnd_cons_of_solid hc]
  have hprefix : c :: trimEnd line <+: c :: rest :=
    (List.prefix_cons_inj c).mpr (.trans ⟨b, hend.symm⟩ hrest)
  have hleads : leadingLine false (indent ++ c :: line) = (false, false) := by
    have hblock : "/*".toList.isPrefixOf (c :: trimEnd line) = false := by
      rw [← Bool.not_eq_true, List.isPrefixOf_iff_prefix]
      exact fun hopens => h.noBlockComment (hopens.trans hprefix)
    have hcomment : "//".toList.isPrefixOf (c :: trimEnd line) = false := by
      rw [← Bool.not_eq_true, List.isPrefixOf_iff_prefix]
      exact fun hopens => h.noLineComment (hopens.trans hprefix)
    rw [leadingLine, htrim, hblock, hcomment]
    rfl
  rw [hlines, spanLeading, hleads]

/-! ## The marker in front of the declaration -/

theorem startsWithMarker_mark (n : Nat) (h : Int32) (t : Text) :
    startsWithMarker (n + 1) (mark h ++ t) = true := by
  have hmark : mark h ++ t = '@' :: ("Generated".toList ++ '(' ::
      ("hash = ".toList ++ showHash h ++ ")".toList ++ t)) := by
    have hfront : "@Generated(hash = ".toList =
        '@' :: ("Generated".toList ++ '(' :: "hash = ".toList) := by
      decide +kernel
    unfold mark
    rw [hfront]
    simp
  have hname : ∀ rest : Text,
      ("Generated".toList ++ '(' :: rest).takeWhile inAnnotationName =
      "Generated".toList := by
    intro rest
    rw [List.takeWhile_append_of_pos (List.all_eq_true.mp (by decide +kernel)),
      List.takeWhile_cons_of_neg (by decide +kernel), List.append_nil]
  have hsimple : lastSegment "Generated" = "Generated".toList := by decide +kernel
  rw [hmark, startsWithMarker]
  simp only [hname, hsimple]
  rfl

theorem startsDeclaration_mark (h : Int32) (t : Text) :
    StartsDeclaration (mark h ++ t) := by
  obtain ⟨rest, hrest⟩ := mark_eq_cons h
  rw [hrest, List.cons_append]
  refine ⟨⟨'@', rest ++ t, rfl, by decide⟩, ?_, ?_⟩
  · intro hopens
    have hne : '/' = '@' := (List.cons_prefix_cons.mp hopens).1
    cases hne
  · intro hopens
    have hne : '/' = '@' := (List.cons_prefix_cons.mp hopens).1
    cases hne

/-- A text that ends in a declaration, with its comments in front of it on lines
of their own. -/
structure CommentedDeclaration (t front indent declaration : Text) : Prop where
  parts : t = front ++ (indent ++ declaration)
  comments : CommentLines front
  blank : isBlank indent = true
  inLine : '\n' ∉ indent
  starts : StartsDeclaration declaration

namespace CommentedDeclaration

variable {t front indent declaration : Text}

/-- The comments lead the declaration. -/
theorem split (h : CommentedDeclaration t front indent declaration) :
    splitLeadingComments t = (front, indent ++ declaration) := by
  obtain ⟨hlead, hrest⟩ := h.comments.leads (indent ++ declaration)
  rw [spanLeading_declaration h.blank h.inLine h.starts] at hlead hrest
  rw [List.flatten_nil, List.append_nil] at hlead
  simp only [splitLeadingComments]
  rw [h.parts, hlead, hrest, flatten_fullLines]

theorem stamp_eq (h : CommentedDeclaration t front indent declaration) :
    stamp t = front ++ (mark (structuralHash t) ++ '\n' :: declaration) := by
  obtain ⟨c, rest, hdeclaration, hc⟩ := h.starts.solid
  rw [Code.stamp_eq, h.split, trimStart_append_of_blank h.blank, hdeclaration,
    trimStart_of_solid hc]

/-- Stamped, the text is the marked declaration behind the same comments. -/
theorem stamped (h : CommentedDeclaration t front indent declaration) :
    CommentedDeclaration (stamp t) front []
      (mark (structuralHash t) ++ '\n' :: declaration) where
  parts := h.stamp_eq
  comments := h.comments
  blank := rfl
  inLine := List.not_mem_nil
  starts := startsDeclaration_mark _ _

theorem normalize_eq (h : CommentedDeclaration t front indent declaration) :
    normalize t = Mode.code.significant declaration := by
  rw [normalize, h.parts, h.comments.filler.significant_append,
    (filler_of_blank h.blank).significant_append]

theorem normalize_stamp (h : CommentedDeclaration t front indent declaration) :
    normalize (stamp t) =
      "@Generated(hash=" ++ showHash (structuralHash t) ++ ")" ++ normalize t := by
  have hbreak : Mode.code.significant ('\n' :: declaration) =
      Mode.code.significant declaration :=
    rfl
  rw [h.stamped.normalize_eq, Mode.significant_append, after_mark, emitted_mark, hbreak,
    h.normalize_eq]

theorem isMarked_stamp (h : CommentedDeclaration t front indent declaration) :
    isMarked (stamp t) = true := by
  obtain ⟨rest, hrest⟩ := mark_eq_cons (structuralHash t)
  obtain ⟨n, hlength⟩ : ∃ n, (stamp t).length = n + 1 := by
    rw [Nat.exists_eq_add_one, h.stamp_eq, hrest]
    simp only [List.length_append, List.length_cons]
    omega
  have hstart : trimStart (mark (structuralHash t) ++ '\n' :: declaration) =
      mark (structuralHash t) ++ '\n' :: declaration := by
    rw [hrest]
    exact trimStart_of_solid (by decide)
  rw [isMarked, hlength, h.stamped.split, List.nil_append, hstart]
  exact startsWithMarker_mark n _ _

end CommentedDeclaration

/-- **The marker stands in front of the declaration**, directly behind the
comments in front of it, if these have their lines for themselves: it is all
that stamping adds to the normalized code, stamped code is recognised as marked,
and marking it again changes nothing. -/
theorem stamp_marks_declaration {t front indent declaration : Text}
    (h : CommentedDeclaration t front indent declaration) :
    stamp t = front ++ marker (structuralHash t) ++ declaration ∧
      normalize (stamp t) =
        "@Generated(hash=" ++ showHash (structuralHash t) ++ ")" ++ normalize t ∧
      isMarked (stamp t) = true ∧
      ensureStamped (ensureStamped t) = ensureStamped t := by
  refine ⟨?_, h.normalize_stamp, h.isMarked_stamp, ?_⟩
  · rw [h.stamp_eq, marker_eq]
    simp
  · by_cases hmarked : isMarked t = true
    · have heq : ensureStamped t = t := if_pos hmarked
      rw [heq, heq]
    · have heq : ensureStamped t = stamp t := if_neg hmarked
      rw [heq, ensureStamped, if_pos h.isMarked_stamp]

namespace DeclarationSample

/-- A line comment, a documentation comment with another comment behind it, and
a blank line. -/
def front : Text := "// note\n/**\n * A field. */ // behind\n\n"

/-- A field with an annotation. -/
def declaration : Text := "@Id\n  long id;"

/-- The field behind its comments, indented. -/
def text : Text := front ++ ("  " ++ declaration)

theorem comments : CommentLines front := by
  have hparts : front = [] ++ '/' :: '/' :: (" note".toList ++ '\n' ::
      ([] ++ '/' :: '*' :: ("*\n * A field. ".toList ++ '*' :: '/' ::
        (" // behind".toList ++ '\n' :: ([] ++ '\n' :: []))))) := by
    decide +kernel
  have hbehind : Filler (" // behind".toList ++ ['\n']) := by
    have hfiller : " // behind".toList ++ ['\n'] =
        ' ' :: '/' :: '/' :: (" behind".toList ++ '\n' :: []) := by
      decide +kernel
    rw [hfiller]
    exact .blank (by decide) (.lineComment (by decide +kernel) .nil)
  rw [hparts]
  refine .lineComment rfl (by decide +kernel)
    (.blockComment rfl (by decide) ?_ ?_ ?_ hbehind ?_)
  · decide +kernel
  · decide +kernel
  · decide +kernel
  · exact .blank rfl (by decide) .nil

end DeclarationSample

open DeclarationSample in
/-- In the sample, the marker comes between the blank line and
the annotation. -/
theorem stamp_marks_declaration_sample :
    CommentedDeclaration text front "  " declaration ∧
      stamp text = "// note\n/**\n * A field. */ // behind\n\n".toList ++
        "@Generated(hash = 43967657)\n@Id\n  long id;".toList ∧
      isMarked (stamp text) = true := by
  have hstarts : StartsDeclaration declaration :=
    ⟨⟨'@', "Id\n  long id;".toList, by decide +kernel, by decide⟩, by decide +kernel,
      by decide +kernel⟩
  have hcommented : CommentedDeclaration text front "  " declaration :=
    ⟨rfl, comments, by decide +kernel, by decide +kernel, hstarts⟩
  obtain ⟨hstamp, -, hmarked, -⟩ := stamp_marks_declaration hcommented
  refine ⟨hcommented, ?_, hmarked⟩
  rw [hstamp]
  decide +kernel

/-- A line that begins with a comment leads as a whole, with the
declaration behind the comment: the marker stands behind both, in front of
whatever comes next. -/
theorem stamp_commented_line {front line : Text} (hfront : CommentLines front)
    (h : IsCommentedLine line) (rest : Text) :
    stamp (front ++ (line ++ '\n' :: rest)) =
      front ++ (line ++ '\n' :: (splitLeadingComments rest).1) ++
        marker (structuralHash (front ++ (line ++ '\n' :: rest))) ++
          trimStart (splitLeadingComments rest).2 := by
  have hbreak : isBlank ['\n'] = true := by decide
  have hleads : Leads false (line ++ ['\n']) false :=
    .line h.oneLine (h.leadingLine_eq hbreak)
  obtain ⟨hlead, hrest⟩ := (hfront.leads.append hleads) rest
  have hassoc : front ++ (line ++ ['\n']) ++ rest =
      front ++ (line ++ '\n' :: rest) := by simp
  rw [hassoc] at hlead hrest
  have hsplit : splitLeadingComments (front ++ (line ++ '\n' :: rest)) =
      (front ++ (line ++ '\n' :: (splitLeadingComments rest).1),
        (splitLeadingComments rest).2) := by
    simp only [splitLeadingComments]
    rw [hlead, hrest]
    simp
  rw [stamp, hsplit]

/-- **The marker misses the declaration** when its comment shares a line with
it: it falls behind the declaration, stamped code is not recognised as marked,
and it is stamped again. -/
theorem marker_misses_declaration :
    stamp "/** x */ int a;" = "/** x */ int a;@Generated(hash = 100361257)\n".toList ∧
      normalize (stamp "/** x */ int a;") ≠
        "@Generated(hash=100361257)".toList ++ normalize "/** x */ int a;" ∧
      isMarked (stamp "/** x */ int a;") = false ∧
      ensureStamped (ensureStamped "/** x */ int a;") ≠
        ensureStamped "/** x */ int a;" := by
  decide +kernel

end Code

end Graft
