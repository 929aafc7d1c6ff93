import Graft.Proofs.Code.LeadingComments
import Graft.Proofs.Java.Fronts
import Graft.Proofs.Java.Numbers
import Graft.Proofs.Merge.Ownership

/-!
# Markers found in a text and in a declaration

Whether code is marked is decided twice: on its text, by a scan over the
annotations in front of the declaration, and on the declaration that is read
from it. Where all markers stand in the run of annotations right in front of the
declaration, with nothing but blanks in between, both agree, so that code is
stamped just when its declaration carries no marker (`isMarked_iff_provenance`).
The scan stops at a keyword or a comment, and misses a marker behind it
(`marker_behind_keyword_is_missed`).
-/

namespace Graft

open Java

namespace Code

/-! ## The scan over annotations -/

/-- A literal is passed over up to the quote that closes it. -/
theorem afterArguments?_literal {quote : Char} (hquote : quote ≠ '\\')
    {escaped : Bool} {body : Text} (h : fitsBetween quote escaped body = true)
    (depth : Nat) (rest : Text) :
    afterArguments? ⟨depth, some (quote, escaped)⟩ (body ++ quote :: rest) =
      afterArguments? ⟨depth, none⟩ rest := by
  induction body generalizing escaped with
  | nil =>
    rw [fitsBetween, Bool.not_eq_true'] at h
    rw [h, List.nil_append, afterArguments?]
    simp [hquote]
  | cons c body ih =>
    rw [List.cons_append, afterArguments?]
    cases escaped with
    | true => exact ih h
    | false =>
      rw [fitsBetween, Bool.and_eq_true, bne_iff_ne] at h
      have hrest := ih h.2
      by_cases hback : c = '\\'
      · simpa [hback] using hrest
      · rw [beq_eq_false_iff_ne.mpr hback] at hrest
        simpa [hback, h.1] using hrest

theorem afterArguments?_inert {t : Text} (h : Inert t) (depth : Nat) (rest : Text) :
    afterArguments? ⟨depth, none⟩ (t ++ rest) = afterArguments? ⟨depth, none⟩ rest := by
  induction h with
  | nil => rfl
  | @char c t plain _ ih =>
    obtain ⟨hdouble, hsingle, hopen, hclose⟩ := plain
    rw [List.cons_append, afterArguments?]
    simp [hdouble, hsingle, hopen, hclose, ih]
  | @literal quote body t quotes fits _ ih =>
    have hquote : quote ≠ '\\' := by rcases quotes with rfl | rfl <;> decide
    have hread := afterArguments?_literal hquote fits depth (t ++ rest)
    rw [List.cons_append, List.append_assoc, List.cons_append, afterArguments?]
    simp [quotes, hread, ih]

/-- Within parentheses, brackets in pairs are passed over. -/
theorem afterArguments?_balanced {inside behind : Text} (h : Balanced inside behind)
    (depth : Nat) (rest : Text) :
    afterArguments? ⟨depth + 1, none⟩ (inside ++ rest) =
      afterArguments? ⟨depth + 1, none⟩ rest := by
  induction h generalizing depth rest with
  | nil => rfl
  | piece _ _ inert _ ih => rw [List.append_assoc, afterArguments?_inert inert, ih]
  | @group left right inside more behind pair _ _ ihWithin ihRest =>
    have hparts : left :: (inside ++ right :: more) ++ rest =
        left :: (inside ++ right :: (more ++ rest)) := by simp
    have hpair : (left = '(' ∧ right = ')') ∨ (left = '[' ∧ right = ']') ∨
        (left = '\x7b' ∧ right = '\x7d') := by simpa [bracketPairs] using pair
    rw [hparts]
    rcases hpair with ⟨rfl, rfl⟩ | hother
    · have hwithin := ihWithin (depth + 1) (')' :: (more ++ rest))
      simp only [afterArguments?] at hwithin ⊢
      simpa [ihRest] using hwithin
    · have hleft : Inert [left] :=
        .char (by rcases hother with ⟨rfl, -⟩ | ⟨rfl, -⟩ <;> decide) .nil
      have hright : Inert [right] :=
        .char (by rcases hother with ⟨-, rfl⟩ | ⟨-, rfl⟩ <;> decide) .nil
      have hopen :=
        afterArguments?_inert hleft (depth + 1) (inside ++ right :: (more ++ rest))
      have hclose := afterArguments?_inert hright (depth + 1) (more ++ rest)
      rw [List.singleton_append] at hopen hclose
      rw [hopen, ihWithin, hclose, ihRest]

/-- Whether a simple name is the one of a marker. -/
def isMarkerName (name : Text) : Bool :=
  name = "Generated".toList || name = "Keep".toList

/-- What follows a name of an annotation for the scan: something that is neither
blank nor opens arguments. -/
def Solid (t : Text) : Prop :=
  ∃ c rest, t = c :: rest ∧ Char.isBlank c = false ∧ c ≠ '('

section

variable {name following rest : Text}

theorem span_name (hname : ∀ c ∈ name, inAnnotationName c = true)
    (hends : ∀ c ∈ following.head?, inAnnotationName c = false) :
    (name ++ following).takeWhile inAnnotationName = name ∧
      (name ++ following).dropWhile inAnnotationName = following := by
  rw [List.takeWhile_append_of_pos hname, List.dropWhile_append_of_pos hname]
  cases following with
  | nil => exact ⟨List.append_nil name, rfl⟩
  | cons c rest =>
    have hc := hends c rfl
    rw [List.takeWhile_cons_of_neg (by simp [hc]),
      List.dropWhile_cons_of_neg (by simp [hc]), List.append_nil]
    exact ⟨rfl, rfl⟩

theorem startsWithMarker_bare (hname : ∀ c ∈ name, inAnnotationName c = true)
    (hends : ∀ c ∈ following.head?, inAnnotationName c = false)
    (hrest : Text.trimStart following = rest) (hsolid : Solid rest) (n : Nat) :
    startsWithMarker (n + 1) ('@' :: (name ++ following)) =
      (isMarkerName (Text.lastSegment name) || startsWithMarker n rest) := by
  obtain ⟨htake, hdrop⟩ := span_name hname hends
  obtain ⟨c, more, rfl, -, hopen⟩ := hsolid
  rw [startsWithMarker]
  simp only [htake, hdrop, hrest]
  show (if isMarkerName (Text.lastSegment name) = true then true else _) = _
  cases isMarkerName (Text.lastSegment name) with
  | true => rfl
  | false =>
    rw [if_neg Bool.false_ne_true, Bool.false_or]
    split
    · next heq =>
      cases heq
      exact absurd rfl hopen
    · rfl

theorem startsWithMarker_withArguments (hname : ∀ c ∈ name, inAnnotationName c = true)
    (hends : ∀ c ∈ following.head?, inAnnotationName c = false) {opening closing : Text}
    (hopening : Text.trimStart following = '(' :: opening)
    (hclosing : afterArguments? {} ('(' :: opening) = some closing)
    (hrest : Text.trimStart closing = rest) (n : Nat) :
    startsWithMarker (n + 1) ('@' :: (name ++ following)) =
      (isMarkerName (Text.lastSegment name) || startsWithMarker n rest) := by
  obtain ⟨htake, hdrop⟩ := span_name hname hends
  rw [startsWithMarker]
  simp only [htake, hdrop, hopening, hclosing, hrest]
  show (if isMarkerName (Text.lastSegment name) = true then true else _) = _
  cases isMarkerName (Text.lastSegment name) <;> rfl

end

theorem Solid.trimStart {t : Text} (h : Solid t) : Text.trimStart t = t := by
  obtain ⟨c, rest, rfl, hc, -⟩ := h
  exact Text.trimStart_of_solid hc

theorem solid_of_annotations {behind front rest : Text} {names : List Text}
    (h : Annotations behind front names) (hrest : Solid rest) :
    Solid (front ++ rest) := by
  cases h with
  | nil => exact hrest
  | bare | withArguments => exact ⟨'@', _, rfl, by decide, by decide⟩

/-- Blanks and parentheses are in no name. -/
theorem ends_of_blank {blanks following : Text} (h : Text.isBlank blanks = true)
    (hends : ∀ c ∈ following.head?, inAnnotationName c = false) :
    ∀ c ∈ (blanks ++ following).head?, inAnnotationName c = false := by
  cases blanks with
  | nil => exact hends
  | cons b blanks =>
    rintro c hc
    cases hc
    rw [Text.isBlank_cons, Bool.and_eq_true] at h
    rw [← Bool.not_eq_true]
    intro hname
    rw [not_isBlank_of_inAnnotationName hname] at h
    cases h.1

/-- **The scan goes from annotation to annotation**: it finds a marker just when
one of their names is the one of a marker. -/
theorem startsWithMarker_annotations {after front rest : Text} {names : List Text}
    (h : Annotations (rest ++ after) front names) (hrest : Solid rest)
    (hnone : rest.head? ≠ some '@') {n : Nat} (hn : names.length ≤ n) :
    startsWithMarker n (front ++ rest) = names.any isMarkerName := by
  -- the number need only cover the annotations that are left
  induction h generalizing n with
  | nil =>
    obtain ⟨c, more, rfl, -, -⟩ := hrest
    have hc : c ≠ '@' := fun heq => hnone (congrArg some heq)
    rw [List.nil_append, startsWithMarker.eq_def]
    split
    · next heq =>
      cases heq
      exact absurd rfl hc
    · rfl
  | @bare name blanks more names _ named ends blank run ih =>
    obtain ⟨n, rfl⟩ : ∃ k, n = k + 1 :=
      Nat.exists_eq_add_one.mpr (Nat.lt_of_lt_of_le (Nat.succ_pos _) hn)
    have hsolid := solid_of_annotations run hrest
    have htext : '@' :: (name ++ (blanks ++ more)) ++ rest =
        '@' :: (name ++ (blanks ++ (more ++ rest))) := by simp
    have hends : ∀ c ∈ (blanks ++ (more ++ rest)).head?,
        inAnnotationName c = false := by
      obtain ⟨c, u, hsome, -⟩ := hsolid
      have hne : blanks ++ (more ++ rest) ≠ [] := by simp [hsome]
      rw [← List.append_assoc, ← List.append_assoc, List.append_assoc blanks,
        List.head?_append_of_ne_nil _ hne] at ends
      exact ends
    have htrim : Text.trimStart (blanks ++ (more ++ rest)) = more ++ rest := by
      rw [Text.trimStart_append_of_blank blank, hsolid.trimStart]
    rw [htext, startsWithMarker_bare named.inName hends htrim hsolid,
      ih (Nat.le_of_succ_le_succ hn)]
    rfl
  | @withArguments name before inside blanks more names _ named blankBefore arguments
      blank run ih =>
    obtain ⟨n, rfl⟩ : ∃ k, n = k + 1 :=
      Nat.exists_eq_add_one.mpr (Nat.lt_of_lt_of_le (Nat.succ_pos _) hn)
    have hsolid := solid_of_annotations run hrest
    let opening : Text := inside ++ ')' :: (blanks ++ (more ++ rest))
    have htext : '@' ::
        (name ++ (before ++ '(' :: (inside ++ ')' :: (blanks ++ more)))) ++ rest =
        '@' :: (name ++ (before ++ '(' :: opening)) := by simp [opening]
    have hends : ∀ c ∈ (before ++ '(' :: opening).head?,
        inAnnotationName c = false := by
      refine ends_of_blank blankBefore ?_
      rintro c hc
      cases hc
      decide
    have hopening : Text.trimStart (before ++ '(' :: opening) = '(' :: opening := by
      rw [Text.trimStart_append_of_blank blankBefore,
        Text.trimStart_of_solid (by decide)]
    have hclosing : afterArguments? {} ('(' :: opening) =
        some (blanks ++ (more ++ rest)) := by
      have hinside :=
        afterArguments?_balanced arguments 0 (')' :: (blanks ++ (more ++ rest)))
      rw [afterArguments?]
      simpa [opening, afterArguments?] using hinside
    have htrim : Text.trimStart (blanks ++ (more ++ rest)) = more ++ rest := by
      rw [Text.trimStart_append_of_blank blank, hsolid.trimStart]
    rw [htext, startsWithMarker_withArguments named.inName hends hopening hclosing
      htrim, ih (Nat.le_of_succ_le_succ hn)]
    rfl

/-! ## The marker is an annotation -/

theorem exists_digits (h : Int32) : ∃ digits :
    Text, digits ≠ [] ∧ (∀ c ∈ digits, c.isDigit = true) ∧
    (showHash h = digits ∨ showHash h = '-' :: digits) := by
  refine ⟨Nat.toDigits 10 h.toInt.natAbs, ?_, ?_, ?_⟩
  · exact Nat.toDigits_ne_nil
  · exact fun c hc => Nat.isDigit_of_mem_toDigits (by decide) (by decide) hc
  · unfold showHash Text.ofInt
    split
    · exact .inr rfl
    · exact .inl rfl

/-- Digits in front of a parenthesis are one number. -/
theorem exists_isLexeme_digits {digits : Text} (hne : digits ≠ [])
    (h : ∀ c ∈ digits, c.isDigit = true) (rest : Text) :
    ∃ kind, IsLexeme kind digits (')' :: rest) := by
  obtain ⟨c, digits, rfl⟩ := List.exists_cons_of_ne_nil hne
  obtain ⟨hc, hdigits⟩ := List.forall_mem_cons.mp h
  have hgoes : ∀ d ∈ digits, goesOn (hasBaseMark (c :: digits)) d = true := by
    intro d hd
    obtain ⟨-, halnum, hsigns⟩ := digit_laws (hdigits d hd)
    simp only [numberSigns, List.forall_mem_cons, beq_eq_false_iff_ne] at hsigns
    simp [goesOn, halnum, hsigns]
  have hends : EndsNumber (')' :: rest) := by
    rintro _ ⟨⟩
    decide
  exact ⟨_, isLexeme_number hc hgoes hends⟩

theorem balanced_digits {digits : Text} (hne : digits ≠ [])
    (h : ∀ c ∈ digits, c.isDigit = true) (rest : Text) :
    Balanced digits (')' :: rest) := by
  obtain ⟨kind, hread⟩ := exists_isLexeme_digits hne h rest
  have hplain : digits.all isPlainChar = true := by
    rw [List.all_eq_true]
    intro c hc
    obtain ⟨-, -, hsigns⟩ := digit_laws (h c hc)
    simp only [numberSigns, List.forall_mem_cons, beq_eq_false_iff_ne] at hsigns
    simp [isPlainChar, isBracket, bracketPairs, hsigns]
  have hpiece : Balanced (digits ++ []) (')' :: rest) := .plain hread hplain (.nil _)
  rwa [List.append_nil] at hpiece

theorem balanced_showHash (h : Int32) (rest : Text) :
    Balanced (showHash h) (')' :: rest) := by
  obtain ⟨digits, hne, hdigits, heq | heq⟩ := exists_digits h
  · rw [heq]
    exact balanced_digits hne hdigits rest
  · obtain ⟨c, more, rfl⟩ := List.exists_cons_of_ne_nil hne
    have hminus : IsLexeme (.token .sign) ['-'] (c :: more ++ ')' :: rest) :=
      isLexeme_minus (hdigits c List.mem_cons_self) _
    rw [heq]
    exact .plain hminus (by decide) (balanced_digits hne hdigits rest)

/-- The hash of a marker, as its parentheses hold it. -/
theorem balanced_hash (h : Int32) (rest : Text) :
    Balanced ("hash = ".toList ++ showHash h) (')' :: rest) := by
  have hword : ∀ u, IsLexeme (.token .word) "hash".toList (' ' :: u) :=
    fun _ => ⟨by decide, rfl⟩
  have hequals : ∀ u, IsLexeme (.token .sign) ['='] (' ' :: u) :=
    fun _ => ⟨by decide, rfl⟩
  have hblank : ∀ u, IsLexeme .blank [' '] u := fun _ => ⟨by decide, rfl⟩
  have hvalue := Balanced.plain (hblank _) (by decide) (balanced_showHash h rest)
  have hsign := Balanced.plain (hequals _) (by decide) hvalue
  show Balanced
    ("hash".toList ++ ([' '] ++ (['='] ++ ([' '] ++ showHash h)))) (')' :: rest)
  exact .plain (hword _) (by decide) (.plain (hblank _) (by decide) hsign)

/-- The marker is an annotation in front of others. -/
theorem annotations_mark (h : Int32) {behind more : Text} {names : List Text}
    (run : Annotations behind more names) :
    Annotations behind (mark h ++ '\n' :: more) ("Generated".toList :: names) := by
  have hmark : mark h ++ '\n' :: more = '@' :: ("Generated".toList ++ ([] ++ '(' ::
      (("hash = ".toList ++ showHash h) ++ ')' :: (['\n'] ++ more)))) := by
    have hfront : "@Generated(hash = ".toList =
        '@' :: ("Generated".toList ++ '(' :: "hash = ".toList) := by
      decide +kernel
    unfold mark
    rw [hfront]
    simp
  have hname : AnnotationName "Generated".toList ([] ++ '(' ::
      (("hash = ".toList ++ showHash h) ++ ')' :: (['\n'] ++ (more ++ behind)))) :=
    .word ⟨by decide, rfl⟩ (by decide)
  have hlast : "Generated".toList = Text.lastSegment "Generated".toList := by decide
  rw [hmark, hlast]
  exact .withArguments ⟨List.cons_ne_nil _ _, rfl⟩ hname rfl (balanced_hash h _) rfl run

end Code

namespace Merge

open Code

theorem provenanceOf_ne_unmarked_iff {m : Modifiers} :
    provenanceOf m ≠ .unmarked ↔
      (m.annotations.map AnnotationUse.simpleName).any isMarkerName = true := by
  have hany : (m.annotations.map AnnotationUse.simpleName).any isMarkerName = true ↔
      hasMark m "Generated" = true ∨ hasMark m "Keep" = true := by
    simp only [List.any_map, List.any_eq_true, Function.comp, isMarkerName,
      Bool.or_eq_true, decide_eq_true_eq, hasMark_iff]
    grind
  rw [hany]
  cases hkeep : hasMark m "Keep" with
  | true => simp [provenanceOf_of_keep hkeep]
  | false =>
    cases hgenerated : hasMark m "Generated" with
    | true =>
      obtain ⟨hash, hprovenance⟩ := provenanceOf_of_generated hkeep hgenerated
      simp [hprovenance]
    | false => simp [provenanceOf_of_unmarked hkeep hgenerated]

/-- What a declaration goes on with behind a run of annotations: right there no
further annotation, and behind comments, if there are any, nothing that the last
one of the run goes on with. -/
structure GoesOn (rest : Text) : Prop where
  solid : Solid rest
  noAnnotation : rest.head? ≠ some '@'
  ends : EndsFront rest

section

variable {before after text lead comments indent front rest : Text} {names : List Text}

/-- The scan finds the markers of the run. -/
theorem isMarked_eq (htext : CommentedDeclaration text comments indent (front ++ rest))
    (hfront : Annotations (rest ++ after) front names) (hrest : GoesOn rest) :
    isMarked text = names.any isMarkerName := by
  have hlength : names.length ≤ text.length := by
    have hnames := hfront.length_le
    have htext' := congrArg List.length htext.parts
    simp only [List.length_append] at htext'
    omega
  have hsolid := solid_of_annotations hfront hrest.solid
  rw [isMarked, htext.split, Text.trimStart_append_of_blank htext.blank,
    hsolid.trimStart]
  exact startsWithMarker_annotations hfront hrest.solid hrest.noAnnotation hlength

/-- A declaration read behind some text has the annotations of the run. -/
theorem annotations_of_read (htext : text = lead ++ (front ++ rest))
    (hfront : Annotations (rest ++ after) front names) (hrest : GoesOn rest)
    {t : TypeDecl} {d : Declaration}
    (ht : t ∈ (CompilationUnit.read (before ++ (text ++ after))).types)
    (hd : d.IsIn t.members) (hstart : d.span.start = (before ++ lead).length) :
    ∃ others, d.modifiers.annotations.map AnnotationUse.simpleName =
      names ++ others := by
  refine annotations_of_front ht hd ?_ hfront (hrest.ends.append after)
  have hsource : before ++ (text ++ after) =
      (before ++ lead) ++ (front ++ (rest ++ after)) := by
    rw [htext]
    simp
  rw [hstart, hsource, List.drop_left]

/-- **Text and declaration carry the same markers.** A text is read, within a
source, as a declaration behind comments on lines of their own. A run of
annotations stands in front of the rest of the declaration, and none of its
annotations behind the run is a marker. Then the scan finds a marker in the text
just when the declaration has one; code that has one is left as it is, and code
that has none gets one, which the declaration is read with. -/
theorem isMarked_iff_provenance
    (htext : CommentedDeclaration text comments indent (front ++ rest))
    (hfront : Annotations (rest ++ after) front names) (hrest : GoesOn rest)
    {t : TypeDecl} {d : Declaration}
    (ht : t ∈ (CompilationUnit.read (before ++ (text ++ after))).types)
    (hd : d.IsIn t.members)
    (hstart : d.span.start = (before ++ (comments ++ indent)).length)
    (hothers : ∀ a ∈ d.modifiers.annotations.drop names.length,
      isMarkerName a.simpleName = false) :
    (isMarked text = true ↔ provenanceOf d.modifiers ≠ .unmarked) ∧
      (provenanceOf d.modifiers ≠ .unmarked → ensureStamped text = text) ∧
      (provenanceOf d.modifiers = .unmarked →
        ensureStamped text =
          comments ++ (marker (structuralHash text) ++ (front ++ rest)) ∧
          ∀ t' ∈ (CompilationUnit.read (before ++ (ensureStamped text ++ after))).types,
            ∀ d' : Declaration, d'.IsIn t'.members →
              d'.span.start = (before ++ comments).length →
              provenanceOf d'.modifiers ≠ .unmarked) := by
  have hparts : text = comments ++ indent ++ (front ++ rest) := by
    rw [htext.parts, List.append_assoc]
  -- what is read are the annotations of the run and `others`, none of which is
  -- a marker
  obtain ⟨others, hnames⟩ := annotations_of_read hparts hfront hrest ht hd hstart
  have hnoOther : others.any isMarkerName = false := by
    have hdrop : (d.modifiers.annotations.drop names.length).map
        AnnotationUse.simpleName = others := by
      rw [List.map_drop, hnames, List.drop_left]
    rw [← hdrop, List.any_map, List.any_eq_false]
    intro a ha
    exact Bool.eq_false_iff.mp (hothers a ha)
  have hmarked : isMarked text = true ↔ provenanceOf d.modifiers ≠ .unmarked := by
    rw [provenanceOf_ne_unmarked_iff, hnames, List.any_append, hnoOther, Bool.or_false,
      isMarked_eq htext hfront hrest]
  refine ⟨hmarked, fun h => if_pos (hmarked.mpr h), fun h => ?_⟩
  have hstamped : ensureStamped text = stamp text :=
    if_neg fun hyes => hmarked.mp hyes h
  have hstamp : stamp text =
      comments ++ ((mark (structuralHash text) ++ '\n' :: front) ++ rest) := by
    rw [htext.stamp_eq]
    simp
  rw [hstamped]
  constructor
  · rw [htext.stamp_eq, marker_eq]
    simp
  -- in the stamped text the new marker is the first annotation of the run
  · intro t' ht' d' hd' hstart'
    obtain ⟨others', hnames'⟩ :=
      annotations_of_read hstamp (annotations_mark _ hfront) hrest ht' hd' hstart'
    rw [provenanceOf_ne_unmarked_iff, hnames']
    rfl

end

namespace MarkerSample

/-- The annotations of a field. -/
def front : Text := '@' :: ("Id".toList ++ (['\n'] ++ (mark 1 ++ ['\n'])))

/-- What the field goes on with. -/
def rest : Text := "private int a;"

/-- The field behind a comment. -/
def text : Text := "// note\n" ++ (front ++ rest)

/-- What follows the field in its source. -/
def after : Text := "\n\x7d\n"

/-- A class with the field. -/
def source : Text := "class A \x7b\n" ++ (text ++ after)

theorem commented : CommentedDeclaration text "// note\n" [] (front ++ rest) where
  parts := rfl
  comments := by
    have hline : "// note\n".toList =
        [] ++ '/' :: '/' :: (" note".toList ++ '\n' :: []) := by decide
    have hbreak : '\n' ∉ [] ++ " note".toList := by simp
    rw [hline]
    exact .lineComment rfl hbreak .nil
  blank := rfl
  inLine := List.not_mem_nil
  starts := ⟨⟨'@', _, rfl, by decide⟩, by decide +kernel, by decide +kernel⟩

theorem annotations :
    Annotations (rest ++ after) front ["Id".toList, "Generated".toList] := by
  have hid : "Id".toList = Text.lastSegment "Id".toList := by decide
  have hname : AnnotationName "Id".toList
      (['\n'] ++ (mark 1 ++ ['\n'] ++ (rest ++ after))) :=
    .word ⟨by decide, rfl⟩ (by decide)
  have hends : ∀ c ∈ (['\n'] ++ (mark 1 ++ ['\n'] ++ (rest ++ after))).head?,
      inAnnotationName c = false := by
    rintro c hc
    cases hc
    decide
  rw [hid]
  exact .bare ⟨List.cons_ne_nil _ _, rfl⟩ hname hends rfl (annotations_mark 1 .nil)

theorem goesOn : GoesOn rest where
  solid := ⟨'p', _, rfl, by decide, by decide⟩
  noAnnotation := by decide
  ends := ⟨[], 'p', _, rfl, .nil, by decide, by decide, by decide, by decide⟩

theorem read_source :
    ((CompilationUnit.read source).types.map fun t => t.members.map fun d =>
    (d.span.start, d.modifiers.annotations.map AnnotationUse.simpleName)) =
      [[("class A \x7b\n// note\n".toList.length,
        ["Id".toList, "Generated".toList])]] := by
  decide +kernel

end MarkerSample

open MarkerSample in
/-- In the sample, the marker of the field is found in its text. -/
theorem isMarked_iff_provenance_sample :
    ∃ t ∈ (CompilationUnit.read source).types, ∃ d ∈ t.members,
      isMarked text = true ∧ provenanceOf d.modifiers ≠ .unmarked ∧
      ensureStamped text = text := by
  obtain ⟨t, types, htypes, ht, -⟩ := List.map_eq_cons_iff.mp read_source
  obtain ⟨d, members, hmembers, hd, -⟩ := List.map_eq_cons_iff.mp ht
  obtain ⟨hstart, hnames⟩ := Prod.mk.inj hd
  have htmem : t ∈ (CompilationUnit.read source).types := by
    rw [htypes]
    exact List.mem_cons_self
  have hdmem : d ∈ t.members := by
    rw [hmembers]
    exact List.mem_cons_self
  have hothers : d.modifiers.annotations.drop 2 = [] := by
    have hlength := congrArg List.length hnames
    rw [List.length_map] at hlength
    exact List.drop_eq_nil_of_le (Nat.le_of_eq hlength)
  have hmarked : isMarked text = true := by decide +kernel
  obtain ⟨hiff, hkept, -⟩ :=
    isMarked_iff_provenance commented annotations goesOn htmem (.here hdmem)
      hstart (by
        rw [List.length_cons, List.length_cons, List.length_nil, hothers]
        exact List.forall_mem_nil _)
  exact ⟨t, htmem, d, hdmem, hmarked, hiff.mp hmarked, hkept (hiff.mp hmarked)⟩

/-- Behind a keyword, the marker of a declaration is not found in its text, and
another one is set. -/
theorem marker_behind_keyword_is_missed :
    isMarked "public @Generated(hash = 1) int a;" = false ∧
      ensureStamped "public @Generated(hash = 1) int a;" =
        "@Generated(hash = -107462638)\npublic @Generated(hash = 1) int a;".toList ∧
      ((CompilationUnit.read
        "class A \x7b\npublic @Generated(hash = 1) int a;\n\x7d\n").types.map fun t =>
        t.members.map fun d => provenanceOf d.modifiers) = [[.generated (some 1)]] :=
  ⟨by decide +kernel, by decide +kernel, by decide +kernel⟩

end Merge

end Graft
