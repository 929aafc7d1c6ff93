import Graft.Entity.Reading
import Graft.Proofs.Code.Relayout
import Graft.Proofs.Code.Stamp

/-!
# Stamped code and the check against tampering

The hash in a marker is taken before the marker and the layout exist, and
checked when both are there. Since neither adds to what is significant in the
declaration, the check succeeds for code as it was written, and after any
change of layout and comments; any other change that reaches the hash is
answered with an error.
-/

namespace Graft.Entity

open Java Code

/-- What a parser finds in code with a marked member: behind blanks and
comments the marker for a hash, then the declaration, and behind it blanks
and comments only. -/
structure FindsMember (hash : Int32)
    (code lead marker declaration tail : Text) : Prop where
  parts : code = lead ++ marker ++ declaration ++ tail
  leadOutside : Mode.code.after lead = .code
  leadEmpty : Mode.code.emitted lead = []
  markerOutside : Mode.code.after marker = .code
  markerReads : Code.normalize marker = Code.normalize (mark hash)
  declarationOutside : Mode.code.after declaration = .code
  tailEmpty : Code.normalize tail = []

/-- The spans that a parser reports for a member and its marker when their code
stands behind other text: from the marker to the end of the declaration, and
that of the marker. -/
structure Reported (before lead marker declaration : Text)
    (span markSpan : Span) : Prop where
  start : span.start = before.length + lead.length
  markStart : markSpan.start = span.start
  markStop : markSpan.stop = span.start + marker.length
  stop : span.stop = markSpan.stop + declaration.length

theorem FindsMember.normalize_declaration {hash : Int32}
    {code lead marker declaration tail rest : Text}
    (h : FindsMember hash code lead marker declaration tail)
    (hcode : Code.normalize code = Code.normalize (mark hash) ++ rest) :
    Code.normalize declaration = rest := by
  have hemitted : ∀ t : Text, Mode.code.after t = .code →
      Code.normalize t = Mode.code.emitted t := by
    intro t ht
    rw [Code.normalize, Mode.significant_eq, ht, show Mode.code.close = [] from rfl,
      List.append_nil]
  have hparts : Code.normalize code = Code.normalize marker ++
      (Code.normalize declaration ++ Code.normalize tail) := by
    rw [hemitted marker h.markerOutside, hemitted declaration h.declarationOutside,
      h.parts, List.append_assoc, List.append_assoc, Code.normalize,
      Mode.significant_append, h.leadOutside, h.leadEmpty, List.nil_append,
      Mode.significant_append, h.markerOutside, Mode.significant_append,
      h.declarationOutside, Code.normalize]
  rw [hcode, h.markerReads, h.tailEmpty, List.append_nil] at hparts
  exact (List.append_cancel_left hparts).symm

/-- Without its marker, the code of a member is its declaration. -/
theorem codeWithout_eq {s : Site} {before lead marker declaration tail after : Text}
    {span markSpan : Span} (hsource : s.source =
      before ++ (lead ++ marker ++ declaration ++ tail) ++ after)
    (h : Reported before lead marker declaration span markSpan) :
    s.codeWithout span markSpan = declaration := by
  have htext : span.text s.source = marker ++ declaration := by
    have hstart : span.start = (before ++ lead).length := by
      rw [h.start, List.length_append]
    have hstop : span.stop =
        (before ++ lead).length + (marker ++ declaration).length := by
      have hlength : (marker ++ declaration).length =
          marker.length + declaration.length :=
        List.length_append
      rw [h.stop, h.markStop, hstart, Nat.add_assoc, hlength]
    have hassoc : before ++ (lead ++ marker ++ declaration ++ tail) ++ after =
        (before ++ lead) ++ ((marker ++ declaration) ++ (tail ++ after)) := by
      simp only [List.append_assoc]
    rw [Span.text, Text.slice, hsource, hassoc, hstart, hstop,
      List.take_length_add_append, List.drop_left, List.take_left]
  have hstop : markSpan.stop - span.start = marker.length := by
    rw [h.markStop, Nat.add_sub_cancel_left]
  rw [Site.codeWithout, htext, h.markStart, Nat.sub_self, hstop, without,
    List.take_zero, Nat.max_eq_right (Nat.zero_le _), List.drop_left, List.nil_append]

theorem fitsHash_toInt (hash : Int32) : fitsHash hash.toInt = true := by
  rw [fitsHash, Bool.and_eq_true, decide_eq_true_iff, decide_eq_true_iff]
  exact ⟨hash.minValue_le_toInt, hash.toInt_le⟩

/-- What the marker for a hash says. -/
def markArguments (hash : Int32) : Arguments :=
  .named [("hash".toList, .integer hash.toInt)]

theorem integer?_of_values {g : Given} {key : Text} {n : Int}
    (h : g.values = [(key, .integer n)]) :
    g.integer? key = .ok (some n) := by
  have hvalue : g.value? key = some (.integer n) := by
    rw [Given.value?, h, List.lookup_cons, beq_self_eq_true]
  rw [Given.integer?, hvalue]

theorem read_of_hash {g : Given} {hash : Int32}
    (h : g.integer? "hash" = .ok (some hash.toInt)) :
    Shape.generated.read g = .ok (some hash) := by
  show (g.integer? "hash").bind _ = _
  rw [h]
  show (if fitsHash hash.toInt then Except.ok
    (some (Int32.ofInt hash.toInt)) else _) = _
  rw [fitsHash_toInt, if_pos rfl, Int32.ofInt_toInt]

/-- The arguments of the marker for a hash are read as that hash. -/
theorem read_generated (scope : Scope) {use : AnnotationUse} {hash : Int32}
    (h : use.arguments = markArguments hash) :
    Shape.generated.read (.ofUse scope use) = .ok (some hash) := by
  apply read_of_hash
  apply integer?_of_values
  rw [Given.ofUse, h]
  rfl

/-- Who looks after a member that carries the marker for a hash and is not
marked to be kept. -/
theorem provenance_of_marked (s : Site) {m : Marks} (span : Span)
    {location : Location} {use : AnnotationUse} {hash : Int32}
    (hkeep : m.hasAt Shape.keep location = .ok false)
    (hmark : m.use? Shape.generated = .ok (some use))
    (harguments : use.arguments = markArguments hash) :
    s.provenance m span location =
      if hash = uncheckedHash ∨ structuralHash (s.codeWithout span use.span) = hash then
        .ok (.generated (some hash))
      else .error
        (.tamperedCode location hash
          (structuralHash (s.codeWithout span use.span))) := by
  have hfound : orAmbiguous location (m.use? Shape.generated) = .ok (some use) := by
    rw [hmark]
    rfl
  have hread : (Shape.generated.read (.ofUse s.scope use)).mapError
      (ArgumentError.at location Shape.generated.name) = .ok (some hash) := by
    rw [read_generated s.scope harguments]
    rfl
  rw [Site.provenance, hkeep, hfound]
  simp only [bind, Except.bind, hread, Provenance.verifiableHash?]
  by_cases hunchecked : hash = uncheckedHash
  · simp [hunchecked, pure, Except.pure]
  · by_cases hequal : structuralHash (s.codeWithout span use.span) = hash
    · simp [hunchecked, hequal, pure, Except.pure]
    · simp [hunchecked, hequal, throw, throwThe, MonadExceptOf.throw]

/-- A member that is marked to be kept is not checked. -/
theorem provenance_of_kept (s : Site) {m : Marks} (span : Span) {location : Location}
    (hkeep : m.hasAt Shape.keep location = .ok true) :
    s.provenance m span location = .ok .keep := by
  rw [Site.provenance, hkeep]
  rfl

/-- **What a pass writes passes the check against tampering.** Code that is
stamped and laid out carries its marker in front of all that is significant.
Wherever it stands, and after any changes of its layout and comments, the hash
of a member found in it is the one in its marker. A member that carries this
marker is refused exactly if its hash is another one, unless the hash stands for
code that is not to be checked or the member is marked to be kept. -/
theorem stamped_code_is_untampered {text : Text} (h : Stampable text) (style : Style)
    (depth : Nat) :
    (∃ lead rest, layout style depth (stamp text) =
      lead ++ mark (structuralHash text) ++ rest ∧
      Mode.code.after lead = .code ∧ Mode.code.emitted lead = []) ∧
    (∀ code, Relaid (layout style depth (stamp text)) code →
      ∀ lead marker declaration tail,
        FindsMember (structuralHash text) code lead marker declaration tail →
      ∀ (s : Site) (before after : Text), s.source = before ++ code ++ after →
      ∀ span markSpan, Reported before lead marker declaration span markSpan →
        structuralHash (s.codeWithout span markSpan) = structuralHash text) ∧
    (∀ (s : Site) (m : Marks) (span : Span) (location : Location) (use : AnnotationUse),
      m.hasAt Shape.keep location = .ok false →
      m.use? Shape.generated = .ok (some use) →
      use.arguments = markArguments (structuralHash text) →
        s.provenance m span location =
          if structuralHash text = uncheckedHash ∨
              structuralHash (s.codeWithout span use.span) = structuralHash text then
            .ok (.generated (some (structuralHash text)))
          else
            .error (.tamperedCode location (structuralHash text)
              (structuralHash (s.codeWithout span use.span)))) ∧
    ∀ (s : Site) (m : Marks) (span : Span) (location : Location),
      m.hasAt Shape.keep location = .ok true →
      s.provenance m span location = .ok .keep := by
  refine ⟨h.exists_mark_layout style depth, ?_, ?_, ?_⟩
  · intro code hrelaid lead marker declaration tail hfinds s before after hsource span
      markSpan hspans
    -- neither the layout nor laying out again shows in the normal form
    have hcode : Code.normalize code = Code.normalize (mark (structuralHash text)) ++
        Code.normalize text := by
      rw [← hrelaid.normalize_eq, normalize_layout style depth h.closesLiterals_stamp,
        h.normalize_stamp]
    rw [hfinds.parts] at hsource
    rw [codeWithout_eq hsource hspans, structuralHash,
      hfinds.normalize_declaration hcode]
    rfl
  · intro s m span location use hkeep hmark harguments
    exact provenance_of_marked s span hkeep hmark harguments
  · intro s m span location hkeep
    exact provenance_of_kept s span hkeep

namespace StampSample

/-- A method as a template gives it. -/
def text : Text := "/** The id. */\nlong getId() \x7b\nreturn id; // never 0\n\x7d\n"

/-- What stands before the marker once the method is laid out. -/
def lead : Text := "    /** The id. */\n    "

/-- What stands behind the marker, with a line joined to the one before and a
comment changed. -/
def declaration : Text :=
  "\n    long getId() \x7b" ++ " " ++ "return id; " ++ "/* always 7 */\n    " ++ "\x7d"

/-- A class with the method in it. -/
def site : Site where
  source := "class A \x7b\n".toList ++
    (lead ++ mark (structuralHash text) ++ declaration ++ []) ++ "\n\x7d\n".toList
  path := "A.java"
  entityName := "A"
  scope := { package := [] }
  settings := {}

end StampSample

/-- The sample is changed by joining two lines and by writing
another comment. -/
theorem StampSample.relaid : Relaid (layout {} 1 (stamp StampSample.text))
    (StampSample.lead ++ mark (structuralHash StampSample.text) ++
      StampSample.declaration ++ []) := by
  let front : Text := StampSample.lead ++ mark (structuralHash StampSample.text) ++
    "\n    long getId() \x7b".toList
  have hlayout : layout {} 1 (stamp StampSample.text) = front ++ "\n        ".toList ++
      "return id; // never 0\n    \x7d".toList := by decide +kernel
  have hjoined : front ++ " ".toList ++ "return id; // never 0\n    \x7d".toList =
      (front ++ " return id; ".toList) ++ "// never 0\n    ".toList ++
      "\x7d".toList := by
    decide +kernel
  have hcommented : (front ++ " return id; ".toList) ++ "/* always 7 */\n    ".toList ++
      "\x7d".toList = StampSample.lead ++ mark (structuralHash StampSample.text) ++
        StampSample.declaration ++ [] := by decide +kernel
  have hindent : Filler "    ".toList := filler_of_blank (by decide +kernel)
  have hbreak : Filler "\n    ".toList := filler_of_blank (by decide +kernel)
  have hinLine : '\n' ∉ " never 0".toList := by decide +kernel
  have hinside : ¬ ['*', '/'] <:+: " always 7 ".toList := by decide +kernel
  have hold : Filler "// never 0\n    ".toList := .lineComment hinLine hindent
  have hnew : Filler "/* always 7 */\n    ".toList := .blockComment hinside hbreak
  rw [hlayout, ← hcommented]
  refine .trans (.refills (by decide +kernel) (filler_of_blank (by decide +kernel))
    (filler_of_blank (t := " ".toList) (by decide +kernel))) ?_
  rw [hjoined]
  exact .refills (by decide +kernel) hold hnew

/-- The sample method is found untampered, also after a change of its layout
and its comment. -/
theorem stamped_code_is_untampered_sample :
    Stampable StampSample.text ∧
    structuralHash (StampSample.site.codeWithout ⟨33, 113, 3⟩ ⟨33, 62, 3⟩) =
      structuralHash StampSample.text := by
  have stampable : Stampable StampSample.text := by decide +kernel
  have finds : FindsMember (structuralHash StampSample.text)
      (StampSample.lead ++ mark (structuralHash StampSample.text) ++
        StampSample.declaration ++ [])
      StampSample.lead (mark (structuralHash StampSample.text))
        StampSample.declaration [] :=
    { parts := rfl
      leadOutside := by decide +kernel
      leadEmpty := by decide +kernel
      markerOutside := after_mark _
      markerReads := rfl
      declarationOutside := by decide +kernel
      tailEmpty := rfl }
  have reported : Reported "class A \x7b\n".toList StampSample.lead
      (mark (structuralHash StampSample.text)) StampSample.declaration ⟨33, 113, 3⟩
        ⟨33, 62, 3⟩ :=
    { start := by decide +kernel
      markStart := rfl
      markStop := by decide +kernel
      stop := by decide +kernel }
  obtain ⟨-, huntampered, -⟩ := stamped_code_is_untampered stampable {} 1
  exact ⟨stampable,
    huntampered _ StampSample.relaid _ _ _ _ finds StampSample.site _ _ rfl _ _
    reported⟩

end Graft.Entity
