import Graft.Merge.Writing
import Graft.Proofs.Text.Slice

/-!
# Spans that fit their source

What a reader of source files promises about the spans of a type: the body runs
from brace to brace, the members stand between the braces, apart from one
another, and each begins and ends with a character that is not blank.
-/

namespace Graft.Merge

open Java Entity

/-- One span lies before or behind another. -/
def IsOutside (s other : Span) : Prop :=
  s.start ≤ s.stop ∧ (s.stop ≤ other.start ∨ other.stop ≤ s.start)

/-- There is a character at a position, and it is not blank. -/
def IsSolid (source : Text) (position : Nat) : Prop :=
  ∃ c, source[position]? = some c ∧ Char.isBlank c = false

/-- Two extents have no position in common. -/
def IsApart (a b : Extent) : Prop := a.stop ≤ b.start ∨ b.stop ≤ a.start

/-- The spans of a type and of what stands around it fit the source. The
variables of one field declaration share its extent; different
declarations stand apart. -/
structure SpansFit (source : Text) (unit : CompilationUnit) (t : TypeDecl) : Prop where
  opens : source[t.body.start]? = some '\x7b'
  closes : source[t.body.stop - 1]? = some '\x7d'
  braces : t.body.start < t.body.stop - 1
  inside : ∀ d ∈ t.members, t.body.start < d.extent.start ∧ d.extent.stop < t.body.stop
  filled : ∀ d ∈ t.members, d.extent.start < d.extent.stop
  first : ∀ d ∈ t.members, IsSolid source d.extent.start
  last : ∀ d ∈ t.members, IsSolid source (d.extent.stop - 1)
  apart : t.members.Pairwise fun d e => IsApart d.extent e.extent
  imports : ∀ i ∈ unit.imports, IsOutside i.span t.body
  package : ∀ span ∈ unit.packageSpan, IsOutside span t.body

instance (a b : Span) : Decidable (IsOutside a b) :=
  inferInstanceAs (Decidable (_ ∧ _))

instance (a b : Extent) : Decidable (IsApart a b) :=
  inferInstanceAs (Decidable (_ ∨ _))

instance (source : Text) (position : Nat) : Decidable (IsSolid source position) :=
  decidable_of_iff ((source[position]?).any (!Char.isBlank ·) = true) (by
    rw [Option.any_eq_true]
    simp [IsSolid])

instance (source : Text) (unit : CompilationUnit) (t : TypeDecl) :
    Decidable (SpansFit source unit t) :=
  decidable_of_iff
    ((source[t.body.start]? = some '\x7b' ∧ source[t.body.stop - 1]? = some '\x7d' ∧
        t.body.start < t.body.stop - 1) ∧
      (∀ d ∈ t.members, (t.body.start < d.extent.start ∧ d.extent.stop < t.body.stop) ∧
        d.extent.start < d.extent.stop ∧ IsSolid source d.extent.start ∧
        IsSolid source (d.extent.stop - 1)) ∧
      (t.members.Pairwise fun d e => IsApart d.extent e.extent) ∧
      (∀ i ∈ unit.imports, IsOutside i.span t.body) ∧
      (∀ span ∈ unit.packageSpan, IsOutside span t.body))
    ⟨fun ⟨⟨h1, h2, h3⟩, hd, h4, h5, h6⟩ =>
        ⟨h1, h2, h3, fun d h => (hd d h).1, fun d h => (hd d h).2.1,
          fun d h => (hd d h).2.2.1,
          fun d h => (hd d h).2.2.2, h4, h5, h6⟩,
      fun h => ⟨⟨h.opens, h.closes, h.braces⟩,
        fun d hd => ⟨h.inside d hd, h.filled d hd, h.first d hd, h.last d hd⟩,
        h.apart, h.imports, h.package⟩⟩

/-! ## A source whose spans fit -/

namespace Sample

/-- A class with a field and a method written by hand and two
generated fields. -/
def source : Text :=
  "class A \x7b\n    int x; // by hand\n    @Generated(hash = 3) int a;\n\n" ++
    "    @Generated(hash = 4) int b;\n    @Keep void f() \x7b\x7d\n\x7d\n"

/-- The source as it is read. -/
def unit : CompilationUnit := CompilationUnit.read source

/-- The class of the source. -/
def type : TypeDecl := unit.types.head!

theorem fits : SpansFit source unit type := by decide +kernel

end Sample

/-- A field, constructor or method that is marked as generated. -/
structure IsGenerated (d : Declaration) : Prop where
  declares : signaturesOf d ≠ []
  marked : (provenanceOf d.modifiers).isGenerated = true

/-- A blank stretch holds no solid position. -/
theorem not_solid_of_blank {source : Text} {start stop p : Nat}
    (h : Text.isBlank (source.slice start stop) = true) (hstart : start ≤ p)
    (hstop : p < stop) :
    ¬ IsSolid source p := by
  rintro ⟨c, hc, hsolid⟩
  have := (Text.isBlank_slice_iff source start stop).mp h p c hstart hstop hc
  rw [hsolid] at this
  cases this

namespace SpansFit

variable {source : Text} {unit : CompilationUnit} {t : TypeDecl}

theorem body_lt_length (fit : SpansFit source unit t) :
    t.body.stop - 1 < source.length :=
  (List.getElem?_eq_some_iff.mp fit.closes).1

theorem stop_lt_length (fit : SpansFit source unit t) {d : Declaration}
    (hd : d ∈ t.members) :
    d.extent.stop < source.length := by
  have := fit.body_lt_length
  have := fit.inside d hd
  omega

private theorem isApart_of_pairwise {ds : List Declaration}
    (h : ds.Pairwise fun d e => IsApart d.extent e.extent) {d e : Declaration}
    (hd : d ∈ ds) (he : e ∈ ds) (hne : d ≠ e) : IsApart d.extent e.extent := by
  induction h with
  | nil => cases hd
  | cons hhead _ ih =>
    rcases List.mem_cons.mp hd with hd | hd <;> rcases List.mem_cons.mp he with he | he
    · exact absurd (hd.trans he.symm) hne
    · exact hd ▸ hhead e he
    · exact he ▸ (hhead d hd).symm
    · exact ih hd he

/-- Different declarations stand apart. -/
theorem isApart (fit : SpansFit source unit t) {d e : Declaration} (hd : d ∈ t.members)
    (he : e ∈ t.members) (hne : d ≠ e) : IsApart d.extent e.extent :=
  isApart_of_pairwise fit.apart hd he hne

/-- A generated declaration stands apart from every declaration that
is not generated. -/
theorem apart_of_generated (fit : SpansFit source unit t) {d e : Declaration}
    (hd : d ∈ t.members) (he : e ∈ t.members) (hgen : IsGenerated d)
    (hhand : ¬ IsGenerated e) :
    IsApart d.extent e.extent := by
  apply fit.isApart hd he
  rintro rfl
  exact hhand hgen

end SpansFit

end Graft.Merge
