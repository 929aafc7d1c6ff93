import Graft.Entity.Vocabulary
import Graft.Proofs.Code.LiteralLines
import Graft.Proofs.Entity.Members
import Graft.Proofs.Java.Annotations
import Graft.Proofs.Java.Resolution
import Mathlib.Data.List.TakeWhile

/-!
# Marks with their package written out

An annotation that is written as the package of the annotations, a dot and the
name of a shape is resolved as a dotted name. A dotted name that starts with a
small letter is taken for a qualified one, but a package that the settings allow
may also start with a capital, an underscore or a letter of neither case. The
first part of such a package is looked up as if it were the name of a type
(`Entity.has_written_out`), and in a scope with a package it is then found to be
one of that package or of an import, so that the mark is missed
(`Entity.capital_package_is_missed`).
-/

namespace Graft

open Java

namespace Text

/-- What holds of a separator and of the pieces between its occurrences
holds of the text. -/
theorem forall_mem_of_splitOn {P : Char → Prop} (sep : Char) {t : Text} (hsep : P sep)
    (h : ∀ piece ∈ splitOn sep t, ∀ c ∈ piece, P c) : ∀ c ∈ t, P c := by
  unfold splitOn at h
  induction t with
  | nil => exact List.forall_mem_nil _
  | cons d rest ih =>
    rw [splitBy] at h
    split at h
    · next hd =>
      rw [eq_of_beq hd]
      exact List.forall_mem_cons.mpr ⟨hsep, ih (List.forall_mem_cons.mp h).2⟩
    · cases hpieces : splitBy (· == sep) rest with
      | nil => exact absurd hpieces (splitBy_ne_nil _ rest)
      | cons piece pieces =>
        rw [hpieces] at h ih
        obtain ⟨hfirst, hmore⟩ := List.forall_mem_cons.mp h
        obtain ⟨hd, hpiece⟩ := List.forall_mem_cons.mp hfirst
        exact List.forall_mem_cons.mpr
          ⟨hd, ih (List.forall_mem_cons.mpr ⟨hpiece, hmore⟩)⟩

theorem dot_notMem_lastSegment (t : Text) : '.' ∉ lastSegment t := by
  intro h
  rw [lastSegment, List.mem_reverse] at h
  have hdot := List.mem_takeWhile_imp h
  exact absurd hdot (by decide)

/-- The first piece of a dotted name. -/
def firstSegment (t : Text) : Text := t.takeWhile (· != '.')

theorem dot_notMem_firstSegment (t : Text) : '.' ∉ firstSegment t := by
  intro h
  have hdot := List.mem_takeWhile_imp h
  exact absurd hdot (by decide)

/-- The first piece starts as the whole name does, unless this
starts with a dot. -/
theorem any_head_firstSegment {p : Char → Bool} (hdot : p '.' = false) (t : Text) :
    (firstSegment t).head?.any p = t.head?.any p := by
  cases t with
  | nil => rfl
  | cons c t =>
    by_cases hc : c = '.'
    · subst hc
      exact hdot.symm
    · rw [firstSegment, List.takeWhile_cons_of_pos (by simpa using hc)]
      rfl

/-- In front of a dot, a name goes on with one behind its first piece. -/
theorem exists_firstSegment_append (t name : Text) :
    ∃ rest, t ++ '.' :: name = firstSegment t ++ '.' :: rest := by
  induction t with
  | nil => exact ⟨name, rfl⟩
  | cons c t ih =>
    by_cases hc : c = '.'
    · subst hc
      exact ⟨t ++ '.' :: name, rfl⟩
    · obtain ⟨rest, hrest⟩ := ih
      refine ⟨rest, ?_⟩
      rw [firstSegment, List.takeWhile_cons_of_pos (by simpa using hc),
        List.cons_append, hrest]
      rfl

end Text

/-! ## Packages that the settings allow -/

namespace AnnotationSettings

/-- The first part of the package of the annotations. -/
def top (s : AnnotationSettings) : Text := Text.firstSegment s.package

/-- Whether the package of the annotations starts with a small letter. -/
def startsSmall (s : AnnotationSettings) : Bool := s.package.head?.any Char.isSmall

end AnnotationSettings

theorem isLetterOrNumber_of_isLetter {c : Char} (h : Char.isLetter c = true) :
    Char.isLetterOrNumber c = true := by
  rw [Char.isLetter, Char.ofClass] at h
  rw [Char.isLetterOrNumber, Char.ofClass]
  split at h
  · next hascii => rw [if_pos hascii, Char.isAlphanum, h, Bool.true_or]
  · next hwide =>
    rw [Char.inRanges] at h
    rw [if_neg hwide, Char.inRanges, Array.any_append, h, Bool.true_or]

theorem inAnnotationName_of_isPackageName {t : Text} (h : isPackageName t = true) :
    ∀ c ∈ t, Code.inAnnotationName c = true := by
  refine Text.forall_mem_of_splitOn '.' (by decide) fun piece hpiece c hc => ?_
  have hsegment := List.all_eq_true.mp h piece hpiece
  cases piece with
  | nil => cases hc
  | cons first rest =>
    rw [isPackageSegment, Bool.and_eq_true, Bool.or_eq_true] at hsegment
    rcases List.mem_cons.mp hc with rfl | hc
    · have hfirst := hsegment.1.imp_left isLetterOrNumber_of_isLetter
      rw [Code.inAnnotationName]
      rcases hfirst with hfirst | hfirst <;> simp [hfirst]
    · have hother := List.all_eq_true.mp hsegment.2 c hc
      rw [Bool.or_eq_true] at hother
      rw [Code.inAnnotationName]
      rcases hother with hother | hother <;> simp [hother]

theorem compact_of_isPackageName {t : Text} (h : isPackageName t = true) :
    Text.compact t = t := by
  rw [Text.compact, List.filter_eq_self]
  intro c hc
  rw [not_isBlank_of_inAnnotationName (inAnnotationName_of_isPackageName h c hc)]
  rfl

theorem isPackageName_of_checked {settings : AnnotationSettings}
    (h : Settings.checkAnnotations settings = .ok ()) :
    isPackageName settings.package = true := by
  obtain ⟨hpackage, -⟩ := check_then_eq_ok_iff.mp h
  rw [Settings.checkPackage] at hpackage
  split at hpackage
  · assumption
  · cases hpackage

namespace Java.Scope

variable {s : Scope}

/-! ## Names that stand for themselves -/

/-- A name without dots stands for itself in a scope without a package, or as
an import without one. -/
theorem package_eq_nil_or_imports_of_resolveSimple {name : Text} (hdot : '.' ∉ name)
    (h : s.resolveSimple name = .ok name) : s.package = [] ∨ s.Imports name false := by
  have hother (front : Text) : front ++ '.' :: name ≠ name := by
    intro hself
    rw [← hself] at hdot
    simp at hdot
  have hqualify : s.qualify name = name → s.package = [] := by
    intro hself
    rw [qualify] at hself
    split at hself
    · next hempty => exact List.isEmpty_iff.mp hempty
    · exact absurd hself (hother s.package)
  -- every other way of looking a name up puts a package in front of it
  rw [resolveSimple] at h
  split at h
  · next path hpath =>
    cases h
    exact .inr (mem_singleImports_iff.mp (List.mem_of_find?_eq_some hpath))
  split at h
  · next qualified hinside =>
    cases h
    rw [resolveInside?] at hinside
    split at hinside
    · split at hinside
      · next henclosing =>
        rw [eq_of_beq henclosing] at hinside
        exact .inl (hqualify (Option.some.inj hinside))
      · split at hinside
        · exact absurd (Option.some.inj hinside) (hother _)
        · cases hinside
    · cases hinside
  split at h
  · exact .inl (hqualify (Except.ok.inj h))
  split at h
  · next qualified himportless =>
    have hdotted : ∀ qualified ∈ importlessTypes, '.' ∈ qualified := by decide
    cases h
    exact absurd (hdotted _ (List.mem_of_find?_eq_some himportless)) hdot
  · rw [resolveByWildcard] at h
    split at h
    · exact .inl (hqualify (Except.ok.inj h))
    · exact absurd (Except.ok.inj h) (hother _)
    · cases h

end Java.Scope

namespace Entity

/-! ## Marks written one way -/

namespace Marks

variable {scope : Scope} {qualified : Text} {uses : List AnnotationUse}

theorem findIn_eq_none (h : ∀ u ∈ uses, u.simpleName ≠ Text.lastSegment qualified) :
    findIn scope qualified uses = .ok none := by
  induction uses with
  | nil => rfl
  | cons v rest ih =>
    obtain ⟨hv, hrest⟩ := List.forall_mem_cons.mp h
    rw [findIn, if_neg (by simpa using hv), ih hrest]

/-- Where all annotations of a simple name are written as the qualified name is,
one is found when this spelling stands for itself. -/
theorem isSome_findIn
    (present : ∃ u ∈ uses, u.simpleName = Text.lastSegment qualified)
    (written : ∀ u ∈ uses, u.simpleName = Text.lastSegment qualified →
      u.name = qualified) :
    (findIn scope qualified uses).map Option.isSome =
      (scope.resolveName qualified).map (· == qualified) := by
  induction uses with
  | nil => simp at present
  | cons v rest ih =>
    obtain ⟨hv, hrest⟩ := List.forall_mem_cons.mp written
    rw [findIn]
    by_cases hsimple : v.simpleName = Text.lastSegment qualified
    · rw [if_pos (beq_iff_eq.mpr hsimple), hv hsimple]
      cases hname : scope.resolveName qualified with
      | error e => rfl
      | ok name =>
        show Except.map Option.isSome (if name == qualified then _ else _) =
          .ok (name == qualified)
        by_cases hself : name = qualified
        · subst hself
          simp [Except.map, pure, Except.pure]
        · rw [if_neg (by simpa using hself), beq_false_of_ne hself]
          -- a further one is written the same way, so that it stands for the
          -- same other name
          by_cases hmore : ∃ u ∈ rest, u.simpleName = Text.lastSegment qualified
          · rw [ih hmore hrest, hname]
            simp [Except.map, hself]
          · rw [findIn_eq_none fun u hu heq => hmore ⟨u, hu, heq⟩]
            rfl
    · rw [if_neg (by simpa using hsimple)]
      obtain ⟨u, hu, heq⟩ := present
      rcases List.mem_cons.mp hu with rfl | hu
      · exact absurd heq hsimple
      · exact ih ⟨u, hu, heq⟩ hrest

end Marks

/-- A spelling with the package of the annotations stands for itself when the
package starts with a small letter, and otherwise when the first part of the
package does. -/
theorem resolveName_qualified_beq (scope : Scope) {settings : AnnotationSettings}
    {name : Text} (valid : Settings.checkAnnotations settings = .ok ())
    (solid : Text.compact name = name) :
    (scope.resolveName (settings.qualified name)).map (· == settings.qualified name) =
      if settings.startsSmall then .ok true
      else (scope.resolveSimple settings.top).map (· == settings.top) := by
  obtain ⟨rest, hparts⟩ : ∃ rest,
      settings.qualified name = settings.top ++ '.' :: rest :=
    Text.exists_firstSegment_append settings.package name
  have hpackage := compact_of_isPackageName (isPackageName_of_checked valid)
  have hcompact : Text.compact (settings.qualified name) = settings.qualified name := by
    rw [AnnotationSettings.qualified, List.append_cons, Text.compact_append,
      Text.compact_append, hpackage, solid]
    rfl
  rw [hparts] at hcompact ⊢
  have htop : '.' ∉ settings.top := Text.dot_notMem_firstSegment settings.package
  have hsmall : settings.top.head?.any Char.isSmall = settings.startsSmall :=
    Text.any_head_firstSegment (by decide) settings.package
  rw [scope.resolveName_dotted htop hcompact, hsmall]
  split
  · simp [Except.map]
  · cases scope.resolveSimple settings.top with
    | error e => rfl
    | ok name =>
      have hcancel : (name ++ '.' :: rest == settings.top ++ '.' :: rest) =
          (name == settings.top) := by
        rw [Bool.eq_iff_iff, beq_iff_eq, beq_iff_eq, List.append_left_inj]
      exact congrArg Except.ok hcancel

/-- An annotation written with its package is found when the package starts with
a small letter. The first part of any other package is looked up as the name of
a type is, and the annotation is found only where this part stands for itself:
in a scope that has a package and does not import the part as it is, the
annotation is missed or counts as ambiguous. -/
theorem has_written_out {α : Type} (m : Marks) (shape : Shape α)
    (valid : Settings.checkAnnotations m.settings = .ok ())
    (solid : Text.compact shape.name = shape.name)
    (present : ∃ u ∈ m.uses, u.simpleName = shape.name)
    (written : ∀ u ∈ m.uses, u.simpleName = shape.name →
      u.name = m.settings.qualified shape.name) :
    (m.settings.startsSmall = true → m.has shape = .ok true) ∧
    (m.settings.startsSmall = false →
      m.has shape = (m.scope.resolveSimple m.settings.top).map (· == m.settings.top)) ∧
    (m.settings.startsSmall = false → m.scope.package ≠ [] →
      ¬ m.scope.Imports m.settings.top false →
      m.has shape = .ok false ∨
        m.scope.IsAmbiguous m.settings.top ∧
          m.has shape = .error ⟨m.settings.top, m.scope.wildcardPackages⟩) := by
  have hname : Text.lastSegment (m.settings.qualified shape.name) = shape.name := by
    obtain ⟨u, -, hu⟩ := present
    exact lastSegment_qualified m.settings (hu ▸ Text.dot_notMem_lastSegment u.name)
  have hhas : m.has shape =
      (m.scope.resolveName (m.settings.qualified shape.name)).map
        (· == m.settings.qualified shape.name) := by
    rw [Marks.has, Marks.use?, Marks.find?]
    refine Marks.isSome_findIn ?_ ?_ <;> rwa [hname]
  rw [resolveName_qualified_beq m.scope valid solid] at hhas
  have hlooked : m.settings.startsSmall = false →
      m.has shape = (m.scope.resolveSimple m.settings.top).map
        (· == m.settings.top) := by
    intro hother
    rw [hhas, hother]
    rfl
  refine ⟨fun hsmall => by rw [hhas, if_pos hsmall], hlooked, ?_⟩
  intro hother hpackage himport
  rw [hlooked hother]
  -- the name is ambiguous, or it is looked up to something that is not its own
  -- first part
  rcases m.scope.resolveSimple_cases m.settings.top with
    ⟨ambiguous, h⟩ | ⟨-, qualified, h⟩
  · exact .inr ⟨ambiguous, by rw [h]; rfl⟩
  · have hne : qualified ≠ m.settings.top := by
      rintro rfl
      rcases m.scope.package_eq_nil_or_imports_of_resolveSimple
        (Text.dot_notMem_firstSegment _) h with hempty | himported
      · exact hpackage hempty
      · exact himport himported
    left
    rw [h, Except.map, beq_false_of_ne hne]

/-- The names of all shapes that the annotations of entities have. -/
def Shape.names : List Text :=
  [Shape.entity.name, Shape.table.name, Shape.index.name, Shape.id.name,
  Shape.uid.name, Shape.nameInDb.name, Shape.convert.name, Shape.relation.name,
  Shape.joinProperty.name,
  Shape.joinEntity.name, Shape.orderBy.name, Shape.generated.name,
  Shape.transient.name, Shape.keep.name,
  Shape.unique.name]

theorem Shape.compact_of_mem_names :
    ∀ name ∈ Shape.names, Text.compact name = name := by decide

/-- A declaration in a package, with one annotation that is written
with its package. -/
def writtenOut (package : Text) : Marks where
  uses := [.mk (package ++ ".Entity") .marker default]
  scope := { package := "p" }
  settings := { package }

theorem has_written_out_sample :
    (writtenOut "com.acme").has Shape.entity = .ok true ∧
      (writtenOut "Com.acme").has Shape.entity ≠ .ok true := by
  have hsolid : Text.compact Shape.entity.name = Shape.entity.name :=
    Shape.compact_of_mem_names _ List.mem_cons_self
  obtain ⟨hsmall, -, -⟩ :=
    has_written_out (writtenOut "com.acme") Shape.entity rfl hsolid
      (by decide) (by decide)
  obtain ⟨-, -, hother⟩ :=
    has_written_out (writtenOut "Com.acme") Shape.entity rfl hsolid
      (by decide) (by decide)
  refine ⟨hsmall rfl, ?_⟩
  rcases hother rfl (by decide) (by rintro ⟨i, hi, -⟩; cases hi) with
    hmissed | ⟨-, hambiguous⟩
  · rw [hmissed]
    simp
  · rw [hambiguous]
    simp

/-- The settings allow a package that starts with a capital, but an annotation
written with it is missed. -/
theorem capital_package_is_missed :
    Settings.checkAnnotations (writtenOut "Com.acme").settings = .ok () ∧
      (∃ u, (writtenOut "Com.acme").uses = [u] ∧
        u.name = (writtenOut "Com.acme").settings.qualified Shape.entity.name) ∧
      (writtenOut "Com.acme").has Shape.entity = .ok false :=
  ⟨rfl, ⟨_, rfl, rfl⟩, rfl⟩

end Entity

end Graft
