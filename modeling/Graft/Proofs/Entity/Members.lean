import Graft.Entity.Reading
import Graft.Proofs.Results

/-!
# Where the members of an entity come from

An entity is put together from what each declaration of its type contributes. A
method or a constructor contributes itself, a field that is not stored each of
its variables, and all of them who looks after them as the marks of their
declaration say (`Site.Yields`, `ReadOf`).
-/

namespace Graft.Entity

open Java

/-! ## Marks -/

/-- An annotation that is found has the name that was looked for. -/
theorem Marks.findIn_some {scope : Scope} {qualified : Text} {uses : List AnnotationUse}
    {u : AnnotationUse} (h : findIn scope qualified uses = .ok (some u)) :
    u ∈ uses ∧ u.simpleName = Text.lastSegment qualified ∧
    scope.resolveName u.name = .ok qualified := by
  induction uses with
  | nil => cases h
  | cons v rest ih =>
    have hlater : findIn scope qualified rest = .ok (some u) →
        u ∈ v :: rest ∧ u.simpleName = Text.lastSegment qualified ∧
          scope.resolveName u.name = .ok qualified :=
      fun hrest => ⟨List.mem_cons_of_mem _ (ih hrest).1, (ih hrest).2⟩
    rw [findIn] at h
    split at h
    · next hsimple =>
      obtain ⟨name, hname, h⟩ := ok_of_bind h
      split at h
      · next hqualified =>
        cases h
        rw [eq_of_beq hqualified] at hname
        exact ⟨List.mem_cons_self, eq_of_beq hsimple, hname⟩
      · exact hlater h
    · exact hlater h

/-- Where none is found, none has the name that was looked for. -/
theorem Marks.findIn_none {scope : Scope} {qualified : Text} {uses : List AnnotationUse}
    (h : findIn scope qualified uses = .ok none) {u : AnnotationUse} (hu : u ∈ uses)
    (hsimple : u.simpleName = Text.lastSegment qualified) :
    scope.resolveName u.name ≠ .ok qualified := by
  induction uses with
  | nil => cases hu
  | cons v rest ih =>
    rw [findIn] at h
    rcases List.mem_cons.mp hu with rfl | hu
    · rw [if_pos (beq_iff_eq.mpr hsimple)] at h
      obtain ⟨name, hname, h⟩ := ok_of_bind h
      split at h
      · cases h
      · next hother =>
        intro hresolves
        rw [hresolves] at hname
        cases hname
        exact hother (beq_self_eq_true _)
    · split at h
      · obtain ⟨name, -, h⟩ := ok_of_bind h
        split at h
        · cases h
        · exact ih h hu
      · exact ih h hu

/-- The last part of a name with a package is the name. -/
theorem lastSegment_qualified (settings : AnnotationSettings) {name : Text}
    (h : '.' ∉ name) :
    Text.lastSegment (settings.qualified name) = name := by
  have hall : ∀ c ∈ name.reverse, (c != '.') = true := by
    intro c hc
    rw [bne_iff_ne]
    rintro rfl
    exact h (List.mem_reverse.mp hc)
  rw [AnnotationSettings.qualified, Text.lastSegment, List.reverse_append,
    List.reverse_cons, List.append_assoc, List.takeWhile_append_of_pos hall]
  simp

namespace Site

/-- An annotation of a declaration stands for the mark of a name in the package
of the marks. -/
def IsMarked (s : Site) (m : Modifiers) (name : Text) : Prop :=
  ∃ u ∈ m.annotations, u.simpleName = name ∧
    s.scope.resolveName u.name = .ok (s.settings.qualified name)

section

variable {s : Site} {m : Modifiers}

theorem isMarked_of_find {name : Text} (hname : '.' ∉ name) {u : AnnotationUse}
    (h : (s.marks m).find? (s.settings.qualified name) = .ok (some u)) :
    s.IsMarked m name := by
  obtain ⟨hmem, hsimple, hresolves⟩ := Marks.findIn_some h
  rw [lastSegment_qualified s.settings hname] at hsimple
  exact ⟨u, hmem, hsimple, hresolves⟩

theorem not_isMarked_of_find {name : Text} (hname : '.' ∉ name)
    (h : (s.marks m).find? (s.settings.qualified name) = .ok none) :
    ¬ s.IsMarked m name := by
  rintro ⟨u, hu, hsimple, hresolves⟩
  rw [← lastSegment_qualified s.settings hname] at hsimple
  exact Marks.findIn_none h hu hsimple hresolves

/-- Who looks after a declaration, by its marks. -/
inductive Owned (s : Site) (m : Modifiers) : Provenance → Prop
  | keep (keeps : s.IsMarked m "Keep") : Owned s m .keep
  | generated (free : ¬ s.IsMarked m "Keep") (marked : s.IsMarked m "Generated")
      (hash : Option Int32) : Owned s m (.generated hash)
  | unmarked (free : ¬ s.IsMarked m "Keep") (unmarked : ¬ s.IsMarked m "Generated") :
      Owned s m .unmarked

theorem find_of_hasAt {α : Type} {shape : Shape α} {location : Location} {b : Bool}
    (h : (s.marks m).hasAt shape location = .ok b) :
    ∃ found, (s.marks m).find? (s.settings.qualified shape.name) = .ok found ∧
      found.isSome = b := by
  have hhas := ok_of_mapError h
  rw [Marks.has, Marks.use?] at hhas
  show ∃ found, (s.marks m).find?
    ((s.marks m).settings.qualified shape.name) = .ok found ∧ _
  cases hfind : (s.marks m).find? ((s.marks m).settings.qualified shape.name) with
  | error e =>
    rw [hfind] at hhas
    cases hhas
  | ok found =>
    rw [hfind] at hhas
    cases hhas
    exact ⟨found, rfl, rfl⟩

theorem owned_of_provenance {span : Span} {location : Location} {p : Provenance}
    (h : s.provenance (s.marks m) span location = .ok p) : s.Owned m p := by
  have hkeep : '.' ∉ "Keep".toList := by decide
  have hgenerated : '.' ∉ "Generated".toList := by decide
  rw [provenance] at h
  obtain ⟨kept, hkept, h⟩ := ok_of_bind h
  obtain ⟨found, hfound, rfl⟩ := find_of_hasAt hkept
  cases found with
  | some u =>
    cases h
    exact .keep (isMarked_of_find hkeep hfound)
  | none =>
    have hfree := not_isMarked_of_find hkeep hfound
    obtain ⟨mark, hmark, h⟩ := ok_of_bind h
    have hmark' : (s.marks m).find? (s.settings.qualified "Generated") = .ok mark :=
      ok_of_mapError hmark
    cases mark with
    | none =>
      cases h
      exact .unmarked hfree (not_isMarked_of_find hgenerated hmark')
    | some use =>
      -- with a hash that is to be checked or without, a value says that the
      -- check succeeded
      have hmarked := isMarked_of_find hgenerated hmark'
      obtain ⟨hash, -, h⟩ := ok_of_bind h
      dsimp only at h
      split at h
      · cases h
        exact .generated hfree hmarked hash
      · split at h
        · cases h
          exact .generated hfree hmarked hash
        · cases h

end

/-! ## What a declaration contributes -/

/-- What is read of a declaration: its transient variables, constructors and
methods, with who looks after each of them. -/
inductive Yields (s : Site) : Declaration → Members → Prop
  | method {m : MethodDecl} {method : Method} {part : Members}
      (name : method.name = m.name) (source : method.source = some m.span)
      (owned : s.Owned m.modifiers method.provenance)
      (methods : part.methods = [method]) (constructors : part.constructors = [])
      (transientFields : part.transientFields = []) : Yields s (.method m) part
  | constructor {c : ConstructorDecl} {constructor : Constructor} {part : Members}
      (source : constructor.source = some c.span)
      (owned : s.Owned c.modifiers constructor.provenance)
      (methods : part.methods = []) (constructors : part.constructors = [constructor])
      (transientFields : part.transientFields = []) : Yields s (.constructor c) part
  /-- A field that is not stored. -/
  | transient {f : FieldDecl} {part : Members}
      (fields : List.Forall₂ (fun field d => field.var.name = d.name ∧
        field.source = some f.span ∧ s.Owned f.modifiers field.provenance)
          part.transientFields f.declarators)
      (methods : part.methods = []) (constructors : part.constructors = []) :
      Yields s (.field f) part
  /-- A field that is stored. -/
  | stored {f : FieldDecl} {part : Members} (methods : part.methods = [])
      (constructors : part.constructors = [])
      (transientFields : part.transientFields = []) :
      Yields s (.field f) part
  | nested {t : TypeDecl} {part : Members} (methods : part.methods = [])
      (constructors : part.constructors = [])
      (transientFields : part.transientFields = []) :
      Yields s (.nested t) part

theorem sum_members {α : Type} (f : Members → List α) (hnil : f {} = [])
    (happend : ∀ a b : Members, f (a ++ b) = f a ++ f b) (parts : List Contribution) :
    f (Contribution.sum parts).members = parts.flatMap fun part => f part.members := by
  have h : ∀ (parts : List Contribution) (a : Contribution),
      f (parts.foldl Contribution.append a).members =
        f a.members ++ parts.flatMap fun part => f part.members := by
    intro parts
    induction parts with
    | nil => exact fun a => (List.append_nil _).symm
    | cons part rest ih =>
      intro a
      rw [List.foldl_cons, ih, List.flatMap_cons, ← List.append_assoc]
      exact congrArg (· ++ _) (happend a.members part.members)
  rw [Contribution.sum, h]
  exact congrArg (· ++ _) hnil

end Site

/-! ## The entity of a source file -/

/-- The surroundings in which the members of a top-level type are read. -/
def siteOf (unit : CompilationUnit) (source path : Text) (siblings : List Text)
    (settings : AnnotationSettings) (t : TypeDecl) : Site where
  source := source
  path := path
  entityName := t.name
  scope :=
    { package := unit.packageName, imports := unit.imports, enclosing := some t.name
      nested := t.nestedTypeNames, siblings }
  settings := settings

/-- An entity is read of the members of a type: each declaration yields
its part of it. -/
structure ReadOf (s : Site) (t : TypeDecl) (e : Entity)
    (parts : List Members) : Prop where
  yields : List.Forall₂ s.Yields t.members parts
  methods : e.methods = parts.flatMap Members.methods
  constructors : e.constructors = parts.flatMap Members.constructors
  transientFields : e.transientFields = parts.flatMap Members.transientFields

/-- The entity of a source file is that of one of its top-level types. -/
theorem ofType_of_ofUnit? {unit : CompilationUnit} {source path : Text}
    {siblings : List Text} {reader : ReaderSettings} {settings : AnnotationSettings}
    {e : Entity}
    (h : ofUnit? unit source path siblings reader settings = .ok (some e)) :
    ∃ t ∈ unit.types, ∃ mark,
      ofType (siteOf unit source path siblings settings t) unit.packageName t mark
        reader = .ok e := by
  rw [ofUnit?] at h
  generalize unit.types = types at h ⊢
  -- types that are no entities are passed over
  induction types with
  | nil => cases h
  | cons t rest ih =>
    rw [ofTypes?] at h
    obtain ⟨mark?, -, h⟩ := ok_of_bind h
    cases mark? with
    | some mark =>
      obtain ⟨e', hread, heq⟩ := ok_of_map h
      cases heq
      exact ⟨t, List.mem_cons_self, mark, hread⟩
    | none =>
      obtain ⟨t', ht', hparts⟩ := ih h
      exact ⟨t', List.mem_cons_of_mem _ ht', hparts⟩

end Graft.Entity
