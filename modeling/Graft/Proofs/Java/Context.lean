import Graft.Java.Scope
import Graft.Proofs.Text.Order
import Mathlib.Data.List.Dedup

/-!
# Scopes whose context is listed in another order

A scope is given by lists: imports, nested types, siblings. Names are resolved
by what is on these lists, not by where it stands: static imports and
repetitions do not count, and where no two classes of one simple name are
imported, scopes with the same context resolve every text to the same type, or
fail with the same error (`resolution_ignores_order`).
-/

namespace Graft.Java.Scope

/-- A class, or with `isWildcard` all classes of a package, is imported for
its simple name. -/
def Imports (s : Scope) (path : Text) (isWildcard : Bool) : Prop :=
  ∃ i ∈ s.imports, i.isStatic = false ∧ i.isWildcard = isWildcard ∧ i.path = path

/-- Two scopes have the same context, each listed in an order of its own. -/
structure SameContext (s s' : Scope) : Prop where
  package : s.package = s'.package
  enclosing : s.enclosing = s'.enclosing
  imports : ∀ path isWildcard, s.Imports path isWildcard ↔ s'.Imports path isWildcard
  nested : ∀ name, name ∈ s.nested ↔ name ∈ s'.nested
  siblings : ∀ name, name ∈ s.siblings ↔ name ∈ s'.siblings

/-- No two different classes of one simple name are imported one by one. -/
def ImportsApart (s : Scope) : Prop :=
  ∀ path path', s.Imports path false → s.Imports path' false →
    Text.lastSegment path = Text.lastSegment path' → path = path'

section

variable {s s' : Scope}

/-- Lists that are permutations of each other make the same context, whatever
static imports and repetitions are among the imports. -/
theorem SameContext.of_perm {package : Text} {enclosing : Option Text}
    {imports imports' : List Import} {nested nested' siblings siblings' : List Text}
    (himports : ((imports.filter (!·.isStatic)).dedup).Perm
      ((imports'.filter (!·.isStatic)).dedup))
    (hnested : nested.Perm nested') (hsiblings : siblings.Perm siblings') :
    SameContext { package, imports, enclosing, nested, siblings }
      { package, imports := imports', enclosing, nested := nested',
        siblings := siblings' } where
  package := rfl
  enclosing := rfl
  imports path isWildcard := by
    have hmem (i : Import) : i ∈ imports ∧ i.isStatic = false ↔
        i ∈ imports' ∧ i.isStatic = false := by
      simpa [and_comm] using himports.mem_iff (a := i)
    constructor
    · rintro ⟨i, hi, hstatic, hrest⟩
      obtain ⟨hi', -⟩ := (hmem i).mp ⟨hi, hstatic⟩
      exact ⟨i, hi', hstatic, hrest⟩
    · rintro ⟨i, hi, hstatic, hrest⟩
      obtain ⟨hi', -⟩ := (hmem i).mpr ⟨hi, hstatic⟩
      exact ⟨i, hi', hstatic, hrest⟩
  nested _ := hnested.mem_iff
  siblings _ := hsiblings.mem_iff

theorem mem_singleImports_iff {path : Text} :
    path ∈ s.singleImports ↔ s.Imports path false := by
  simp only [singleImports, Imports, List.mem_map, List.mem_filter, Bool.and_eq_true,
    Bool.not_eq_true']
  constructor
  · rintro ⟨i, ⟨hi, hstatic, hwildcard⟩, rfl⟩
    exact ⟨i, hi, hstatic, hwildcard, rfl⟩
  · rintro ⟨i, hi, hstatic, hwildcard, rfl⟩
    exact ⟨i, ⟨hi, hstatic, hwildcard⟩, rfl⟩

theorem mem_wildcardImports_iff {package : Text} :
    package ∈ (s.imports.filter fun i => !i.isStatic && i.isWildcard).map Import.path ↔
      s.Imports package true := by
  simp only [Imports, List.mem_map, List.mem_filter, Bool.and_eq_true,
    Bool.not_eq_true', and_assoc]

/-- Where imported classes can be told by their simple names, looking one up
finds it at any place. -/
theorem find?_singleImports_eq_some_iff (apart : s.ImportsApart) {name path : Text} :
    s.singleImports.find? (Text.lastSegment · == name) = some path ↔
      s.Imports path false ∧ Text.lastSegment path = name := by
  constructor
  · intro h
    have hname := List.find?_some h
    exact ⟨mem_singleImports_iff.mp (List.mem_of_find?_eq_some h), by simpa using hname⟩
  · rintro ⟨himported, rfl⟩
    obtain ⟨path', hfind⟩ : ∃ path', s.singleImports.find?
        (Text.lastSegment · == Text.lastSegment path) = some path' := by
      rw [← Option.isSome_iff_exists, List.find?_isSome]
      exact ⟨path, mem_singleImports_iff.mpr himported, by simp⟩
    have hname := List.find?_some hfind
    have himported' := mem_singleImports_iff.mp (List.mem_of_find?_eq_some hfind)
    rw [hfind, apart path' path himported' himported (by simpa using hname)]

namespace SameContext

variable (same : s.SameContext s')

include same

theorem qualify (name : Text) : s.qualify name = s'.qualify name := by
  rw [Scope.qualify, Scope.qualify, same.package]

/-- The packages of wildcard imports are sorted, so they come in one order. -/
theorem wildcardPackages : s.wildcardPackages = s'.wildcardPackages := by
  apply Text.sortDistinct_congr
  intro package
  rw [mem_wildcardImports_iff, mem_wildcardImports_iff, same.imports]

theorem resolveByWildcard (name : Text) :
    s.resolveByWildcard name = s'.resolveByWildcard name := by
  rw [Scope.resolveByWildcard, Scope.resolveByWildcard,
    same.wildcardPackages, same.qualify]

theorem resolveInside? (name : Text) :
    s.resolveInside? name = s'.resolveInside? name := by
  have hnested : s.nested.contains name = s'.nested.contains name := by
    rw [Bool.eq_iff_iff, List.contains_iff_mem, List.contains_iff_mem, same.nested]
  unfold Scope.resolveInside?
  simp only [same.enclosing, same.qualify, hnested]

variable (apart : s.ImportsApart)

include apart

theorem find?_singleImports (name : Text) :
    s.singleImports.find? (Text.lastSegment · == name) =
      s'.singleImports.find? (Text.lastSegment · == name) := by
  have apart' : s'.ImportsApart := by
    intro path path' h h'
    exact apart path path' ((same.imports _ _).mpr h) ((same.imports _ _).mpr h')
  ext path
  rw [find?_singleImports_eq_some_iff apart,
    find?_singleImports_eq_some_iff apart', same.imports]

theorem resolveSimple (name : Text) : s.resolveSimple name = s'.resolveSimple name := by
  have hsiblings : s.siblings.contains name = s'.siblings.contains name := by
    rw [Bool.eq_iff_iff, List.contains_iff_mem, List.contains_iff_mem, same.siblings]
  unfold Scope.resolveSimple
  rw [same.find?_singleImports apart, same.resolveInside?, hsiblings, same.qualify,
    same.resolveByWildcard]

theorem resolveName (name : Text) : s.resolveName name = s'.resolveName name := by
  have hsimple := funext (same.resolveSimple apart)
  unfold Scope.resolveName resolveName.withRest
  rw [hsimple]

end SameContext

mutual

/-- A scope enters the reading of a type only where it resolves a name. -/
theorem resolveExpr_congr (h : ∀ name, s.resolveName name = s'.resolveName name) :
    (e : TypeExpr) → s.resolveExpr e = s'.resolveExpr e
  | .array element spelling => by rw [resolveExpr, resolveExpr,
      resolveExpr_congr h element]
  | .wildcard spelling => by rw [resolveExpr, resolveExpr]
  | .bounded word bound spelling => by rw [resolveExpr, resolveExpr,
      resolveExpr_congr h bound]
  | .named name arguments spelling => by
    rw [resolveExpr, resolveExpr, resolveExprs_congr h arguments, h]

theorem resolveExprs_congr (h : ∀ name, s.resolveName name = s'.resolveName name) :
    (es : List TypeExpr) → s.resolveExprs es = s'.resolveExprs es
  | [] => by rw [resolveExprs, resolveExprs]
  | e :: rest => by
    rw [resolveExprs, resolveExprs, resolveExpr_congr h e, resolveExprs_congr h rest]

end

/-- **The order of its context does not matter to a scope.** For every text, the
same names and types come out, with the same spelling and the same arguments, or
the same ambiguous name with the same candidates. -/
theorem resolution_ignores_order (same : s.SameContext s') (apart : s.ImportsApart) :
    (∀ text, s.resolve text = s'.resolve text) ∧
      ∀ name, s.resolveName name = s'.resolveName name := by
  have hnames := same.resolveName apart
  exact ⟨fun text => resolveExpr_congr hnames (.read text), hnames⟩

end

namespace ContextSample

/-- An import of a class, or with `isWildcard` of all classes of a package. -/
def importOf (path : String) (isWildcard : Bool) : Import :=
  ⟨path.toList, false, isWildcard, default⟩

/-- Two packages and a class are imported. -/
def imports : List Import :=
  [importOf "java.sql" true, importOf "com.acme" true, importOf "java.util.UUID" false]

/-- The same imports in another order, one of them twice, and a static
one among them. -/
def imports' : List Import :=
  [importOf "java.util.UUID" false, importOf "com.acme" true,
    { importOf "com.acme.Util.Timestamp" false with isStatic := true },
    importOf "java.sql" true, importOf "com.acme" true]

/-- A scope with the imports. -/
def scope : Scope :=
  { package := "p", imports, enclosing := some "Order",
    nested := ["Line", "Kind"].map String.toList
    siblings := ["Customer", "Item"].map String.toList }

/-- A scope with everything in another order. -/
def scope' : Scope :=
  { package := "p", imports := imports', enclosing := some "Order"
    nested := ["Kind", "Line"].map String.toList
    siblings := ["Item", "Customer"].map String.toList }

end ContextSample

open ContextSample in
/-- In the sample, a name that neither order can resolve is reported with the
same candidates. -/
theorem resolution_ignores_order_sample :
    scope.SameContext scope' ∧ scope.ImportsApart ∧
      scope.resolve "Map<UUID, Timestamp[]>" = scope'.resolve "Map<UUID, Timestamp[]>" ∧
      (scope'.resolve "Map<UUID, Timestamp[]>").map TypeRef.qualifiedName =
        .error ⟨"Timestamp", ["com.acme", "java.sql"].map String.toList⟩ := by
  have same : scope.SameContext scope' :=
    .of_perm (by decide +kernel) (by decide +kernel) (by decide +kernel)
  have apart : scope.ImportsApart := by
    intro path path' h h'
    rw [← mem_singleImports_iff] at h h'
    rw [List.mem_singleton.mp h, List.mem_singleton.mp h']
    intro _
    rfl
  exact ⟨same, apart, (resolution_ignores_order same apart).1 _, by decide +kernel⟩

end Graft.Java.Scope
