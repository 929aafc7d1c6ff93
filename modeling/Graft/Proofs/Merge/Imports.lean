import Graft.Proofs.Merge.Changes
import Graft.Proofs.Merge.Outcome
import Graft.Proofs.Text.Cutting
import Mathlib.Data.List.Nodup

/-!
# Which imports are added

A class is imported when it is asked for and cannot be used otherwise
(`IsMissing`), and once only. Coverage goes by qualified names: two classes of
one simple name are two imports, whether both are added or one of them is there
already. So qualified names stay pairwise different, and simple names exactly as
long as no added class shares its simple name with another imported class.
-/

namespace Graft

namespace Merge

open Java Entity Code

/-! ## What is missing -/

/-- The classes that imports name one by one. -/
def singleTypeImports (imports : List Import) : List Text :=
  (imports.filter fun i => !i.isStatic && !i.isWildcard).map Import.path

/-- The packages of which imports name all classes. -/
def wholePackageImports (imports : List Import) : List Text :=
  (imports.filter fun i => !i.isStatic && i.isWildcard).map Import.path

/-- A class of a package that cannot be used without a further import. -/
structure IsMissing (unit : CompilationUnit) (package qualified : Text) : Prop where
  inPackage : ∃ name, '.' ∉ name ∧ qualified = package ++ '.' :: name
  notLang : package ≠ "java.lang".toList
  notOwn : package ≠ unit.packageName
  notByPackage : package ∉ wholePackageImports unit.imports
  notByName : qualified ∉ singleTypeImports unit.imports

theorem any_covers_eq_false_iff {imports : List Import} {package qualified : Text} :
    imports.any (Session.covers package qualified) = false ↔
      package ∉ wholePackageImports imports ∧
      qualified ∉ singleTypeImports imports := by
  have hone (i : Import) : Session.covers package qualified i = true ↔
      (i.isStatic = false ∧ i.isWildcard = true ∧ i.path = package) ∨
        (i.isStatic = false ∧ i.isWildcard = false ∧ i.path = qualified) := by
    cases hstatic : i.isStatic <;> cases hwild : i.isWildcard <;>
      simp [Session.covers, hstatic, hwild]
  rw [← Bool.not_eq_true, List.any_eq_true]
  simp only [hone, wholePackageImports, singleTypeImports, List.mem_map,
    List.mem_filter, Bool.and_eq_true, Bool.not_eq_true', and_assoc, ← not_or,
    ← exists_or, ← and_or_left]

/-- An import is needed for a class exactly if the class is missing. -/
theorem Session.needsImport_iff {s : Session} {qualified : Text} :
    s.needsImport qualified = true ↔ ∃ package, IsMissing s.unit package qualified := by
  have hmissing (package name : Text)
      (hcut : Text.cutAtLast? '.' qualified = some (package, name)) :
      (!(package == "java.lang".toList || package == s.unit.packageName ||
        s.unit.imports.any (covers package qualified))) = true ↔
        IsMissing s.unit package qualified := by
    rw [Bool.not_eq_true', Bool.or_eq_false_iff, Bool.or_eq_false_iff,
      beq_eq_false_iff_ne, beq_eq_false_iff_ne, any_covers_eq_false_iff]
    constructor
    · rintro ⟨⟨hlang, hown⟩, hpackage, hname⟩
      exact ⟨⟨name, Text.cutAtLast?_eq_some_iff.mp hcut⟩, hlang, hown, hpackage, hname⟩
    · intro h
      exact ⟨⟨h.notLang, h.notOwn⟩, h.notByPackage, h.notByName⟩
  rw [needsImport]
  -- a name has at most one package in front of its last dot
  cases hcut : Text.cutAtLast? '.' qualified with
  | none =>
    refine ⟨Bool.noConfusion, ?_⟩
    rintro ⟨package, h⟩
    obtain ⟨name, hname⟩ := h.inPackage
    rw [Text.cutAtLast?_eq_some_iff.mpr hname] at hcut
    cases hcut
  | some parts =>
    obtain ⟨package, name⟩ := parts
    refine ⟨fun h => ⟨package, (hmissing package name hcut).mp h⟩, ?_⟩
    rintro ⟨other, h⟩
    obtain ⟨name', hname'⟩ := h.inPackage
    have heq := Text.cutAtLast?_eq_some_iff.mpr hname'
    rw [hcut, Option.some.injEq, Prod.mk.injEq] at heq
    exact (hmissing package name hcut).mpr (heq.1 ▸ h)

/-! ## One request and all of them -/

namespace Session

/-- A request adds the class behind all others, or it changes nothing and the
class can be used. -/
theorem ensureImport_cases {s : Session} (free : s.isKept = false) (qualified : Text) :
    (s.ensureImport qualified = ({ s with imports := s.imports ++ [qualified] }, true) ∧
      s.needsImport qualified = true ∧ qualified ∉ s.imports) ∨
    (s.ensureImport qualified = (s, false) ∧
      (s.needsImport qualified = false ∨ qualified ∈ s.imports)) := by
  rw [ensureImport, if_neg (by simp [free]), needsImport]
  cases Text.cutAtLast? '.' qualified with
  | none => exact .inr ⟨rfl, .inl rfl⟩
  | some parts =>
    obtain ⟨package, name⟩ := parts
    dsimp only
    have himported : s.isImported package qualified = true ↔
        (package == "java.lang".toList || package == s.unit.packageName ||
          s.unit.imports.any (covers package qualified)) = true ∨
          qualified ∈ s.imports := by
      rw [isImported, Bool.or_eq_true, List.contains_iff_mem]
    by_cases h : s.isImported package qualified = true
    · rw [if_pos h]
      refine .inr ⟨rfl, (himported.mp h).imp_left fun hcovered => ?_⟩
      rw [hcovered]
      rfl
    · rw [if_neg h]
      rw [himported, not_or, Bool.not_eq_true] at h
      exact .inl ⟨rfl, by rw [h.1]; rfl, h.2⟩

/-- Candidates add no imports. -/
theorem imports_perform_define (s : Session) (signature : Signature) (code : Text) :
    (s.perform (.define signature code)).imports = s.imports := by
  rw [show Call.define signature code =
    Candidate.call ⟨signature, code⟩ from rfl, perform_eq]
  cases s.changeFor ⟨signature, code⟩ <;> rfl

/-- No call adds an import that was added before. -/
theorem nodup_imports_perform {s : Session} (h : s.imports.Nodup) (call : Call) :
    (s.perform call).imports.Nodup := by
  cases call with
  | define signature code =>
    rw [imports_perform_define]
    exact h
  | importOf qualified =>
    rw [perform]
    cases kept : s.isKept with
    | true =>
      rw [ensureImport, if_pos kept]
      exact h
    | false =>
      rcases ensureImport_cases kept qualified with ⟨heq, -, hnew⟩ | ⟨heq, -⟩
      · rw [heq, ← List.concat_eq_append, List.nodup_concat]
        exact ⟨hnew, h⟩
      · rw [heq]
        exact h

theorem nodup_imports_run {s : Session} (h : s.imports.Nodup) (calls : List Call) :
    (s.run calls).imports.Nodup := by
  induction calls generalizing s with
  | nil => exact h
  | cons call rest ih => exact ih (nodup_imports_perform h call)

/-- The imports that calls add are those they ask for and need. -/
theorem mem_imports_run_iff {s₀ : Session} (fresh : s₀.IsFresh)
    (calls : List Call) {q : Text} :
    q ∈ (s₀.run calls).imports ↔
      s₀.isKept = false ∧ .importOf q ∈ calls ∧
      ∃ package, IsMissing s₀.unit package q := by
  rw [← needsImport_iff]
  cases kept : s₀.isKept with
  | true => simp [run_eq_of_isKept kept, fresh.imports]
  | false => simp [(reached_run fresh kept calls).imports q]

end Session

/-! ## Names of imports -/

/-- Of different texts with different images, no two have the same image. -/
theorem nodup_map_append_iff {f : Text → Text} {old added : List Text}
    (hold : (old.map f).Nodup) (hadded : added.Nodup) (hnew : ∀ q ∈ added, q ∉ old) :
    ((old ++ added).map f).Nodup ↔
      ∀ q ∈ added, ∀ p ∈ old ++ added, f p = f q → p = q := by
  have hall : (old ++ added).Nodup :=
    List.nodup_append'.mpr ⟨hold.of_map f, hadded, fun q hq hq' => hnew q hq' hq⟩
  rw [List.nodup_map_iff_inj_on hall]
  constructor
  · exact fun h q hq p hp => h p hp q (List.mem_append_right old hq)
  · intro h p hp q hq heq
    rcases List.mem_append.mp hq with hq | hq
    · rcases List.mem_append.mp hp with hp | hp
      · exact List.inj_on_of_nodup_map hold hp hq heq
      · exact (h p hp q (List.mem_append_left added hq) heq.symm).symm
    · exact h q hq p hp heq

/-- **Imports are added only where a class cannot be used without.** Whatever is
asked of a session, the imports it adds are those of the classes that were asked
for and that neither `java.lang`, nor the package of the file, nor an import of
it makes usable, each once. With the imports of single classes that were there
already they name pairwise different classes. Their simple names are pairwise
different exactly if no added class shares its simple name with another class
that is imported by name. All added imports are written. -/
theorem added_imports_are_missing (source typeName : Text) (unit : CompilationUnit)
    (t : TypeDecl) (depth : Nat) (style : Style) (path : Option Text)
    (calls : List Call) :
    let s₀ := Session.ofType source typeName unit t depth style path
    let s := s₀.run calls
    let old := singleTypeImports unit.imports
    (∀ q, q ∈ s.imports ↔
      s₀.isKept = false ∧ .importOf q ∈ calls ∧ ∃ package, IsMissing unit package q) ∧
    s.imports.Nodup ∧
    (old.Nodup → (old ++ s.imports).Nodup) ∧
    ((old.map Text.lastSegment).Nodup →
      (((old ++ s.imports).map Text.lastSegment).Nodup ↔
        ∀ q ∈ s.imports, ∀ p ∈ old ++ s.imports,
        Text.lastSegment p = Text.lastSegment q → p = q)) ∧
    ∀ out, s.write = .ok (some out) → s.imports ≠ [] →
      importBlock s.imports <:+: out := by
  intro s₀ s old
  have fresh : s₀.IsFresh :=
    Session.isFresh_ofType source typeName unit t depth style path
  have mem (q : Text) := Session.mem_imports_run_iff fresh calls (q := q)
  have apart : s.imports.Nodup := Session.nodup_imports_run (fresh.imports ▸ .nil) calls
  have new : ∀ q ∈ s.imports, q ∉ old := fun q hq => by
    obtain ⟨-, -, package, missing⟩ := (mem q).mp hq
    exact missing.notByName
  refine ⟨mem, apart, fun hold => ?_,
    fun hold => nodup_map_append_iff hold apart new, ?_⟩
  · exact List.nodup_append'.mpr ⟨hold, apart, fun q hq hq' => new q hq' hq⟩
  · intro out written hne
    -- behind the last import, behind the package, or at the front of the file
    obtain ⟨e, he, hblock⟩ : ∃ e ∈ importEdits s.unit s.imports,
        importBlock s.imports <:+: e.text := by
      rw [importEdits, if_neg (by simpa using hne)]
      split
      · exact ⟨_, List.mem_singleton_self _, (List.suffix_cons _ _).isInfix⟩
      · split
        · exact ⟨_, List.mem_singleton_self _, (List.suffix_append _ _).isInfix⟩
        · exact ⟨_, List.mem_singleton_self _, (List.prefix_append _ _).isInfix⟩
    refine hblock.trans (Session.text_isInfix_of_written written ?_)
    rw [Session.edits]
    exact List.mem_append_left _ (List.mem_append_left _ (List.mem_append_left _ he))

namespace ImportSample

/-- A class in a package, with imports of a class and of a package. -/
def source : Text :=
  "package p;\n\nimport java.io.File;\nimport java.util.*;\n\nclass A \x7b\x7d\n"

/-- The source as it is read. -/
def unit : CompilationUnit := CompilationUnit.read source

/-- Requests for classes that can be used, and twice for one that cannot. -/
def calls : List Call :=
  ["java.util.List", "java.lang.String", "p.B", "java.awt.Color", "java.io.File",
    "java.awt.Color"].map fun q : String => .importOf q.toList

/-- The class with the missing import. -/
def outcome : Text :=
  "package p;\n\nimport java.io.File;\nimport java.util.*;\nimport java.awt.Color;\n\nclass A \x7b\x7d\n"

end ImportSample

/-- In the sample, one class is missing and one import is written. -/
theorem added_imports_are_missing_sample :
    let s₀ := Session.ofType ImportSample.source "A" ImportSample.unit
      ImportSample.unit.types.head! 1 {}
    let s := s₀.run ImportSample.calls
    s.imports = ["java.awt.Color".toList] ∧ s.write = .ok (some ImportSample.outcome) ∧
    (∃ package, IsMissing ImportSample.unit package "java.awt.Color") ∧
    ((singleTypeImports ImportSample.unit.imports ++ s.imports).map
      Text.lastSegment).Nodup ∧
    importBlock s.imports <:+: ImportSample.outcome := by
  intro s₀ s
  obtain ⟨mem, -, -, names, written⟩ :=
    added_imports_are_missing ImportSample.source "A"
      ImportSample.unit ImportSample.unit.types.head! 1 {} none ImportSample.calls
  have imports : s.imports = ["java.awt.Color".toList] := by decide +kernel
  have outcome : s.write = .ok (some ImportSample.outcome) := by decide +kernel
  refine ⟨imports, outcome, ?_, ?_, ?_⟩
  · exact ((mem _).mp (imports ▸ List.mem_singleton_self _)).2.2
  · refine (names (by decide +kernel)).mpr ?_
    rw [imports]
    decide +kernel
  · exact written _ outcome (by rw [imports]; decide)

namespace ImportClash

/-- A class with an import. -/
def source : Text := "import java.util.List;\nclass A \x7b\x7d\n"

/-- The source as it is read. -/
def unit : CompilationUnit := CompilationUnit.read source

/-- The class with an import of another class of the same simple name. -/
def outcome : Text :=
  "import java.util.List;\nimport java.awt.List;\nclass A \x7b\x7d\n"

end ImportClash

/-- Nothing keeps simple names apart: a class is imported next to another one of
its simple name. -/
theorem imports_of_one_simple_name :
    let s := (Session.ofType ImportClash.source "A" ImportClash.unit
      ImportClash.unit.types.head! 1 {}).run [.importOf "java.awt.List"]
    ((singleTypeImports ImportClash.unit.imports).map Text.lastSegment).Nodup ∧
    s.write = .ok (some ImportClash.outcome) ∧
    ¬ ((singleTypeImports (CompilationUnit.read ImportClash.outcome).imports).map
      Text.lastSegment).Nodup := by
  decide +kernel

end Merge

end Graft
