import Graft.Command.Run
import Graft.Proofs.Schema.Order

/-!
# Reading and reporting on source files

Two commands read source files and settle the schemas of their entities: one
gives up at the first error, the other goes on with the files that it can read.
Both are determined by which files can be read, by the entities in these
(`entitiesIn`), and by which of their schemas are accepted
(`readSchemas_eq_ok_iff`, `failed_reportOn`); so neither depends on the order of
the files, and the one succeeds where the other finds nothing wrong.
-/

namespace Graft.Command

open Schema

/-- A schema with what a run leaves of its entities. -/
def settled (s : Schema) : Schema := { s with entities := (process s.entities).result }

theorem settleSchema_eq_ok_iff (s s' : Schema) :
    settleSchema s = .ok s' ↔ (process s.entities).error? = none ∧ settled s = s' := by
  rw [settleSchema, settled]
  cases h : (process s.entities).error? with
  | none => simp
  | some error => simp

namespace Place

/-- The entities in those files that can be read, in the order of the files. -/
def entitiesIn (p : Place) (settings : Settings) (files : List Text) : List Entity :=
  files.filterMap fun f => (p.readEntity settings f).toOption.join

section

variable {p : Place} {settings : Settings} {files files' : List Text}

/-- Reading succeeds when every file can be read and every schema of their
entities is accepted. -/
theorem readSchemas_eq_ok_iff {ss : List Schema} :
    p.readSchemas settings files = .ok ss ↔
    (∀ f ∈ files, (p.readEntity settings f).isOk = true) ∧
    (∀ s ∈ group (p.entitiesIn settings files), (process s.entities).error? = none) ∧
    (group (p.entitiesIn settings files)).map settled = ss := by
  have hread (f : Text) (e : Option Entity) : p.readEntity settings f = .ok e ↔
      (p.readEntity settings f).isOk = true ∧
      (p.readEntity settings f).toOption.join = e := by
    cases p.readEntity settings f <;> simp [Except.isOk, Except.toBool, Except.toOption]
  have hentities (es : List (Option Entity))
      (h : files.map (fun f => (p.readEntity settings f).toOption.join) = es) :
      es.filterMap id = p.entitiesIn settings files := by
    rw [← h, List.filterMap_map]
    rfl
  rw [readSchemas, bind_eq_ok_iff]
  simp only [mapM_eq_ok_iff_map hread, mapM_eq_ok_iff_map settleSchema_eq_ok_iff]
  constructor
  · rintro ⟨es, ⟨hfiles, hes⟩, h⟩
    rw [hentities es hes] at h
    exact ⟨hfiles, h⟩
  · rintro ⟨hfiles, h⟩
    refine ⟨_, ⟨hfiles, rfl⟩, ?_⟩
    rw [hentities _ rfl]
    exact h

theorem readSchemas_succeeds_iff : (∃ ss, p.readSchemas settings files = .ok ss) ↔
    (∀ f ∈ files, (p.readEntity settings f).isOk = true) ∧
    ∀ s ∈ group (p.entitiesIn settings files), (process s.entities).error? = none := by
  simp only [readSchemas_eq_ok_iff]
  exact ⟨fun ⟨_, hfiles, hschemas, _⟩ => ⟨hfiles, hschemas⟩,
    fun ⟨hfiles, hschemas⟩ => ⟨_, hfiles, hschemas, rfl⟩⟩

/-! ## The order of the files -/

theorem entitiesIn_perm (h : files.Perm files') :
    (p.entitiesIn settings files).Perm (p.entitiesIn settings files') := h.filterMap _

theorem readSchemas_succeeds_perm (h : files.Perm files')
    (distinct : HasDistinctNames (p.entitiesIn settings files)) :
    (∃ ss, p.readSchemas settings files = .ok ss) ↔
      ∃ ss, p.readSchemas settings files' = .ok ss := by
  have hschemas :=
    (group_accepts_perm (entitiesIn_perm h) distinct).imp fun _ _ hs => hs.2.2
  rw [readSchemas_succeeds_iff, readSchemas_succeeds_iff,
    forall_mem_iff_of_forall₂ hschemas]
  simp only [h.mem_iff]

end

/-- **The order of the files does not matter.** Where entities of one schema
have different names, reading some files succeeds exactly when reading them in
another order does; both give the same schemas, sorted by name, each with the
same entities in the order of the files. For, grouping entities loses none and
holds none twice, and keeps their order in each schema. -/
theorem readSchemas_in_any_order (p : Place) (settings : Settings)
    {files files' : List Text} (order : files.Perm files')
    (distinct : HasDistinctNames (p.entitiesIn settings files)) :
    ((∃ ss, p.readSchemas settings files = .ok ss) ↔
      ∃ ss', p.readSchemas settings files' = .ok ss') ∧
    (∀ ss ss', p.readSchemas settings files = .ok ss →
      p.readSchemas settings files' = .ok ss' →
      IsSorted ss ∧ List.Forall₂
        (fun s s' => s.name = s'.name ∧ s.entities.Perm s'.entities) ss ss') ∧
    ∀ es : List Entity,
      ((group es).flatMap Schema.entities).Perm es ∧ IsSorted (group es) ∧
      ∀ s ∈ group es, s.entities = es.filter (·.schemaName == s.name) := by
  refine ⟨readSchemas_succeeds_perm order distinct, ?_, ?_⟩
  · intro ss ss' hread hread'
    obtain ⟨-, accepted, rfl⟩ := readSchemas_eq_ok_iff.mp hread
    obtain ⟨-, -, rfl⟩ := readSchemas_eq_ok_iff.mp hread'
    refine ⟨List.pairwise_map.mpr (grouped_group _).sorted, ?_⟩
    rw [List.forall₂_map_left_iff, List.forall₂_map_right_iff]
    have hschemas := group_accepts_perm (entitiesIn_perm order) distinct
    refine ((List.forall₂_and_left _ _).mpr ⟨accepted, hschemas⟩).imp ?_
    rintro s s' ⟨hs, hname, hperm, hiff⟩
    exact ⟨hname, process_result_perm hperm hs (hiff.mp hs)⟩
  · intro es
    have hgrouped := grouped_group es
    exact ⟨group_flatMap es, hgrouped.sorted, hgrouped.entities⟩

namespace OrderSample

/-- A place with two entities that refer to each other, and one of
another schema. -/
def place : Place where
  environment := []
  disk :=
    { root := .folder
        [("A.java", .file (some "@m.Entity class A \x7b @m.Relation B b; \x7d")),
         ("B.java", .file (some "@m.Entity class B \x7b @m.Relation A a; \x7d")),
         ("C.java", .file (some "@m.Entity(schema = \"s\") class C \x7b\x7d"))] }

/-- Settings in which the marks are short. -/
def settings : Settings := { annotations := { package := "m" } }

/-- The names of the files. -/
def files : List Text := ["A.java", "B.java", "C.java"]

end OrderSample

/-- In the sample, all files are read in both orders, and give two schemas. -/
theorem readSchemas_in_any_order_sample :
    ∃ ss ss', OrderSample.place.readSchemas OrderSample.settings
      OrderSample.files = .ok ss ∧
      OrderSample.place.readSchemas OrderSample.settings
        OrderSample.files.reverse = .ok ss' ∧
      ss.map (fun s => s.entities.length) = [2, 1] ∧ IsSorted ss ∧
      List.Forall₂
        (fun s s' => s.name = s'.name ∧ s.entities.Perm s'.entities) ss ss' := by
  obtain ⟨hlengths, hdistinct⟩ :
      ((OrderSample.place.readSchemas OrderSample.settings
        OrderSample.files).toOption.map
        fun ss => ss.map fun s => s.entities.length) = some [2, 1] ∧
      HasDistinctNames
        (OrderSample.place.entitiesIn OrderSample.settings OrderSample.files) := by
    decide +kernel
  obtain ⟨ss, hss, hlengths⟩ := Option.map_eq_some_iff.mp hlengths
  have hread := eq_ok_of_toOption hss
  have hsample := readSchemas_in_any_order OrderSample.place OrderSample.settings
    (List.reverse_perm OrderSample.files).symm hdistinct
  obtain ⟨ss', hread'⟩ := hsample.1.mp ⟨ss, hread⟩
  exact ⟨ss, ss', hread, hread', hlengths, hsample.2.1 ss ss' hread hread'⟩

/-! ## Reports -/

section

variable {p : Place} {settings : Settings} {files : List Text}

theorem files_reportOn : List.Forall₂ (fun f r => r.path = f ∧
    (r.error.isSome = true ↔ ∃ e, p.readEntity settings f = .error e)) files
      (p.reportOn settings files).files := by
  rw [reportOn, CheckReport.ofFiles, List.map_map, List.forall₂_map_right_iff]
  refine List.forall₂_same.mpr fun f _ => ?_
  dsimp only [Function.comp_apply]
  cases p.readEntity settings f with
  | error e => simp
  | ok e => simp

theorem schemas_reportOn : (p.reportOn settings files).schemas =
    (group (p.entitiesIn settings files)).map SchemaReport.ofSchema := by
  rw [reportOn, CheckReport.ofFiles, List.filterMap_map]
  rfl

theorem failed_reportOn : (p.reportOn settings files).failed =
    files.countP (fun f => !(p.readEntity settings f).isOk) +
      (group (p.entitiesIn settings files)).countP fun s =>
        (process s.entities).error?.isSome := by
  rw [CheckReport.failed, ← List.countP_eq_length_filter,
    ← List.countP_eq_length_filter, schemas_reportOn, List.countP_map]
  congr 1
  · rw [reportOn, CheckReport.ofFiles, List.map_map, List.countP_map]
    refine List.countP_congr fun f _ => ?_
    dsimp only [Function.comp_apply]
    cases p.readEntity settings f with
    | error e => simp [Except.isOk, Except.toBool]
    | ok e => simp [Except.isOk, Except.toBool]
  · refine List.countP_congr fun s _ => ?_
    rw [Function.comp_apply, SchemaReport.ofSchema, Option.isSome_map]

end

/-- **The two ways of reading files agree.** A report finds nothing wrong
exactly when reading the files succeeds, and then it names the same schemas,
in the same order and with as many entities each. In any case it has one entry
for each file, in their order, with an error where the file cannot be read;
what it finds wrong are these files and, of the schemas of the others, those
that a run refuses. -/
theorem reportOn_agrees (p : Place) (settings : Settings) (files : List Text) :
    ((p.reportOn settings files).failed = 0 ↔
      ∃ ss, p.readSchemas settings files = .ok ss) ∧
    (∀ ss, p.readSchemas settings files = .ok ss →
      (p.reportOn settings files).schemas.map (fun r => (r.name, r.entities)) =
        ss.map fun s => (s.name, s.entities.length)) ∧
    List.Forall₂ (fun f r => r.path = f ∧
      (r.error.isSome = true ↔ ∃ e, p.readEntity settings f = .error e)) files
        (p.reportOn settings files).files ∧
    (p.reportOn settings files).failed =
      files.countP (fun f => !(p.readEntity settings f).isOk) +
        (group (p.entitiesIn settings files)).countP
          fun s => (process s.entities).error?.isSome := by
  refine ⟨?_, ?_, files_reportOn, failed_reportOn⟩
  · rw [failed_reportOn, readSchemas_succeeds_iff, Nat.add_eq_zero_iff,
      List.countP_eq_zero, List.countP_eq_zero]
    simp
  · intro ss hread
    obtain ⟨-, -, rfl⟩ := readSchemas_eq_ok_iff.mp hread
    rw [schemas_reportOn, List.map_map, List.map_map]
    rfl

/-- In the sample, nothing is wrong, and the schemas are those that reading
the files gives. -/
theorem reportOn_agrees_sample :
    (OrderSample.place.reportOn OrderSample.settings OrderSample.files).failed = 0 ∧
    ∃ ss, OrderSample.place.readSchemas OrderSample.settings
      OrderSample.files = .ok ss ∧
      (OrderSample.place.reportOn OrderSample.settings OrderSample.files).schemas.map
        (fun r => (r.name, r.entities)) = ss.map fun s =>
          (s.name, s.entities.length) := by
  have hnothing :
      (OrderSample.place.reportOn OrderSample.settings OrderSample.files).failed =
        0 := by
    decide +kernel
  have hsample :=
    reportOn_agrees OrderSample.place OrderSample.settings OrderSample.files
  obtain ⟨ss, hread⟩ := hsample.1.mp hnothing
  exact ⟨hnothing, ss, hread, hsample.2.1 ss hread⟩

end Place

end Graft.Command
