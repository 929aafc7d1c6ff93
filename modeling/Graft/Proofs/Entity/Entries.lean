import Graft.Proofs.Entity.Locality
import Graft.Proofs.Entity.Members
import Mathlib.Tactic.Choose

/-!
# The entries of an entity

An entity is the sum of what the declarations of its type enter into its lists,
in source order (`Members.IsSumOf`). A variable of a field enters itself into
exactly one list, or into none when it is a handle without the annotation of a
relation; every constructor, method and nested type enters itself (`Enters`).
What a declaration enters is a function of the declaration, its scope and the
settings, so a change of one member leaves the entries of all others as they are
(`entity_is_sum_of_entries`).
-/

namespace Graft.Entity

open Java

/-- What a declaration enters into one of the lists of an entity. -/
inductive Entry where
  | property (p : Property)
  | toOne (r : ToOne)
  | toMany (r : ToMany)
  | transientField (f : TransientField)
  | constructor (c : Constructor)
  | method (m : Method)
  | nestedType (t : NestedType)

namespace Entry

/-- The property entered. -/
def property? : Entry → Option Property
  | .property p => some p
  | _ => none

/-- The relation to one entity entered. -/
def toOne? : Entry → Option ToOne
  | .toOne r => some r
  | _ => none

/-- The relation to many entities entered. -/
def toMany? : Entry → Option ToMany
  | .toMany r => some r
  | _ => none

/-- The field that is not stored entered. -/
def transientField? : Entry → Option TransientField
  | .transientField f => some f
  | _ => none

/-- The constructor entered. -/
def constructor? : Entry → Option Constructor
  | .constructor c => some c
  | _ => none

/-- The method entered. -/
def method? : Entry → Option Method
  | .method m => some m
  | _ => none

/-- The nested type entered. -/
def nestedType? : Entry → Option NestedType
  | .nestedType t => some t
  | _ => none

end Entry

namespace Members

/-- The lists of members hold given entries, each in the list of its kind and
in their order. -/
structure IsSumOf (m : Members) (es : List Entry) : Prop where
  properties : m.properties = es.filterMap Entry.property?
  toOnes : m.toOnes = es.filterMap Entry.toOne?
  toManys : m.toManys = es.filterMap Entry.toMany?
  transientFields : m.transientFields = es.filterMap Entry.transientField?
  constructors : m.constructors = es.filterMap Entry.constructor?
  methods : m.methods = es.filterMap Entry.method?
  nestedTypes : m.nestedTypes = es.filterMap Entry.nestedType?

theorem IsSumOf.nil : IsSumOf {} [] := by constructor <;> rfl

theorem IsSumOf.append {a b : Members} {es fs : List Entry} (ha : a.IsSumOf es)
    (hb : b.IsSumOf fs) :
    (a ++ b).IsSumOf (es ++ fs) := by
  have happend : a ++ b = a.append b := rfl
  constructor <;>
    simp only [happend, Members.append, List.filterMap_append, ha.properties,
    hb.properties, ha.toOnes, hb.toOnes, ha.toManys, hb.toManys, ha.transientFields,
    hb.transientFields, ha.constructors, hb.constructors, ha.methods, hb.methods,
    ha.nestedTypes, hb.nestedTypes]

end Members

/-- Parts together hold the entries of each of them. -/
theorem isSumOf_sum {parts : List Contribution} {entries : List (List Entry)}
    (h : List.Forall₂ (fun part es => part.members.IsSumOf es) parts entries) :
    (Contribution.sum parts).members.IsSumOf entries.flatten := by
  have key : ∀ (total : Contribution) (es : List Entry), total.members.IsSumOf es →
      (parts.foldl Contribution.append total).members.IsSumOf
        (es ++ entries.flatten) := by
    induction h with
    | nil =>
      intro total es htotal
      simpa using htotal
    | cons hpart _ ih =>
      intro total es htotal
      rw [List.flatten_cons, ← List.append_assoc]
      exact ih _ _ (htotal.append hpart)
  exact key {} [] .nil

namespace Site

/-! ## What a declaration enters -/

/-- A field is not stored: it is static, transient or marked so. -/
def IsTransientField (s : Site) (f : FieldDecl) : Prop :=
  f.modifiers.isStatic = true ∨ f.modifiers.isTransient = true ∨
    s.IsMarked f.modifiers "Transient"

/-- What a variable of a stored field enters: a relation if it is marked as one,
to many entities if its type can hold them, and otherwise a property, unless it
is the handle of a relation to one entity. -/
inductive EntersStored (s : Site) (f : FieldDecl) (d : Declarator) : Option Entry → Prop
  | toMany {r : ToMany} (related : s.IsMarked f.modifiers "Relation")
      (type : s.scope.resolve (f.typeOf d) = .ok r.var.type)
      (many : s.isListLike r.var.type = true) (name : r.var.name = d.name)
      (source : r.source = some f.span) :
      EntersStored s f d (some (.toMany r))
  | toOne {r : ToOne} (related : s.IsMarked f.modifiers "Relation")
      (type : s.scope.resolve (f.typeOf d) = .ok r.var.type)
      (one : s.isListLike r.var.type = false) (name : r.var.name = d.name)
      (source : r.source = some f.span) :
      EntersStored s f d (some (.toOne r))
  | property {p : Property} (unrelated : ¬ s.IsMarked f.modifiers "Relation")
      (type : s.scope.resolve (f.typeOf d) = .ok p.var.type)
      (plain : s.isHandle p.var.type = false) (name : p.name = d.name)
      (source : p.source = some f.span) (declared : p.isDeclared = true) :
      EntersStored s f d (some (.property p))
  | handle {type : TypeRef} (unrelated : ¬ s.IsMarked f.modifiers "Relation")
      (resolves : s.scope.resolve (f.typeOf d) = .ok type)
      (handle : s.isHandle type = true) :
      EntersStored s f d none

/-- What a declaration enters, in source order. -/
inductive Enters (s : Site) : Declaration → List Entry → Prop
  | method {m : MethodDecl} {method : Method} (name : method.name = m.name)
      (source : method.source = some m.span)
      (owned : s.Owned m.modifiers method.provenance) :
      Enters s (.method m) [.method method]
  | constructor {c : ConstructorDecl} {constructor : Constructor}
      (source : constructor.source = some c.span)
      (owned : s.Owned c.modifiers constructor.provenance) :
      Enters s (.constructor c) [.constructor constructor]
  | nested {t : TypeDecl} :
      Enters s (.nested t) [.nestedType ⟨t.name, t.isEffectivelyStatic⟩]
  /-- Each variable of a field that is not stored. -/
  | transient {f : FieldDecl} {fields : List TransientField}
      (transient : s.IsTransientField f)
      (each : List.Forall₂ (fun d field => field.var.name = d.name ∧
        s.scope.resolve (f.typeOf d) = .ok field.var.type ∧ field.source = some f.span ∧
        s.Owned f.modifiers field.provenance) f.declarators fields) :
      Enters s (.field f) (fields.map .transientField)
  /-- Each variable of a field that is stored. -/
  | stored {f : FieldDecl} {entries : List (Option Entry)}
      (stored : ¬ s.IsTransientField f)
      (each : List.Forall₂ (s.EntersStored f) f.declarators entries) :
      Enters s (.field f) (entries.flatMap Option.toList)

/-- What a declaration enters can be told from its scope and the settings. -/
theorem Enters.alike {s s' : Site} (h : s.Alike s') {d : Declaration} {es : List Entry}
    (he : s.Enters d es) : s'.Enters d es := by
  obtain ⟨source, path, name, scope, settings⟩ := s
  obtain ⟨source', path', name', scope', settings'⟩ := s'
  obtain ⟨rfl, rfl⟩ : scope = scope' ∧ settings = settings' := ⟨h.scope, h.settings⟩
  -- who owns a member depends on the scope and the settings alone
  have howned {m : Modifiers} {p : Provenance}
      (ho : Owned ⟨source, path, name, scope, settings⟩ m p) :
      Owned ⟨source', path', name', scope, settings⟩ m p := by
    cases ho with
    | keep keeps => exact .keep keeps
    | generated free marked hash =>
      refine .generated ?_ ?_ hash
      · exact free
      · exact marked
    | unmarked free unmarked => exact .unmarked free unmarked
  cases he with
  | method name source owned => exact .method name source (howned owned)
  | constructor source owned => exact .constructor source (howned owned)
  | nested => exact .nested
  | transient transient each =>
    refine .transient transient (each.imp ?_)
    rintro d field ⟨hname, htype, hsource, ho⟩
    exact ⟨hname, htype, hsource, howned ho⟩
  | stored stored each =>
    refine .stored stored (each.imp ?_)
    intro d entry hentry
    cases hentry with
    | toMany related type many name source =>
      exact .toMany related type many name source
    | toOne related type one name source => exact .toOne related type one name source
    | property unrelated type plain name source declared =>
      exact .property unrelated type plain name source declared
    | handle unrelated resolves handle => exact .handle unrelated resolves handle

/-! ## Reading enters -/

section

variable {s : Site} {part : Contribution} {location : Location}

theorem find_of_readAt {α : Type} {m : Modifiers} {shape : Shape α} {found : Option α}
    (h : (s.marks m).readAt shape location = .ok found) :
    ∃ use, (s.marks m).find? (s.settings.qualified shape.name) = .ok use ∧
      use.isSome = found.isSome := by
  have hread := ok_of_mapError h
  unfold Marks.read? Marks.use? at hread
  split at hread
  · cases hread
  · next hfind =>
    cases hread
    exact ⟨none, hfind, rfl⟩
  · next use hfind =>
    obtain ⟨a, -, rfl⟩ := ok_of_map hread
    exact ⟨some use, hfind, rfl⟩

/-- A relation is read exactly where a declaration is marked as one. -/
theorem isMarked_relation_iff {m : Modifiers} {found : Option RelationMark}
    (h : (s.marks m).readAt Shape.relation location = .ok found) :
    s.IsMarked m "Relation" ↔ found.isSome = true := by
  have hname : '.' ∉ "Relation".toList := by decide
  obtain ⟨use, hfind, hsome⟩ := find_of_readAt h
  rw [← hsome]
  cases use with
  | none => exact ⟨fun hmarked =>
    absurd hmarked (not_isMarked_of_find hname hfind), nofun⟩
  | some u => exact ⟨fun _ => rfl, fun _ => isMarked_of_find hname hfind⟩

theorem isTransientField_iff {f : FieldDecl} {b : Bool}
    (h : s.isTransient f location = .ok b) :
    s.IsTransientField f ↔ b = true := by
  have hname : '.' ∉ "Transient".toList := by decide
  unfold isTransient at h
  unfold IsTransientField
  split at h
  · next hkeyword =>
    cases h
    rw [Bool.or_eq_true] at hkeyword
    simp only [← or_assoc, hkeyword, true_or]
  · next hkeyword =>
    rw [Bool.or_eq_true, not_or] at hkeyword
    obtain ⟨found, hfind, rfl⟩ := find_of_hasAt h
    simp only [hkeyword.1, hkeyword.2, Bool.false_eq_true, false_or]
    cases found with
    | none => exact ⟨fun hmarked =>
      absurd hmarked (not_isMarked_of_find hname hfind), nofun⟩
    | some u => exact ⟨fun _ => rfl, fun _ => isMarked_of_find hname hfind⟩

theorem variableOf_eq {type : TypeRef} {name : Text} {v : Variable}
    (h : s.variableOf type name = .ok v) : v = { type, name } := by
  unfold variableOf Variable.ofName? at h
  split at h
  · next hsome =>
    split at hsome
    · cases hsome
      cases h
      rfl
    · cases hsome
  · cases h

theorem readToMany_spec {f : FieldDecl} {d : Declarator} {type : TypeRef}
    {relation : RelationMark} {r : ToMany}
    (h : s.readToMany f d type relation location = .ok r) :
    r.var = { type, name := d.name } ∧ r.source = some f.span := by
  unfold readToMany at h
  obtain ⟨target, -, h⟩ := ok_of_bind h
  obtain ⟨join, -, h⟩ := ok_of_bind h
  obtain ⟨order, -, h⟩ := ok_of_bind h
  obtain ⟨v, hv, h⟩ := ok_of_bind h
  cases h
  exact ⟨variableOf_eq hv, rfl⟩

theorem readToOne_spec {f : FieldDecl} {d : Declarator} {type : TypeRef}
    {relation : RelationMark} {isNotNull : Bool} {r : ToOne}
    (h : s.readToOne f d type relation isNotNull location = .ok r) :
    r.var = { type, name := d.name } ∧ r.source = some f.span := by
  unfold readToOne at h
  dsimp only at h
  split at h <;>
    · obtain ⟨target, -, h⟩ := ok_of_bind h
      obtain ⟨v, hv, h⟩ := ok_of_bind h
      obtain ⟨column, -, h⟩ := ok_of_bind h
      obtain ⟨isUnique, -, h⟩ := ok_of_bind h
      cases h
      exact ⟨variableOf_eq hv, rfl⟩

theorem readProperty_spec {f : FieldDecl} {d : Declarator} {type : TypeRef}
    {isNotNull : Bool} {p : Property} {uses : List ClassUse}
    (h : s.readProperty f d type isNotNull location = .ok (p, uses)) :
    p.var = { type, name := d.name } ∧ p.source = some f.span ∧
    p.isDeclared = true := by
  unfold readProperty at h
  obtain ⟨convert, -, h⟩ := ok_of_bind h
  obtain ⟨id, -, h⟩ := ok_of_bind h
  obtain ⟨index, -, h⟩ := ok_of_bind h
  obtain ⟨v, hv, h⟩ := ok_of_bind h
  obtain ⟨column, -, h⟩ := ok_of_bind h
  obtain ⟨uid, -, h⟩ := ok_of_bind h
  obtain ⟨isUnique, -, h⟩ := ok_of_bind h
  cases h
  exact ⟨variableOf_eq hv, rfl, rfl⟩

/-- A variable of a stored field enters itself at most once. -/
theorem enters_of_readStored {f : FieldDecl} {d : Declarator}
    (h : s.readStored f d = .ok part) :
    ∃ entry, s.EntersStored f d entry ∧ part.members.IsSumOf entry.toList := by
  unfold readStored at h
  obtain ⟨type, htype, h⟩ := ok_of_bind h
  obtain ⟨spelling, -, h⟩ := ok_of_bind h
  obtain ⟨relation?, hrelation, h⟩ := ok_of_bind h
  have htype : s.scope.resolve (f.typeOf d) = .ok type := ok_of_mapError htype
  have hmarked := isMarked_relation_iff hrelation
  -- the annotation of a relation decides first, and then the type
  cases relation? with
  | some relation =>
    have hrelated := hmarked.mpr rfl
    dsimp only at h
    split at h
    · next hmany =>
      obtain ⟨r, hr, h⟩ := ok_of_bind h
      obtain ⟨hvar, hsource⟩ := readToMany_spec hr
      cases h
      refine ⟨some (.toMany r), ?_, by constructor <;> rfl⟩
      exact .toMany hrelated (by rw [hvar, htype]) (by rw [hvar, hmany])
        (by rw [hvar]) hsource
    · next hone =>
      obtain ⟨r, hr, h⟩ := ok_of_bind h
      obtain ⟨hvar, hsource⟩ := readToOne_spec hr
      cases h
      refine ⟨some (.toOne r), ?_, by constructor <;> rfl⟩
      rw [Bool.not_eq_true] at hone
      exact .toOne hrelated (by rw [hvar, htype]) (by rw [hvar, hone])
        (by rw [hvar]) hsource
  | none =>
    have hunrelated : ¬ s.IsMarked f.modifiers "Relation" := by
      rw [hmarked]
      simp
    dsimp only at h
    split at h
    · next hhandle =>
      cases h
      exact ⟨none, .handle hunrelated htype hhandle, by constructor <;> rfl⟩
    · next hplain =>
      obtain ⟨⟨p, uses⟩, hp, h⟩ := ok_of_bind h
      obtain ⟨hvar, hsource, hdeclared⟩ := readProperty_spec hp
      cases h
      refine ⟨some (.property p), ?_, by constructor <;> rfl⟩
      rw [Bool.not_eq_true] at hplain
      exact .property hunrelated (by rw [hvar, htype]) (by rw [hvar, hplain])
        (by rw [Property.name, hvar]) hsource hdeclared

theorem enters_of_readStoreds {f : FieldDecl} {ds : List Declarator}
    {parts : List Contribution}
    (h : List.Forall₂ (fun d part => s.readStored f d = .ok part) ds parts) :
    ∃ entries, List.Forall₂ (s.EntersStored f) ds entries ∧
      List.Forall₂ (fun part es => part.members.IsSumOf es) parts
        (entries.map Option.toList) := by
  induction h with
  | nil => exact ⟨[], .nil, .nil⟩
  | cons hd _ ih =>
    obtain ⟨entry, hentry, hsum⟩ := enters_of_readStored hd
    obtain ⟨entries, hentries, hsums⟩ := ih
    exact ⟨entry :: entries, .cons hentry hentries, .cons hsum hsums⟩

theorem enters_of_readTransients {f : FieldDecl} {p : Provenance}
    {ds : List Declarator} {parts : List Contribution} (ho : s.Owned f.modifiers p)
    (h : List.Forall₂
      (fun d part => s.readTransient f p location d = .ok part) ds parts) :
    ∃ fields : List TransientField,
      List.Forall₂ (fun d field => field.var.name = d.name ∧
        s.scope.resolve (f.typeOf d) = .ok field.var.type ∧ field.source = some f.span ∧
        s.Owned f.modifiers field.provenance) ds fields ∧
      List.Forall₂ (fun part es => part.members.IsSumOf es) parts
        (fields.map fun field => [Entry.transientField field]) := by
  induction h with
  | nil => exact ⟨[], .nil, .nil⟩
  | cons hd _ ih =>
    obtain ⟨fields, hfields, hsums⟩ := ih
    unfold readTransient at hd
    obtain ⟨type, htype, hd⟩ := ok_of_bind hd
    obtain ⟨v, hv, hd⟩ := ok_of_bind hd
    obtain rfl := variableOf_eq hv
    have htype : s.scope.resolve (f.typeOf _) = .ok type := ok_of_mapError htype
    cases hd
    exact ⟨_ :: fields, .cons ⟨rfl, htype, rfl, ho⟩ hfields,
      .cons (by constructor <;> rfl) hsums⟩

/-- The position of a field, which goes with its variables, enters nothing. -/
theorem isSumOf_position (span : Span) {parts : List Contribution}
    {entries : List (List Entry)}
    (h : List.Forall₂ (fun part es => part.members.IsSumOf es) parts entries) :
    (Contribution.sum
      ({ members := { lastField := some span } } :: parts)).members.IsSumOf
      entries.flatten := by
  have hposition : Members.IsSumOf { lastField := some span } [] := by
    constructor <;> rfl
  have hall : List.Forall₂ (fun (part : Contribution) es => part.members.IsSumOf es)
      ({ members := { lastField := some span } } :: parts) ([] :: entries) :=
        .cons hposition h
  simpa using isSumOf_sum hall

theorem enters_of_readField {f : FieldDecl} (h : s.readField f = .ok part) :
    ∃ es, s.Enters (.field f) es ∧ part.members.IsSumOf es := by
  unfold readField at h
  obtain ⟨isTransient, htransient, h⟩ := ok_of_bind h
  have hiff := isTransientField_iff htransient
  cases isTransient with
  | true =>
    obtain ⟨p, hp, h⟩ := ok_of_bind h
    obtain ⟨parts, hparts, h⟩ := ok_of_bind h
    obtain ⟨fields, hfields, hsums⟩ :=
      enters_of_readTransients (owned_of_provenance hp) (mapM_eq_ok_iff.mp hparts)
    cases h
    refine ⟨fields.map .transientField, .transient (hiff.mpr rfl) hfields, ?_⟩
    have hsum := isSumOf_position f.span hsums
    rwa [← List.flatMap_def, ← List.map_eq_flatMap] at hsum
  | false =>
    obtain ⟨parts, hparts, h⟩ := ok_of_bind h
    obtain ⟨entries, hentries, hsums⟩ :=
      enters_of_readStoreds (mapM_eq_ok_iff.mp hparts)
    cases h
    have hstored : ¬ s.IsTransientField f := by
      rw [hiff]
      exact Bool.false_ne_true
    exact ⟨entries.flatMap Option.toList, .stored hstored hentries,
      isSumOf_position _ hsums⟩

/-- What a declaration contributes is what it enters. -/
theorem enters_of_readMember {d : Declaration} (h : s.readMember d = .ok part) :
    ∃ es, s.Enters d es ∧ part.members.IsSumOf es := by
  cases d with
  | field f => exact enters_of_readField h
  | method m =>
    unfold readMember readMethod at h
    obtain ⟨p, hp, h⟩ := ok_of_bind h
    obtain ⟨parameters, -, h⟩ := ok_of_bind h
    cases h
    exact ⟨_, .method rfl rfl (owned_of_provenance hp), by constructor <;> rfl⟩
  | constructor c =>
    unfold readMember readConstructor at h
    obtain ⟨p, hp, h⟩ := ok_of_bind h
    obtain ⟨parameters, -, h⟩ := ok_of_bind h
    cases h
    exact ⟨_, .constructor rfl (owned_of_provenance hp), by constructor <;> rfl⟩
  | nested t =>
    cases h
    exact ⟨_, .nested, by constructor <;> rfl⟩

/-- A variable of a stored field enters no member that could be generated. -/
theorem EntersStored.nothing {f : FieldDecl} {d : Declarator} {entry : Option Entry}
    (h : s.EntersStored f d entry) : ∀ e ∈ entry.toList,
      e.method? = none ∧ e.constructor? = none ∧ e.transientField? = none := by
  intro e he
  cases h with
  | toMany | toOne | property =>
    rw [List.mem_singleton.mp he]
    exact ⟨rfl, rfl, rfl⟩
  | handle => cases he

/-- What a declaration enters is what it yields, among other things. -/
theorem Enters.yields {d : Declaration} {es : List Entry} {part : Members}
    (h : s.Enters d es) (hsum : part.IsSumOf es) : s.Yields d part := by
  -- of methods, constructors and transient fields; a stored field gives none of
  -- them
  cases h with
  | method name source owned =>
    exact .method name source owned hsum.methods hsum.constructors hsum.transientFields
  | constructor source owned =>
    exact .constructor source owned hsum.methods hsum.constructors hsum.transientFields
  | nested => exact .nested hsum.methods hsum.constructors hsum.transientFields
  | @transient f fields _ each =>
    have hfields : part.transientFields = fields := by
      rw [hsum.transientFields, List.filterMap_map]
      exact List.filterMap_some
    refine .transient ?_ ?_ ?_
    · rw [hfields]
      exact (each.imp fun d field ⟨name, _, source, owned⟩ =>
        ⟨name, source, owned⟩).flip
    · rw [hsum.methods, List.filterMap_map]
      exact List.filterMap_eq_nil_iff.mpr fun _ _ => rfl
    · rw [hsum.constructors, List.filterMap_map]
      exact List.filterMap_eq_nil_iff.mpr fun _ _ => rfl
  | @stored f entries _ each =>
    have hnothing : ∀ e ∈ entries.flatMap Option.toList,
        e.method? = none ∧ e.constructor? = none ∧ e.transientField? = none := by
      intro e he
      obtain ⟨entry, hentry, he⟩ := List.mem_flatMap.mp he
      obtain ⟨d, -, henters⟩ := exists_of_mem_of_forall₂ each hentry
      exact henters.nothing e he
    refine .stored ?_ ?_ ?_
    · rw [hsum.methods]
      exact List.filterMap_eq_nil_iff.mpr fun e he => (hnothing e he).1
    · rw [hsum.constructors]
      exact List.filterMap_eq_nil_iff.mpr fun e he => (hnothing e he).2.1
    · rw [hsum.transientFields]
      exact List.filterMap_eq_nil_iff.mpr fun e he => (hnothing e he).2.2

theorem yields_of_readMember {d : Declaration} (h : s.readMember d = .ok part) :
    s.Yields d part.members := by
  obtain ⟨es, henters, hsum⟩ := enters_of_readMember h
  exact henters.yields hsum

end

end Site

/-! ## The entity of a source file -/

theorem readOf_ofType {s : Site} {packageName : Text} {t : TypeDecl}
    {mark : EntityMark} {reader : ReaderSettings} {e : Entity}
    (h : ofType s packageName t mark reader = .ok e) :
    ∃ parts, ReadOf s t e parts := by
  rw [ofType] at h
  obtain ⟨⟨header, indexMarks⟩, -, h⟩ := ok_of_bind h
  obtain ⟨parts, hparts, h⟩ := ok_of_bind h
  obtain ⟨-, -, h⟩ := ok_of_bind h
  obtain ⟨indexes, -, h⟩ := ok_of_bind h
  cases h
  refine ⟨parts.map Contribution.members, ?_, ?_, ?_, ?_⟩
  · rw [List.forall₂_map_right_iff]
    exact (mapM_eq_ok_iff.mp hparts).imp fun d part hread =>
      Site.yields_of_readMember hread
  · rw [List.flatMap_map]
    exact Site.sum_members Members.methods rfl (fun _ _ => rfl) parts
  · rw [List.flatMap_map]
    exact Site.sum_members Members.constructors rfl (fun _ _ => rfl) parts
  · rw [List.flatMap_map]
    exact Site.sum_members Members.transientFields rfl (fun _ _ => rfl) parts

/-- The entity of a source file is read of the members of one of its
top-level types. -/
theorem readOf_ofUnit? {unit : CompilationUnit} {source path : Text}
    {siblings : List Text} {reader : ReaderSettings} {settings : AnnotationSettings}
    {e : Entity}
    (h : ofUnit? unit source path siblings reader settings = .ok (some e)) :
    ∃ t ∈ unit.types, ∃ parts,
      ReadOf (siteOf unit source path siblings settings t) t e parts := by
  obtain ⟨t, ht, mark, hread⟩ := ofType_of_ofUnit? h
  exact ⟨t, ht, readOf_ofType hread⟩

/-- There is one function that gives what a declaration enters, wherever
it can be read. -/
theorem exists_entriesOf : ∃ entriesOf :
    Scope → AnnotationSettings → Declaration → List Entry,
    ∀ (s : Site) (d : Declaration) (part : Contribution), s.readMember d = .ok part →
      s.Enters d (entriesOf s.scope s.settings d) ∧
        part.members.IsSumOf (entriesOf s.scope s.settings d) := by
  have hall : ∀ (scope : Scope) (settings : AnnotationSettings) (d : Declaration),
      ∃ es, ∀ (s : Site) (part : Contribution), s.scope = scope →
        s.settings = settings →
        s.readMember d = .ok part → s.Enters d es ∧ part.members.IsSumOf es := by
    intro scope settings d
    by_cases hread : ∃ (s : Site) (part : Contribution), s.scope = scope ∧
      s.settings = settings ∧
        s.readMember d = .ok part
    · obtain ⟨s, part, hscope, hsettings, hpart⟩ := hread
      obtain ⟨es, hes, hsum⟩ := Site.enters_of_readMember hpart
      refine ⟨es, fun s' part' hscope' hsettings' hpart' => ?_⟩
      have halike : s.Alike s' :=
        ⟨hscope.trans hscope'.symm, hsettings.trans hsettings'.symm⟩
      obtain rfl := Site.agree_readMember halike d hpart hpart'
      exact ⟨hes.alike halike, hsum⟩
    · refine ⟨[], fun s part hscope hsettings hpart => ?_⟩
      exact absurd ⟨s, part, hscope, hsettings, hpart⟩ hread
  choose entriesOf hentriesOf using hall
  exact ⟨entriesOf, fun s d part hpart => hentriesOf _ _ d s part rfl rfl hpart⟩

/-- The scope in which the members of a top-level type are read. -/
def scopeOf (unit : CompilationUnit) (siblings : List Text) (t : TypeDecl) : Scope where
  package := unit.packageName
  imports := unit.imports
  enclosing := some t.name
  nested := t.nestedTypeNames
  siblings := siblings

/-- The first type in a list that is marked as an entity. -/
def firstMarked? (marks : TypeDecl → Marks) : List TypeDecl → Option TypeDecl
  | [] => none
  | t :: rest =>
    match (marks t).read? Shape.entity with
    | .ok (some _) => some t
    | .ok none => firstMarked? marks rest
    | .error _ => none

/-- The annotations of a top-level type. -/
def marksOf (unit : CompilationUnit) (siblings : List Text)
    (settings : AnnotationSettings) (t : TypeDecl) : Marks :=
      ⟨t.modifiers.annotations, scopeOf unit siblings t, settings⟩

/-- The type of a source file that its entity is read of. -/
def entityType? (unit : CompilationUnit) (siblings : List Text)
    (settings : AnnotationSettings) :
    Option TypeDecl := firstMarked? (marksOf unit siblings settings) unit.types

theorem ofType_of_entityType {unit : CompilationUnit} {source path : Text}
    {siblings : List Text} {reader : ReaderSettings} {settings : AnnotationSettings}
    {e : Entity}
    (h : ofUnit? unit source path siblings reader settings = .ok (some e)) :
    ∃ t mark, entityType? unit siblings settings = some t ∧
      ofType (siteOf unit source path siblings settings t) unit.packageName t mark
        reader = .ok e := by
  unfold ofUnit? at h
  unfold entityType?
  generalize unit.types = types at h ⊢
  induction types with
  | nil => cases h
  | cons t rest ih =>
    unfold ofTypes? at h
    obtain ⟨mark?, hmark, h⟩ := ok_of_bind h
    have hread : (marksOf unit siblings settings t).read? Shape.entity = .ok mark? :=
      ok_of_mapError hmark
    unfold firstMarked?
    rw [hread]
    cases mark? with
    | some mark =>
      obtain ⟨e', hentity, heq⟩ := ok_of_map h
      cases heq
      exact ⟨t, mark, rfl, hentity⟩
    | none => exact ih h

/-- The lists of an entity hold what the declarations of its type contribute. -/
theorem isSumOf_ofType {s : Site} {packageName : Text} {t : TypeDecl}
    {mark : EntityMark} {reader : ReaderSettings} {e : Entity}
    (h : ofType s packageName t mark reader = .ok e)
    {entriesOf : Declaration → List Entry}
    (hentries : ∀ d part, s.readMember d = .ok part →
      s.Enters d (entriesOf d) ∧ part.members.IsSumOf (entriesOf d)) :
    (∀ d ∈ t.members, s.Enters d (entriesOf d)) ∧
      e.toMembers.IsSumOf (t.members.flatMap entriesOf) := by
  unfold ofType at h
  obtain ⟨⟨header, indexMarks⟩, -, h⟩ := ok_of_bind h
  obtain ⟨parts, hparts, h⟩ := ok_of_bind h
  obtain ⟨-, -, h⟩ := ok_of_bind h
  obtain ⟨indexes, -, h⟩ := ok_of_bind h
  cases h
  constructor
  · intro d hd
    obtain ⟨part, -, hpart⟩ := exists_of_mapM_of_mem hparts hd
    exact (hentries d part hpart).1
  · have hsums : List.Forall₂
        (fun (part : Contribution) es => part.members.IsSumOf es) parts
        (t.members.map entriesOf) := by
      rw [List.forall₂_map_right_iff]
      exact (mapM_eq_ok_iff.mp hparts).flip.imp fun part d hpart =>
        (hentries d part hpart).2
    rw [List.flatMap_def]
    exact isSumOf_sum hsums

/-- Two source files differ in one member of a top-level type: `d` and `d'`,
between the same members before and after it. -/
structure DifferIn (u u' : CompilationUnit) (t t' : TypeDecl)
    (before : List Declaration) (d d' : Declaration)
    (after : List Declaration) : Prop where
  packageName : u.packageName = u'.packageName
  imports : u.imports = u'.imports
  types : ∃ front back, u.types = front ++ t :: back ∧ u'.types = front ++ t' :: back
  name : t.name = t'.name
  modifiers : t.modifiers = t'.modifiers
  nestedTypeNames : t.nestedTypeNames = t'.nestedTypeNames
  members : t.members = before ++ d :: after
  members' : t'.members = before ++ d' :: after

/-- A type that gives way to one with the same marks is marked first if and only
if that one is. -/
theorem firstMarked?_append {marks : TypeDecl → Marks} {t t' : TypeDecl}
    (h : marks t = marks t') (front back : List TypeDecl) :
    (firstMarked? marks (front ++ t :: back) = some t ∧
        firstMarked? marks (front ++ t' :: back) = some t') ∨
      firstMarked? marks (front ++ t :: back) =
        firstMarked? marks (front ++ t' :: back) := by
  induction front with
  | nil =>
    simp only [List.nil_append, firstMarked?, h]
    split
    · exact .inl ⟨rfl, rfl⟩
    · exact .inr rfl
    · exact .inr rfl
  | cons first rest ih =>
    simp only [List.cons_append, firstMarked?]
    split
    · exact .inr rfl
    · exact ih
    · exact .inr rfl

/-- **An entity is the member-wise sum of its declarations.** One function of
the scope, the settings and a declaration gives the entries of each, and the
lists of an entity hold those of the members of its type in source order, one
for each of what is declared. So two files that differ in one member have the
same entries of all others. -/
theorem entity_is_sum_of_entries :
    ∃ entriesOf : Scope → AnnotationSettings → Declaration → List Entry,
      ∀ (unit : CompilationUnit) (source path : Text) (siblings : List Text)
        (reader : ReaderSettings) (settings : AnnotationSettings) (e : Entity),
        ofUnit? unit source path siblings reader settings = .ok (some e) →
        (∃ t, entityType? unit siblings settings = some t ∧
          (∀ d ∈ t.members, (siteOf unit source path siblings settings t).Enters d
            (entriesOf (scopeOf unit siblings t) settings d)) ∧
          e.toMembers.IsSumOf
            (t.members.flatMap (entriesOf (scopeOf unit siblings t) settings))) ∧
        ∀ (unit' : CompilationUnit) (source' path' : Text)
          (reader' : ReaderSettings) (e' : Entity)
          (t t' : TypeDecl) (before : List Declaration) (d d' : Declaration)
          (after : List Declaration),
          ofUnit? unit' source' path' siblings reader' settings = .ok (some e') →
          DifferIn unit unit' t t' before d d' after →
          let entries := entriesOf (scopeOf unit siblings t) settings
          (entityType? unit siblings settings = some t ∧
            e.toMembers.IsSumOf
              (before.flatMap entries ++ entries d ++ after.flatMap entries) ∧
            e'.toMembers.IsSumOf
              (before.flatMap entries ++ entries d' ++ after.flatMap entries)) ∨
          ∃ es, e.toMembers.IsSumOf es ∧ e'.toMembers.IsSumOf es := by
  obtain ⟨entriesOf, hentriesOf⟩ := exists_entriesOf
  have hsum (unit : CompilationUnit) (source path : Text) (siblings : List Text)
      (reader : ReaderSettings) (settings : AnnotationSettings) (e : Entity)
      (h : ofUnit? unit source path siblings reader settings = .ok (some e)) :
      ∃ t, entityType? unit siblings settings = some t ∧
        (∀ d ∈ t.members, (siteOf unit source path siblings settings t).Enters d
          (entriesOf (scopeOf unit siblings t) settings d)) ∧
        e.toMembers.IsSumOf
          (t.members.flatMap (entriesOf (scopeOf unit siblings t) settings)) := by
    obtain ⟨t, mark, ht, hread⟩ := ofType_of_entityType h
    exact ⟨t, ht, isSumOf_ofType hread fun d part hpart => hentriesOf _ d part hpart⟩
  refine ⟨entriesOf,
    fun unit source path siblings reader settings e h => ⟨hsum _ _ _ _ _ _ _ h, ?_⟩⟩
  intro unit' source' path' reader' e' t t' before d d' after h' hdiffer
  obtain ⟨u, hu, -, hes⟩ := hsum _ _ _ _ _ _ _ h
  obtain ⟨u', hu', -, hes'⟩ := hsum _ _ _ _ _ _ _ h'
  -- the surroundings of a type are the same in both files
  have hscope (v : TypeDecl) : scopeOf unit' siblings v = scopeOf unit siblings v := by
    simp only [scopeOf, hdiffer.packageName, hdiffer.imports]
  have hscope' : scopeOf unit siblings t' = scopeOf unit siblings t := by
    simp only [scopeOf, hdiffer.name, hdiffer.nestedTypeNames]
  have hmarks : marksOf unit' siblings settings = marksOf unit siblings settings := by
    funext v
    rw [marksOf, marksOf, hscope]
  have hmarks' : marksOf unit siblings settings t =
      marksOf unit siblings settings t' := by
    rw [marksOf, marksOf, hscope', hdiffer.modifiers]
  obtain ⟨front, back, htypes, htypes'⟩ := hdiffer.types
  rw [hscope] at hes'
  rcases firstMarked?_append hmarks' front back with ⟨hfirst, hfirst'⟩ | heq
  · left
    have hut : entityType? unit siblings settings = some t := by rw [entityType?,
      htypes, hfirst]
    have hut' : entityType? unit' siblings settings = some t' := by
      rw [entityType?, hmarks, htypes', hfirst']
    rw [hut] at hu
    rw [hut'] at hu'
    cases hu
    cases hu'
    rw [hdiffer.members, List.flatMap_append, List.flatMap_cons,
      ← List.append_assoc] at hes
    rw [hscope', hdiffer.members', List.flatMap_append, List.flatMap_cons,
      ← List.append_assoc] at hes'
    exact ⟨hut, hes, hes'⟩
  · right
    have huu : u = u' := by
      rw [entityType?, htypes, heq] at hu
      rw [entityType?, hmarks, htypes', hu] at hu'
      exact Option.some.inj hu'
    rw [← huu] at hes'
    exact ⟨_, hes, hes'⟩

namespace EntrySample

/-- A field of the sample. -/
def field (keywords : List Text) (annotations : List Text) (type : Text)
    (names : List Text) : Declaration :=
  .field
    { modifiers :=
        { keywords, annotations := annotations.map fun a => .mk a .marker ⟨0, 0, 1⟩ }
      typeText := type
      declarators := names.map fun name => ⟨name, []⟩
      span := ⟨0, 0, 1⟩
      doc := none }

/-- Members of every kind: fields that are static or marked, handles, a
relation and others. -/
def others : List Declaration :=
  [field ["static"] [] "int" ["count"], field [] ["m.Transient"] "int" ["seen"],
    field [] [] "m.ToOne<B>" ["loose"], field [] ["m.Relation"] "m.ToOne<B>" ["held"],
    field [] ["m.Relation"] "java.util.List<B>" ["many"],
    .constructor ⟨"A", {}, [⟨"long", "id"⟩], ⟨0, 0, 1⟩, none⟩,
    .method ⟨"clear", {}, "void", [], ⟨0, 0, 1⟩, none⟩,
    .nested (.mk "Part" .classType {} [] ⟨0, 0, 1⟩ ⟨0, 0, 1⟩ none)]

/-- An entity with one more member. -/
def typeWith (d : Declaration) : TypeDecl :=
  .mk "A" .classType { annotations := [.mk "m.Entity" .marker ⟨0, 0, 1⟩] }
    (d :: others) ⟨0, 0, 1⟩
    ⟨0, 0, 1⟩ none

/-- A source file with the entity. -/
def unitWith (d : Declaration) : CompilationUnit := { types := [typeWith d] }

/-- What is read of it. -/
def read (d : Declaration) : Except SourceError (Option Entity) :=
  ofUnit? (unitWith d) [] "A.java" [] {} { package := "m", relationPackage := "m" }

theorem differ (d d' : Declaration)
    (h : (typeWith d).nestedTypeNames = (typeWith d').nestedTypeNames) :
    DifferIn (unitWith d) (unitWith d') (typeWith d) (typeWith d') [] d d' others where
  packageName := rfl
  imports := rfl
  types := ⟨[], [], rfl, rfl⟩
  name := rfl
  modifiers := rfl
  nestedTypeNames := h
  members := rfl
  members' := rfl

end EntrySample

open EntrySample in
/-- In the sample, a field of two variables gives way to one of another
variable: both entities have the same entries besides. -/
theorem entity_is_sum_of_entries_sample :
    ∃ e e' mine mine' shared, read (field [] [] "int" ["a", "b"]) = .ok (some e) ∧
      read (field [] [] "long" ["c"]) = .ok (some e') ∧
      e.properties.map Property.name = ["a".toList, "b".toList] ∧
      e'.properties.map Property.name = ["c".toList] ∧
      e.toMembers.IsSumOf (mine ++ shared) ∧
      e'.toMembers.IsSumOf (mine' ++ shared) := by
  have hnames : ((read (field [] [] "int" ["a", "b"])).toOption.join.map
      fun e => e.properties.map Property.name) = some ["a".toList, "b".toList] := by
        decide +kernel
  have hnames' : ((read (field [] [] "long" ["c"])).toOption.join.map
      fun e => e.properties.map Property.name) = some ["c".toList] := by decide +kernel
  obtain ⟨e, hfound, hproperties⟩ := Option.map_eq_some_iff.mp hnames
  obtain ⟨e', hfound', hproperties'⟩ := Option.map_eq_some_iff.mp hnames'
  have hread := eq_ok_of_toOption (Option.join_eq_some_iff.mp hfound)
  have hread' := eq_ok_of_toOption (Option.join_eq_some_iff.mp hfound')
  obtain ⟨entriesOf, hall⟩ := entity_is_sum_of_entries
  obtain ⟨-, hone⟩ := hall _ _ _ _ _ _ e hread
  have hdiffer := differ (field [] [] "int" ["a", "b"]) (field [] [] "long" ["c"]) rfl
  refine ⟨e, e', ?_⟩
  rcases hone _ _ _ _ e' _ _ _ _ _ _ hread' hdiffer with
    ⟨-, hsum, hsum'⟩ | ⟨es, hsum, hsum'⟩
  · exact ⟨_, _, _, hread, hread', hproperties, hproperties', hsum, hsum'⟩
  · rw [hsum.properties] at hproperties
    rw [hsum'.properties, hproperties] at hproperties'
    exact absurd hproperties' (by decide +kernel)

end Graft.Entity
