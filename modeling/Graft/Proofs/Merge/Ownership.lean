import Graft.Proofs.Entity.Entries
import Graft.Proofs.Merge.Reaching

/-!
# Who owns a member

A reader of entities resolves the marks of a declaration, a merge goes by their
last names. What the reader takes for kept is kept by a merge, and what it takes
for generated is generated or kept there; the two differ only over marks of the
same last name from other packages (`agrees_of_owned`). What is not generated
for a merge, no pass replaces or removes (`leavesAlone_of_byHand`).
-/

namespace Graft.Merge

open Java Entity Code

/-! ## Marks by their last names -/

section

variable {m : Modifiers}

theorem hasMark_iff {name : Text} :
    hasMark m name = true ↔ ∃ u ∈ m.annotations, u.simpleName = name := by
  simp [hasMark]

theorem hasMark_of_isMarked {s : Site} {name : Text} (h : s.IsMarked m name) :
    hasMark m name = true := by
  obtain ⟨u, hu, hsimple, -⟩ := h
  exact hasMark_iff.mpr ⟨u, hu, hsimple⟩

theorem provenanceOf_of_keep (h : hasMark m "Keep" = true) :
    provenanceOf m = .keep := by
  rw [provenanceOf, if_pos h]

theorem provenanceOf_of_generated (hfree : hasMark m "Keep" = false)
    (h : hasMark m "Generated" = true) : ∃ hash, provenanceOf m = .generated hash := by
  rw [provenanceOf, hfree, if_neg Bool.false_ne_true]
  cases hfind : m.annotations.find? (·.simpleName == "Generated".toList) with
  | some u => exact ⟨_, rfl⟩
  | none =>
    obtain ⟨u, hu, hsimple⟩ := hasMark_iff.mp h
    exact absurd (beq_iff_eq.mpr hsimple) (List.find?_eq_none.mp hfind u hu)

theorem provenanceOf_of_unmarked (hfree : hasMark m "Keep" = false)
    (h : hasMark m "Generated" = false) : provenanceOf m = .unmarked := by
  rw [provenanceOf, hfree, if_neg Bool.false_ne_true]
  cases hfind : m.annotations.find? (·.simpleName == "Generated".toList) with
  | none => rfl
  | some u =>
    have hsimple := List.find?_some hfind
    have hmark :=
      hasMark_iff.mpr ⟨u, List.mem_of_find?_eq_some hfind, eq_of_beq hsimple⟩
    rw [h] at hmark
    cases hmark

end

/-! ## Two views of one declaration -/

/-- Two owners are of one kind, whatever hashes are recorded. -/
def SameKind : Provenance → Provenance → Prop
  | .unmarked, .unmarked => True
  | .keep, .keep => True
  | .generated _, .generated _ => True
  | _, _ => False

/-- Every mark of a declaration that is named as one to be kept, or else as
generated, is the mark of that name in the package of the marks. -/
structure MarksResolve (s : Site) (m : Modifiers) : Prop where
  keep : hasMark m "Keep" = true → s.IsMarked m "Keep"
  generated : hasMark m "Keep" = false → hasMark m "Generated" = true →
    s.IsMarked m "Generated"

/-- What a merge takes for the owner of a declaration, held against what a
reader of entities takes for it. -/
structure Agrees (s : Site) (m : Modifiers) (p : Provenance) : Prop where
  kept : p = .keep → provenanceOf m = .keep
  generated : p.isGenerated = true →
    provenanceOf m = .keep ∨ (provenanceOf m).isGenerated = true
  sameKind : SameKind p (provenanceOf m) ↔ MarksResolve s m

theorem agrees_of_owned {s : Site} {m : Modifiers} {p : Provenance} (h : s.Owned m p) :
    Agrees s m p := by
  -- what the reader resolved, it had found by name; what it did not find may
  -- still be named so
  cases h with
  | keep hkeep =>
    have hmark := hasMark_of_isMarked hkeep
    have howner := provenanceOf_of_keep hmark
    refine ⟨fun _ => howner, fun h => Bool.noConfusion h, ?_⟩
    rw [howner]
    refine ⟨fun _ => ⟨fun _ => hkeep, fun hfree => ?_⟩, fun _ => trivial⟩
    rw [hmark] at hfree
    cases hfree
  | generated hfree hgenerated hash =>
    have hmark := hasMark_of_isMarked hgenerated
    cases hkeep : hasMark m "Keep" with
    | true =>
      -- a mark from another package keeps the declaration
      have howner := provenanceOf_of_keep hkeep
      refine ⟨fun h => Provenance.noConfusion h, fun _ => .inl howner, ?_⟩
      rw [howner]
      exact ⟨False.elim, fun h => hfree (h.keep hkeep)⟩
    | false =>
      obtain ⟨hash', howner⟩ := provenanceOf_of_generated hkeep hmark
      refine ⟨fun h => Provenance.noConfusion h,
        fun _ => .inr (by rw [howner]; rfl), ?_⟩
      rw [howner]
      refine ⟨fun _ => ⟨fun hkept => ?_, fun _ _ => hgenerated⟩, fun _ => trivial⟩
      rw [hkeep] at hkept
      cases hkept
  | unmarked hfree hunmarked =>
    refine ⟨fun h => Provenance.noConfusion h, fun h => Bool.noConfusion h, ?_⟩
    cases hkeep : hasMark m "Keep" with
    | true =>
      rw [provenanceOf_of_keep hkeep]
      exact ⟨False.elim, fun h => hfree (h.keep hkeep)⟩
    | false =>
      cases hmark : hasMark m "Generated" with
      | true =>
        obtain ⟨hash, howner⟩ := provenanceOf_of_generated hkeep hmark
        rw [howner]
        exact ⟨False.elim, fun h => hunmarked (h.generated hkeep hmark)⟩
      | false =>
        rw [provenanceOf_of_unmarked hkeep hmark]
        refine ⟨fun _ => ⟨fun hkept => ?_, fun _ hgenerated => ?_⟩, fun _ => trivial⟩
        · rw [hkeep] at hkept
          cases hkept
        · rw [hmark] at hgenerated
          cases hgenerated

/-- What a reader takes for written by hand, or for kept, is not generated for a
merge, unless a mark from another package says so. -/
theorem Agrees.byHand {s : Site} {m : Modifiers} {p : Provenance} (h : Agrees s m p)
    (hhand : p.isGenerated = false) (hresolve : p = .keep ∨ MarksResolve s m) :
    (provenanceOf m).isGenerated = false := by
  rcases hresolve with hkeep | hresolve
  · rw [h.kept hkeep]
    rfl
  · have hsame := h.sameKind.mpr hresolve
    cases howner : provenanceOf m with
    | generated hash =>
      rw [howner] at hsame
      cases p with
      | generated _ => cases hhand
      | unmarked => exact hsame.elim
      | keep => exact hsame.elim
    | unmarked => rfl
    | keep => rfl

/-! ## What a pass leaves alone -/

/-- A declaration of a type is left alone by every pass over that type: its
members are neither replaced nor left over, and where the spans fit the source,
no edit reaches it. -/
def LeavesAlone (source : Text) (unit : CompilationUnit) (t : TypeDecl)
    (d : Declaration) : Prop :=
  ∀ (typeName : Text) (depth : Nat) (style : Style) (path : Option Text)
    (calls : List Call),
    let s := (Session.ofType source typeName unit t depth style path).run calls
    (∀ (i : Nat) (m : Member), (indexMembers t)[i]? = some m → m ∈ membersOf d →
      (takeOver s.slots s.pending).1[i]? = some ⟨m, false⟩ ∧ m.replacement = none) ∧
    (SpansFit source unit t → reaching d.extent s.buffer.edits = [])

namespace Session

/-- A member that is not generated is left as it is. -/
theorem Reached.slot_byHand {s₀ s : Session} {calls : List Call}
    (h : Reached s₀ calls s) {i : Nat} {m : Member} (hm : s₀.members[i]? = some m)
    (hhand : m.provenance.isGenerated = false) :
    (takeOver s.slots s.pending).1[i]? = some ⟨m, false⟩ := by
  obtain ⟨taken, htaken⟩ := exists_takenOver s.slots s.pending
  have hslot : s.slots[i]? = some ⟨m, false⟩ := by
    rw [slots, List.getElem?_map, h.members, hm, Option.map_some, Option.map_some,
      settled_of_not_generated _ _ _ _ hhand, hhand, Bool.false_and]
  have hlookup : taken.lookup i = none := by
    cases hlookup : taken.lookup i with
    | none => rfl
    | some p =>
      -- what is taken over was left over
      obtain ⟨front, back, heq, -⟩ := List.lookup_eq_some_iff.mp hlookup
      obtain ⟨-, slot, hget, hfree⟩ := htaken.free (i, p) (by simp [heq])
      have hstale := Slot.isStale_of_isFree hfree
      rw [hslot, Option.some.injEq] at hget
      rw [← hget] at hstale
      cases hstale
  rw [htaken.slots, hslot, Option.map_some, Slot.assigned, hlookup]

end Session

theorem leavesAlone_of_byHand (source : Text) (unit : CompilationUnit) {t : TypeDecl}
    {d : Declaration} (hd : d ∈ t.members)
    (hhand : (provenanceOf d.modifiers).isGenerated = false) :
    LeavesAlone source unit t d := by
  intro typeName depth style path calls s
  have fresh := Session.isFresh_ofType source typeName unit t depth style path
  obtain ⟨calls', reached⟩ := Session.exists_reached fresh calls
  refine ⟨?_, ?_⟩
  · intro i m hm hmem
    have hown : m.provenance.isGenerated = false := by
      rw [(of_mem_membersOf hmem).2.1]
      exact hhand
    exact ⟨reached.slot_byHand hm hown, (fresh.members m (List.mem_of_getElem? hm)).2⟩
  · intro fit
    apply reached.reaching_byHand fresh fit rfl rfl rfl rfl hd
    intro hgen
    rw [hgen.marked] at hhand
    cases hhand

/-- **A reader of entities and a merge agree on who owns a member**, but for
marks of other packages. The members of an entity are read of the declarations
of one type. Of each of them, a merge takes for kept what the reader takes for
kept, and for generated or kept what the reader takes for generated; both take
it for the same exactly when its marks of these names resolve to those of the
settings. Then, and whenever it is kept, no pass over the type replaces or
removes what the reader does not take for generated. -/
theorem owners_agree {unit : CompilationUnit} {source path : Text}
    {siblings : List Text} {reader : ReaderSettings} {settings : AnnotationSettings}
    {e : Entity}
    (h : ofUnit? unit source path siblings reader settings = .ok (some e)) :
    ∃ t ∈ unit.types, ∃ parts,
      ReadOf (siteOf unit source path siblings settings t) t e parts ∧
      ∀ d ∈ t.members, ∀ p,
        (siteOf unit source path siblings settings t).Owned d.modifiers p →
        Agrees (siteOf unit source path siblings settings t) d.modifiers p ∧
        (p.isGenerated = false →
          p = .keep ∨ MarksResolve
            (siteOf unit source path siblings settings t) d.modifiers →
          LeavesAlone source unit t d) := by
  obtain ⟨t, ht, parts, hread⟩ := readOf_ofUnit? h
  refine ⟨t, ht, parts, hread, ?_⟩
  intro d hd p howned
  have hagrees := agrees_of_owned howned
  refine ⟨hagrees, fun hhand hresolve => ?_⟩
  exact leavesAlone_of_byHand source unit hd (hagrees.byHand hhand hresolve)

namespace OwnerSample

/-- An entity with a method that another tool has marked as generated, and
one to be kept. -/
def source : Text :=
  "package p;\nimport javax.annotation.Generated;\n@io.objectbox.annotation.Entity\nclass A \x7b\n" ++
    "    @Generated void mine() \x7b\x7d\n    @io.objectbox.annotation.Keep void kept() \x7b\x7d\n\x7d\n"

/-- The source as it is read. -/
def unit : CompilationUnit := CompilationUnit.read source

end OwnerSample

/-- In the sample, the entity is read of the class, and every pass leaves the
kept method alone. -/
theorem owners_agree_sample :
    ∃ e t, ofUnit? OwnerSample.unit OwnerSample.source "A.java" [] {} {} =
      .ok (some e) ∧
      t ∈ OwnerSample.unit.types ∧
      e.methods.map Method.name = ["mine".toList, "kept".toList] ∧
      ∀ d ∈ t.members,
        (siteOf OwnerSample.unit OwnerSample.source "A.java" [] {} t).Owned
        d.modifiers .keep → LeavesAlone OwnerSample.source OwnerSample.unit t d := by
  have hnames :
      ((ofUnit? OwnerSample.unit OwnerSample.source "A.java" [] {}
        {}).toOption.join.map
      fun e => e.methods.map Method.name) = some ["mine".toList, "kept".toList] := by
    decide +kernel
  obtain ⟨e, hfound, hmethods⟩ := Option.map_eq_some_iff.mp hnames
  have hread : ofUnit? OwnerSample.unit OwnerSample.source "A.java" [] {} {} =
      .ok (some e) := by
    cases h : ofUnit? OwnerSample.unit OwnerSample.source "A.java" [] {} {} with
    | error error =>
      rw [h] at hfound
      cases hfound
    | ok found =>
      rw [h] at hfound
      exact congrArg _ hfound
  obtain ⟨t, ht, parts, -, howners⟩ := owners_agree hread
  refine ⟨e, t, hread, ht, hmethods, ?_⟩
  intro d hd hkept
  exact (howners d hd .keep hkept).2 rfl (.inl rfl)

/-- A mark of the same last name from another package is enough for a merge: of
the method that another tool has marked, the reader says that it is written by
hand, and a pass that is asked for nothing removes it. -/
theorem foreign_mark_is_removed :
    ((ofUnit? OwnerSample.unit OwnerSample.source "A.java" [] {} {}).toOption.join.map
      fun e => e.methods.map Method.provenance) = some [.unmarked, .keep] ∧
    (indexMembers OwnerSample.unit.types.head!).map Member.provenance =
      [.generated none, .keep] ∧
    (Session.ofType OwnerSample.source "A" OwnerSample.unit
      OwnerSample.unit.types.head! 1 {}).write =
      .ok (some
        ("package p;\nimport javax.annotation.Generated;\n@io.objectbox.annotation.Entity\n" ++
          "class A \x7b\n    @io.objectbox.annotation.Keep void kept() \x7b\x7d\n\x7d\n")) := by
  decide +kernel

end Graft.Merge
