import Graft.Proofs.Merge.Finding
import Graft.Proofs.Merge.Spans

/-!
# Members written by hand, as they are read

What a reader makes of the members that are not generated is their signatures,
who looks after them, and their text (`views`). It is the same wherever the
members stand (`views_moved`) and whatever follows them (`views_take`). When
whole items in a body go and others come, everything that was read by hand is
read again, in its order (`SameAround.views_sublist`).
-/

namespace Graft.Merge

open Java Entity

/-- A member as it is read: its signature, who looks after it, and its text
with its comment. -/
structure View where
  signature : Signature
  provenance : Provenance
  text : Text
  deriving DecidableEq, Repr

/-- A member of a source as it is read. -/
def Member.view (source : Text) (m : Member) : View :=
  ⟨m.signature, m.provenance, source.slice m.extent.start m.extent.stop⟩

/-- The members among declarations that are not generated, as they are read. -/
def views (source : Text) (ds : List Declaration) : List View :=
  ((ds.flatMap membersOf).filter (!·.provenance.isGenerated)).map (Member.view source)

section

variable {source source' : Text} {ds : List Declaration}

@[simp] theorem views_append (source : Text) (ds ds' : List Declaration) :
    views source (ds ++ ds') = views source ds ++ views source ds' := by
  simp [views]

theorem views_cons (source : Text) (d : Declaration) (ds : List Declaration) :
    views source (d :: ds) = views source [d] ++ views source ds :=
      views_append source [d] ds

theorem views_eq_nil
    (h : ∀ d ∈ ds, ∀ m ∈ membersOf d, m.provenance.isGenerated = true) :
    views source ds = [] := by
  rw [views, List.map_eq_nil_iff, List.filter_eq_nil_iff]
  intro m hm
  obtain ⟨d, hd, hmem⟩ := List.mem_flatMap.mp hm
  simp [h d hd m hmem]

theorem Declaration.extent_stop (d : Declaration) : d.extent.stop = d.span.stop := rfl

/-- What is read by hand does not depend on what follows. -/
theorem views_take {place : Nat} (hsource : source.take place = source'.take place)
    (h : ∀ d ∈ ds, d.span.stop ≤ place) : views source ds = views source' ds := by
  unfold views
  refine List.map_congr_left fun m hm => ?_
  obtain ⟨d, hd, hmem⟩ := List.mem_flatMap.mp (List.mem_filter.mp hm).1
  obtain ⟨signature, -, rfl⟩ := List.mem_map.mp hmem
  have hstop := h d hd
  simp only [Member.view, View.mk.injEq, true_and, Text.slice, Declaration.extent_stop]
  rw [← Nat.min_eq_left hstop, ← List.take_take, hsource, List.take_take]

end

/-! ## Members further behind -/

section

variable (o : Offset)

/-- What a name stands for in an annotation further behind. -/
theorem lookup_pairsMoved (pairs : List (Text × ElementValue)) (name : Text) :
    (ElementValue.pairsMoved o pairs).lookup name =
      (pairs.lookup name).map (ElementValue.moved o) := by
  rw [ElementValue.pairsMoved_eq]
  induction pairs with
  | nil => rfl
  | cons pair pairs ih =>
    obtain ⟨key, v⟩ := pair
    rw [List.map_cons, List.lookup_cons, List.lookup_cons, ih]
    cases name == key <;> rfl

theorem recordedHash?_moved (u : AnnotationUse) :
    recordedHash? (u.moved o) = recordedHash? u := by
  obtain ⟨name, arguments, span⟩ := u
  cases arguments with
  | marker | single => simp only [AnnotationUse.moved, Arguments.moved, recordedHash?,
    AnnotationUse.arguments]
  | named pairs =>
    simp only [AnnotationUse.moved, Arguments.moved, recordedHash?,
      AnnotationUse.arguments, lookup_pairsMoved]
    rcases pairs.lookup "hash".toList with _ | v
    · rfl
    · cases v <;> simp only [Option.map_some, ElementValue.moved]

theorem simpleName_moved (u : AnnotationUse) :
    (u.moved o).simpleName = u.simpleName := by
  obtain ⟨name, arguments, span⟩ := u
  simp only [AnnotationUse.moved, AnnotationUse.simpleName, AnnotationUse.name]

theorem provenanceOf_moved (m : Modifiers) :
    provenanceOf (m.moved o) = provenanceOf m := by
  have hmark : hasMark (m.moved o) "Keep" = hasMark m "Keep" := by
    simp only [hasMark, Modifiers.moved, List.any_map, Function.comp_def,
      simpleName_moved]
  have hfind : (m.moved o).annotations.find? (·.simpleName == "Generated".toList) =
      (m.annotations.find? (·.simpleName == "Generated".toList)).map
        (AnnotationUse.moved o) := by
    simp only [Modifiers.moved, List.find?_map, Function.comp_def, simpleName_moved]
  rw [provenanceOf, provenanceOf, hmark, hfind]
  cases m.annotations.find? (·.simpleName == "Generated".toList) with
  | none => rfl
  | some u => simp only [Option.map_some, recordedHash?_moved]

theorem signaturesOf_moved (d : Declaration) :
    signaturesOf (d.moved o) = signaturesOf d := by
  cases d <;> simp only [Declaration.moved, signaturesOf]

theorem modifiers_moved (d : Declaration) :
    (d.moved o).modifiers = d.modifiers.moved o := by
  cases d with
  | field | method | constructor => simp only [Declaration.moved, Declaration.modifiers]
  | nested t =>
    cases t
    simp only [Declaration.moved, TypeDecl.moved, Declaration.modifiers,
      TypeDecl.modifiers]

theorem extent_moved (d : Declaration) :
    (d.moved o).extent = ⟨d.extent.start + o.position, d.extent.stop + o.position⟩ := by
  have hspan : (d.moved o).span = d.span.moved o := by
    cases d with
    | field | method | constructor => simp only [Declaration.moved, Declaration.span]
    | nested t =>
      cases t
      simp only [Declaration.moved, TypeDecl.moved, Declaration.span, TypeDecl.span]
  have hdoc : (d.moved o).doc = d.doc.map (Span.moved o) := by
    cases d with
    | field | method | constructor => simp only [Declaration.moved, Declaration.doc]
    | nested t =>
      cases t
      simp only [Declaration.moved, TypeDecl.moved, Declaration.doc, TypeDecl.doc]
  rw [Declaration.extent, Declaration.extent, hspan, hdoc, Extent.mk.injEq]
  refine ⟨?_, rfl⟩
  cases d.doc with
  | none => rfl
  | some doc => simp only [Option.map_some, Span.moved, Nat.add_min_add_right]

end

/-- **What is read by hand is the same wherever it stands**. -/
theorem views_moved {o : Offset} {front : Text} (h : o.position = front.length)
    (source : Text) (ds : List Declaration) :
    views (front ++ source) (ds.map (Declaration.moved o)) = views source ds := by
  induction ds with
  | nil => rfl
  | cons d ds ih =>
    rw [List.map_cons, views_cons, views_cons source, ih]
    congr 1
    have hview : ∀ σ, Member.view (front ++ source)
        ⟨σ, provenanceOf d.modifiers, (d.moved o).extent, (d.moved o).span.line,
          false, none⟩ =
        Member.view source
          ⟨σ, provenanceOf d.modifiers, d.extent, d.span.line, false, none⟩ := by
      intro σ
      have htext := text_moved h source ⟨d.extent.start, d.extent.stop, 0⟩
      simp only [Member.view, extent_moved, View.mk.injEq, true_and]
      exact htext
    simp only [views, List.flatMap_singleton, membersOf, signaturesOf_moved,
      modifiers_moved, provenanceOf_moved]
    rw [List.filter_map, List.filter_map, List.map_map, List.map_map]
    exact List.map_congr_left fun σ _ => hview σ

/-! ## Items that go and come -/

theorem behindConstants_append_cases (trees : List Tree) :
    (∃ later, ∀ rest, behindConstants (trees ++ rest) = later ++ rest) ∨
      ∀ rest, behindConstants (trees ++ rest) = behindConstants rest := by
  induction trees with
  | nil => exact .inr fun _ => rfl
  | cons t trees ih =>
    by_cases hsign : t.isSign ";" = true
    · exact .inl ⟨trees, fun rest => by rw [List.cons_append, behindConstants,
        if_pos hsign]⟩
    · rcases ih with ⟨later, h⟩ | h
      · exact .inl ⟨later, fun rest => by rw [List.cons_append, behindConstants,
          if_neg hsign, h]⟩
      · exact .inr fun rest => by rw [List.cons_append, behindConstants,
          if_neg hsign, h]

/-- Where items of a body may be exchanged for others: behind whole ones, at its
beginning or at its end. -/
inductive MayChange (kind : TypeKind) : (front gone back : List Tree) → Prop
  | between {start front gone back : List Tree}
      (bodies : ∀ body, bodyTrees kind (start ++ body) = body)
      (settled : Settled (inAnnotationBody (some kind)) front)
      (settledGone : Settled (inAnnotationBody (some kind)) gone) :
      MayChange kind (start ++ front) gone back
  | opening {back : List Tree} : MayChange kind [] [] back
  | closing {front : List Tree} : MayChange kind front [] []

section

variable {source source' : Text} {place : Nat} {o o' : Offset} {kind : TypeKind}
  {front gone new back : List Tree}

/-- What is read by hand behind a place is read where it went. -/
theorem SameAround.views_behind (same : SameAround source source' place o o')
    (within : Option TypeKind) (trees : List Tree) :
    views source (declarations source within (trees.map (Tree.moved o))) =
      views source' (declarations source' within (trees.map (Tree.moved o'))) := by
  obtain ⟨start, start', rest, rfl, rfl, ho, ho'⟩ := same.behind
  rw [declarations_moved ho, declarations_moved ho', views_moved ho, views_moved ho']

/-- What is read by hand in front of a place does not depend on
what is behind it. -/
theorem views_declarations_take (hsource : source.take place = source'.take place)
    {within : Option TypeKind} {trees : List Tree}
    (h : ∀ x ∈ Tree.flats trees, x.stop ≤ place) :
    views source (declarations source within trees) =
      views source' (declarations source' within trees) := by
  rw [← declarations_take hsource h]
  exact views_take hsource fun d hd => stop_le_of_isIn (.here hd) h

/-- Items that come first in a body leave what was read by hand behind them. -/
theorem SameAround.sublist_opening (same : SameAround source source' place o o')
    (settled : Settled (inAnnotationBody (some kind)) new) :
    (views source (declarations source (some kind)
      (bodyTrees kind (back.map (Tree.moved o))))).Sublist
      (views source' (declarations source' (some kind)
        (bodyTrees kind (new ++ back.map (Tree.moved o'))))) := by
  -- in an enumeration the members begin behind its constants
  by_cases henum : (kind == .enumType) = true
  · simp only [bodyTrees, henum, ↓reduceIte]
    rw [behindConstants_moved]
    rcases behindConstants_append_cases new with ⟨later, hlater⟩ | hconstants
    · rw [hlater]
      by_cases hnone : behindConstants back = []
      · rw [hnone]
        exact List.nil_sublist _
      · -- the constants belong to the last of the new items, which their semicolon ends
        obtain ⟨constants, last, hsplit, hlast, -⟩ := behindConstants_append rfl hnone
        have hsettled : Settled (inAnnotationBody (some kind))
          (later ++ (constants ++ [last]).map (Tree.moved o')) := by
          refine settled_of_semicolon (some kind) _ fun t ht => ?_
          rw [List.map_append, ← List.append_assoc, List.map_singleton,
          List.getLast?_append] at ht
          cases ht
          exact (Tree.isSign_moved o' last ";").trans hlast
        rw [same.views_behind]
        conv => rhs; rw [hsplit, List.map_append, ← List.append_assoc,
          declarations_append hsettled, views_append]
        exact List.sublist_append_right _ _
    · rw [hconstants, behindConstants_moved, same.views_behind]
  · simp only [bodyTrees, henum, Bool.false_eq_true, ↓reduceIte]
    rw [declarations_append settled, views_append, same.views_behind]
    exact List.sublist_append_right _ _

/-- Items that come last in a body leave what was read by hand
in front of them. -/
theorem SameAround.sublist_closing (same : SameAround source source' place o o')
    (hfront : ∀ x ∈ Tree.flats front, x.stop ≤ place) :
    (views source (declarations source (some kind) (bodyTrees kind front))).Sublist
      (views source'
        (declarations source' (some kind) (bodyTrees kind (front ++ new)))) := by
  by_cases hnone : bodyTrees kind front = []
  · rw [hnone]
    exact List.nil_sublist _
  · obtain ⟨start, hsplit, -, hbodies⟩ := exists_constants hnone
    have hbody : ∀ x ∈ Tree.flats (bodyTrees kind front), x.stop ≤ place := by
      intro x hx
      exact hfront x
        ((Tree.flats_sublist (bodyTrees_suffix kind front).sublist).subset hx)
    rw [views_declarations_take same.front hbody]
    conv => rhs; rw [hsplit, List.append_assoc, hbodies]
    obtain ⟨more, hmore⟩ :=
      declarations_prefix source' (some kind) (bodyTrees kind front) new
    rw [← hmore, views_append]
    exact List.sublist_append_left _ _

/-- **Exchanged items**: what was read by hand is read again, in its order, when
what goes was not. -/
theorem SameAround.views_sublist (same : SameAround source source' place o o')
    (h : MayChange kind front gone (back.map (Tree.moved o)))
    (hgone : views source (declarations source (some kind) gone) = [])
    (settled : Settled (inAnnotationBody (some kind)) new)
    (hfront : ∀ x ∈ Tree.flats front, x.stop ≤ place) :
    (views source (declarations source (some kind)
      (bodyTrees kind (front ++ (gone ++ back.map (Tree.moved o)))))).Sublist
    (views source' (declarations source' (some kind)
      (bodyTrees kind (front ++ (new ++ back.map (Tree.moved o')))))) := by
  generalize hback : back.map (Tree.moved o) = back' at h
  cases h with
  | between bodies settledFront settledGone =>
    rw [Tree.flats_append, List.forall_mem_append] at hfront
    rw [List.append_assoc, List.append_assoc, bodies, bodies,
      declarations_append settledFront, declarations_append settledFront,
      declarations_append settledGone, declarations_append settled]
    simp only [views_append, hgone, ← views_declarations_take same.front hfront.2,
      List.nil_append, ← hback, same.views_behind]
    exact (List.Sublist.refl _).append (List.sublist_append_right _ _)
  | opening =>
    subst hback
    exact same.sublist_opening settled
  | closing =>
    have hnil : back = [] := List.map_eq_nil_iff.mp hback
    subst hnil
    simp only [List.map_nil, List.append_nil]
    exact same.sublist_closing hfront

end

end Graft.Merge
