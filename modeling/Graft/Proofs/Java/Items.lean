import Graft.Java.Source
import Graft.Proofs.Java.Brackets

/-!
# The items of a source

A declaration is read from the trees of its item (`ReadFrom`): they begin where
it begins, and its annotations are those in front of them. What a list of trees
is read to comes from its own items, from the lists further behind and from the
bodies of types (`mem_members_cons`); so what holds of the trees from a position
on, at any depth, holds of those that the declaration there is read from
(`exists_readFrom`).
-/

namespace Graft.Java

/-! ## Taking an item -/

theorem takeItem_append (inAnnotationType assigned : Bool) (trees : List Tree) :
    (takeItem inAnnotationType assigned trees).1 ++
      (takeItem inAnnotationType assigned trees).2.2 = trees := by
  induction trees generalizing assigned with
  | nil => rfl
  | cons t rest ih =>
    rw [takeItem]
    split
    · rfl
    · exact congrArg (t :: ·) (ih _)

/-- Trees that end no item go to the one that follows. -/
theorem takeItem_passing {front : List Tree}
    (h : ∀ t ∈ front, t.isSign ";" = false ∧ t.isBlock = false)
    (inAnnotationType assigned : Bool) (rest : List Tree) :
    ∃ assigned', takeItem inAnnotationType assigned (front ++ rest) =
      (front ++ (takeItem inAnnotationType assigned' rest).1,
        (takeItem inAnnotationType assigned' rest).2) := by
  induction front generalizing assigned with
  | nil => exact ⟨assigned, rfl⟩
  | cons t front ih =>
    obtain ⟨⟨hsign, hblock⟩, hfront⟩ := List.forall_mem_cons.mp h
    obtain ⟨assigned', htake⟩ := ih hfront
      (assigned || t.isSign "=" || (inAnnotationType && t.isWord "default"))
    refine ⟨assigned', ?_⟩
    rw [List.cons_append, takeItem, hsign, hblock, Bool.false_and, Bool.or_false,
      if_neg Bool.false_ne_true]
    dsimp only
    rw [htake]
    rfl

/-- An item begins with the first tree, whatever that is, and holds
no other trees. -/
theorem takeItem_cons (inAnnotationType assigned : Bool) (t : Tree)
    (trees : List Tree) :
    ∃ item, (takeItem inAnnotationType assigned (t :: trees)).1 = t :: item ∧
      item <+: trees := by
  rw [takeItem]
  split
  · exact ⟨[], rfl, List.nil_prefix⟩
  · exact ⟨_, rfl, _, takeItem_append _ _ trees⟩

theorem behindConstants_suffix (trees : List Tree) :
    behindConstants trees <:+ trees := by
  induction trees with
  | nil => exact List.suffix_rfl
  | cons t rest ih =>
    rw [behindConstants]
    split
    · exact List.suffix_cons t rest
    · exact ih.trans (List.suffix_cons t rest)

/-- Every tree has a token at least. -/
theorem length_le_sizes (trees : List Tree) : trees.length ≤ Tree.sizes trees := by
  induction trees with
  | nil => exact Nat.le_refl _
  | cons t rest ih =>
    have hsize : 1 ≤ t.size := by
      cases t <;> simp [Tree.size]
    rw [Tree.sizes, List.length_cons]
    omega

/-! ## The declaration of an item -/

/-- A declaration is read from the item that trees begin with. -/
inductive ReadFrom (source : Text) (d : Declaration) : List Tree → Prop
  | item {t : Tree} {trees item rest : List Tree} {inAnnotationType finished : Bool}
      (taken : takeItem inAnnotationType false (t :: trees) = (item, finished, rest))
      (span : d.span = .between t.first
        (((item.filter (!·.isStray)).getLast?.map Tree.last).getD t.first))
      (annotations : d.modifiers.annotations =
        (readModifiers (source.take d.span.stop) (Tree.sizes item + 1)
          (item.filter (!·.isStray))).1.annotations) :
      ReadFrom source d (t :: trees)

theorem ReadFrom.exists_item {source : Text} {d : Declaration} {trees : List Tree}
    (h : ReadFrom source d trees) : ∃ inAnnotationType, ∃ first : Token,
      let item := (takeItem inAnnotationType false trees).1
      let clean := item.filter (!·.isStray)
      d.span = .between first ((clean.getLast?.map Tree.last).getD first) ∧
        d.modifiers.annotations =
          (readModifiers (source.take d.span.stop)
            (Tree.sizes item + 1) clean).1.annotations := by
  cases h with
  | @item t _ _ _ inAnnotationType _ taken span annotations =>
    refine ⟨inAnnotationType, t.first, ?_⟩
    rw [taken]
    exact ⟨span, annotations⟩

/-- What is read behind modifiers, if it is a declaration, has the span, the
comment and the annotations that it is given, and declares no type. -/
def PlainMember.Keeps (span : Span) (doc : Option Span) (m : Modifiers) :
    PlainMember → Prop
  | .declaration d =>
      d.span = span ∧ d.doc = doc ∧ d.modifiers.annotations = m.annotations ∧
    ∀ t, d ≠ .nested t
  | .passedOver => True
  | .malformed => True

section

variable {source : Text} {depth : Nat} {kind : TypeKind} {m : Modifiers} {span : Span}
  {doc : Option Span}

theorem keeps_field (typeText : Text) (rest : List Tree) :
    (readPlainMember.field source kind m span doc typeText rest).Keeps span doc m := by
  unfold readPlainMember.field
  split
  · trivial
  · dsimp only
    split <;> exact ⟨rfl, rfl, rfl, fun _ h => nomatch h⟩

theorem keeps_fieldOrMethod (trees : List Tree) :
    (readPlainMember.fieldOrMethod source depth kind m span doc trees).Keeps
      span doc m := by
  unfold readPlainMember.fieldOrMethod
  split
  · trivial
  · dsimp only
    split
    · split
      · split
        · trivial
        · exact ⟨rfl, rfl, rfl, fun _ h => nomatch h⟩
      · exact keeps_field _ _
    · exact keeps_field _ _

theorem keeps_readPlainMember (trees : List Tree) :
    (readPlainMember source depth kind m span doc trees).Keeps span doc m := by
  unfold readPlainMember
  dsimp only
  split
  · split
    · split
      · trivial
      · exact ⟨rfl, rfl, rfl, fun _ h => nomatch h⟩
    · split
      · trivial
      · exact keeps_fieldOrMethod _
  · split
    · trivial
    · exact keeps_fieldOrMethod _
  · trivial

/-- A member among the items read of an item without a type. -/
theorem keeps_of_mem_readPlainItem {clean behind : List Tree} {d : Declaration}
    (h : .member d ∈ (readPlainItem source depth kind m span doc clean behind).1) :
    d.span = span ∧ d.doc = doc ∧ d.modifiers.annotations = m.annotations ∧ ∀ t,
    d ≠ .nested t := by
  have hkeeps :
      (readPlainMember source depth kind m span doc behind).Keeps span doc m :=
    keeps_readPlainMember behind
  unfold readPlainItem at h
  split at h
  · cases h
  · split at h
    · next d' hread =>
      rw [hread] at hkeeps
      cases List.mem_singleton.mp h
      exact hkeeps
    · cases h
    · cases h

end

/-! ## Members of a list of trees -/

theorem Reading.mem_members_iff {r : Reading} {d : Declaration} :
    d ∈ r.members ↔ .member d ∈ r.items := by
  unfold Reading.members
  rw [List.mem_filterMap]
  constructor
  · rintro ⟨i, hi, heq⟩
    cases i with
    | member d' =>
      cases heq
      exact hi
    | package | importOf => cases heq
  · intro h
    exact ⟨_, h, rfl⟩

/-- The body of a nested type is read from inside the brackets
that end its item. -/
def BodyFrom (source : Text) (n : Nat) (trees : List Tree) (d : Declaration) : Prop :=
  ∀ t, d = .nested t → ∃ left inside right kind body, .group left inside right ∈ trees ∧
    body <:+ inside ∧ t.members = (readItems source n (some kind) false body).members

/-- A member of a list of trees is read from its first item or comes from
those behind it. -/
theorem mem_members_cons {source : Text} {n : Nat} {within : Option TypeKind}
    {inRun : Bool} {t : Tree} {trees : List Tree} {d : Declaration}
    (h : d ∈ (readItems source (n + 1) within inRun (t :: trees)).members) :
    (ReadFrom source d (t :: trees) ∧ BodyFrom source n (t :: trees) d) ∨
      ∃ inRun' rest, rest <:+ t :: trees ∧
        d ∈ (readItems source n within inRun' rest).members := by
  rw [Reading.mem_members_iff, readItems] at h
  split at h
  · refine .inr ⟨true, trees, List.suffix_cons t trees, ?_⟩
    rw [Reading.mem_members_iff]
    exact h
  · have hsplit := takeItem_append (within == some .annotationType) false (t :: trees)
    generalize htake : takeItem (within == some .annotationType) false (t :: trees) =
      taken at h hsplit
    obtain ⟨item, finished, rest⟩ := taken
    dsimp only at h hsplit
    have hrest : rest <:+ t :: trees := ⟨item, hsplit⟩
    split at h
    · cases h
    · split at h
      · next kind name left inner right _ hlast =>
        rcases List.mem_cons.mp h with hfirst | hlater
        · cases hfirst
          refine .inl ⟨.item htake rfl rfl, ?_⟩
          intro t' ht'
          cases ht'
          have hgroup : .group left inner right ∈ item :=
            (List.mem_filter.mp (List.mem_of_getLast? hlast)).1
          refine ⟨left, inner, right, kind, _, ?_, ?_, rfl⟩
          · exact hsplit ▸ List.mem_append_left rest hgroup
          · split
            · exact behindConstants_suffix inner
            · exact List.suffix_rfl
        · exact .inr ⟨_, rest, hrest, Reading.mem_members_iff.mpr hlater⟩
      · rcases List.mem_append.mp h with hfirst | hlater
        · split at hfirst
          · obtain ⟨hspan, -, hannotations, hplain⟩ := keeps_of_mem_readPlainItem hfirst
            refine .inl ⟨.item htake hspan ?_, fun t ht => absurd ht (hplain t)⟩
            rw [hannotations, hspan]
            rfl
          · split at hfirst
            · split at hfirst
              · cases List.mem_singleton.mp hfirst
              · split at hfirst
                · cases List.mem_singleton.mp hfirst
                · cases hfirst
            · cases hfirst
        · exact .inr ⟨false, rest, hrest, Reading.mem_members_iff.mpr hlater⟩

/-! ## Members at any depth -/

/-- A declaration stands in a list of members, or in the body of a type among
them, at any depth. -/
inductive Declaration.IsIn (d : Declaration) : List Declaration → Prop
  | here {members : List Declaration} (mem : d ∈ members) : d.IsIn members
  | inside {t : TypeDecl} {members : List Declaration} (nested : .nested t ∈ members)
      (more : d.IsIn t.members) : d.IsIn members

variable {source : Text} {position : Nat} {holds : List Tree → Prop}

/-- What holds of the trees from a position on holds where a member is read,
and in its body. -/
theorem holdAt_of_mem_members {n : Nat} {within : Option TypeKind} {inRun : Bool}
    {trees : List Tree} (h : HoldAt position holds trees) {d : Declaration}
    (hd : d ∈ (readItems source n within inRun trees).members) :
    (∃ us, HoldAt position holds us ∧ ReadFrom source d us) ∧
      ∀ t, d = .nested t → ∃ n' kind us, HoldAt position holds us ∧
        t.members = (readItems source n' (some kind) false us).members := by
  induction n generalizing within inRun trees with
  | zero => cases hd
  | succ n ih =>
    cases trees with
    | nil => cases hd
    | cons u rest =>
      rcases mem_members_cons hd with ⟨hread, hbody⟩ | ⟨inRun', rest', hsuffix, hlater⟩
      · refine ⟨⟨_, h, hread⟩, fun t ht => ?_⟩
        obtain ⟨left, inside, right, kind, body, hgroup, hsuffix,
            hmembers⟩ := hbody t ht
        exact ⟨n, kind, body, (h.inner hgroup).suffix hsuffix, hmembers⟩
      · exact ih (h.suffix hsuffix) hlater

theorem Declaration.IsIn.exists_readFrom {d : Declaration}
    {members : List Declaration} (h : d.IsIn members) {n : Nat}
    {within : Option TypeKind} {inRun : Bool} {trees : List Tree}
    (hmembers : members = (readItems source n within inRun trees).members)
    (htrees : HoldAt position holds trees) :
    ∃ us, HoldAt position holds us ∧ ReadFrom source d us := by
  induction h generalizing n within inRun trees with
  | here mem => exact (holdAt_of_mem_members htrees (hmembers ▸ mem)).1
  | inside nested _ ih =>
    obtain ⟨n', kind, us, hus, hinside⟩ :=
      (holdAt_of_mem_members htrees (hmembers ▸ nested)).2 _ rfl
    exact ih hinside hus

/-- The types of a source are members of its trees. -/
theorem mem_types_foldl_add {t : TypeDecl} {items : List Item} {u : CompilationUnit}
    (h : t ∈ (items.foldl CompilationUnit.add u).types) :
    t ∈ u.types ∨ .member (.nested t) ∈ items := by
  induction items generalizing u with
  | nil => exact .inl h
  | cons i items ih =>
    rcases ih h with hfirst | hlater
    · cases i with
      | package | importOf => exact .inl hfirst
      | member d =>
        cases d with
        | field | method | constructor => exact .inl hfirst
        | nested t' =>
          rcases List.mem_append.mp hfirst with hold | hnew
          · exact .inl hold
          · rw [List.mem_singleton.mp hnew]
            exact .inr List.mem_cons_self
    · exact .inr (List.mem_cons_of_mem i hlater)

/-- **What holds of the trees from a position on** holds of those that a
declaration there is read from. -/
theorem exists_readFrom {t : TypeDecl} {d : Declaration}
    (ht : t ∈ (CompilationUnit.read source).types) (hd : d.IsIn t.members)
    (hstart : d.span.start = position)
    (h : HoldAt position holds (Tree.ofTokens (tokens source))) :
    ∃ us, holds us ∧ ReadFrom source d us := by
  rcases mem_types_foldl_add ht with hnone | hmem
  · cases hnone
  · have hinside : d.IsIn (readItems source ((tokens source).length + 1) none false
        (Tree.ofTokens (tokens source))).members :=
          .inside (Reading.mem_members_iff.mpr hmem) hd
    obtain ⟨us, hus, hread⟩ := hinside.exists_readFrom rfl h
    cases hread with
    | @item u trees item rest _ _ taken span annotations =>
      refine ⟨_, (HoldAt.cons_iff.mp hus).1 ?_, .item taken span annotations⟩
      rw [← hstart, span]
      rfl

end Graft.Java
