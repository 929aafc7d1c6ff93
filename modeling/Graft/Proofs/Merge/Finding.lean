import Graft.Proofs.Java.Bodies
import Graft.Proofs.Merge.Lookup

/-!
# Types whose bodies are filled otherwise

A search finds a type in the body of another, and that one in the body of a
third (`Holds`). When the body of the innermost one is filled otherwise, and
what follows it is moved, the search still finds that type, at the same depth
(`Holds.refill`): it meets types of the same names in the same order
(`SearchedAlike`).
-/

namespace Graft.Merge

open Java

/-- The types among declarations. -/
def nestedIn (members : List Declaration) : List TypeDecl :=
  members.filterMap fun
    | .nested inner => some inner
    | _ => none

theorem nestedTypes_eq (t : TypeDecl) : t.nestedTypes = nestedIn t.members := rfl

theorem nestedIn_append (xs ys : List Declaration) :
    nestedIn (xs ++ ys) = nestedIn xs ++ nestedIn ys :=
  List.filterMap_append

theorem mem_nestedIn_iff {members : List Declaration} {t : TypeDecl} :
    t ∈ nestedIn members ↔ .nested t ∈ members := by
  unfold nestedIn
  rw [List.mem_filterMap]
  constructor
  · rintro ⟨d, hd, heq⟩
    cases d with
    | nested t' =>
      cases heq
      exact hd
    | field | method | constructor => cases heq
  · intro h
    exact ⟨_, h, rfl⟩

/-! ## Searches that go alike -/

/-- A search for a name meets, in two lists of types, types of the same
names, down to the level on which the name is found; there the types of the
name are related. -/
def SearchedAlike (name : Text) (R : TypeDecl → TypeDecl → Prop) : (levels : Nat) →
    (types types' : List TypeDecl) → Prop
  | 0, _, _ => True
  | n + 1, types, types' =>
    List.Forall₂ (fun t t' => t'.name = t.name ∧ (t.name = name → R t t'))
      types types' ∧
      ((∀ t ∈ types, t.name ≠ name) →
        SearchedAlike name R n (types.flatMap TypeDecl.nestedTypes)
          (types'.flatMap TypeDecl.nestedTypes))

section

variable {name : Text} {R : TypeDecl → TypeDecl → Prop} {levels : Nat}
  {types types' more more' : List TypeDecl}

theorem SearchedAlike.append (h : SearchedAlike name R levels types types')
    (h' : SearchedAlike name R levels more more') :
    SearchedAlike name R levels (types ++ more) (types' ++ more') := by
  induction levels generalizing types types' more more' with
  | zero => trivial
  | succ n ih =>
    refine ⟨List.rel_append h.1 h'.1, fun hnone => ?_⟩
    rw [List.forall_mem_append] at hnone
    rw [List.flatMap_append, List.flatMap_append]
    exact ih (h.2 hnone.1) (h'.2 hnone.2)

/-- Types that are related at every depth are searched alike. -/
theorem SearchedAlike.of_forall₂ {S : TypeDecl → TypeDecl → Prop}
    (names : ∀ t t', S t t' → t'.name = t.name) (related : ∀ t t', S t t' → R t t')
    (inside : ∀ t t', S t t' → List.Forall₂ S t.nestedTypes t'.nestedTypes)
    (h : List.Forall₂ S types types') : SearchedAlike name R levels types types' := by
  induction levels generalizing types types' with
  | zero => trivial
  | succ n ih =>
    refine ⟨h.imp fun t t' hS => ⟨names t t' hS, fun _ => related t t' hS⟩,
      fun _ => ih ?_⟩
    exact List.rel_flatMap h fun t t' hS => inside t t' hS

/-- Among types of the same names, the first ones of a name stand in
the same places. -/
theorem find?_alike {ts ts' : List TypeDecl}
    (h : List.Forall₂
      (fun t t' => t'.name = t.name ∧ (t.name = name → R t t')) ts ts') :
    (∀ t, ts.find? (·.name == name) = some t →
      ∃ t', ts'.find? (·.name == name) = some t' ∧ R t t') ∧
      (ts.find? (·.name == name) = none → ts'.find? (·.name == name) = none) := by
  induction h with
  | nil => exact ⟨fun _ ht => absurd ht (by simp), fun _ => rfl⟩
  | @cons t t' ts ts' hhead _ ih =>
    by_cases ht : t.name = name
    · rw [List.find?_cons_of_pos (by simp [ht]),
        List.find?_cons_of_pos (by simp [hhead.1, ht])]
      refine ⟨fun u hu => ?_, fun hnone => by cases hnone⟩
      cases hu
      exact ⟨t', rfl, hhead.2 ht⟩
    · rw [List.find?_cons_of_neg (by simp [ht]),
        List.find?_cons_of_neg (by simp [hhead.1, ht])]
      exact ih

/-- Searches that go alike find related types, at the same depth. -/
theorem SearchedAlike.locateFrom (h : SearchedAlike name R levels types types')
    {depth : Nat} {t : TypeDecl} {d : Nat}
    (found : locateFrom name levels depth types = some (t, d)) :
    ∃ t', Merge.locateFrom name levels depth types' = some (t', d) ∧ R t t' := by
  induction levels generalizing depth types types' with
  | zero => cases found
  | succ n ih =>
    rw [Merge.locateFrom] at found ⊢
    have hlevel := find?_alike h.1
    cases hsome : types.find? (·.name == name) with
    | some u =>
      obtain ⟨t', ht', hR⟩ := hlevel.1 u hsome
      rw [hsome] at found
      cases found
      exact ⟨t', by rw [ht'], hR⟩
    | none =>
      rw [hsome] at found
      simp only [hlevel.2 hsome]
      refine ih (h.2 fun u hu heq => ?_) found
      have hnone := List.find?_eq_none.mp hsome u hu
      exact hnone (by simp [heq])

/-- What is found is found however many more levels may be searched. -/
theorem locateFrom_levels {depth n m : Nat} {found : TypeDecl × Nat}
    (h : Merge.locateFrom name n depth types = some found)
    (hm : typesHeight types ≤ m) :
    Merge.locateFrom name m depth types = some found := by
  induction n generalizing m depth types with
  | zero => cases h
  | succ n ih =>
    cases m with
    | zero =>
      rw [eq_nil_of_typesHeight hm] at h
      rw [Merge.locateFrom] at h
      exact (ih h (m := 0) (Nat.le_refl _)).symm ▸ rfl
    | succ m =>
      rw [Merge.locateFrom] at h ⊢
      split at h
      · exact h
      · exact ih h (typesHeight_flatMap_le hm)

end

/-! ## Types that hold others -/

/-- A search leads to a type: among the types that it begins with, or in the
body of one of another name. -/
inductive LeadsTo (name : Text) (type : TypeDecl) : List TypeDecl → Prop
  | here {types : List TypeDecl} (mem : type ∈ types) (name_eq : type.name = name) :
      LeadsTo name type types
  | inside {types : List TypeDecl} {outer : TypeDecl} (mem : outer ∈ types)
      (other : outer.name ≠ name) (more : LeadsTo name type outer.nestedTypes) :
      LeadsTo name type types

theorem leadsTo_of_locateFrom {name : Text} {levels depth d : Nat}
    {types : List TypeDecl} {type : TypeDecl}
    (h : locateFrom name levels depth types = some (type, d)) :
    LeadsTo name type types := by
  induction levels generalizing depth types with
  | zero => cases h
  | succ n ih =>
    rw [locateFrom] at h
    split at h
    · next t hfind =>
      cases h
      exact .here (List.mem_of_find?_eq_some hfind)
        (by simpa using List.find?_some hfind)
    · next hnone =>
      have hother : ∀ outer ∈ types, outer.name ≠ name := by
        intro outer houter heq
        exact List.find?_eq_none.mp hnone outer houter (by simp [heq])
      cases ih h with
      | here mem name_eq =>
        obtain ⟨outer, houter, hmem⟩ := List.mem_flatMap.mp mem
        exact .inside houter (hother outer houter) (.here hmem name_eq)
      | inside mem other more =>
        obtain ⟨outer, houter, hmem⟩ := List.mem_flatMap.mp mem
        exact .inside houter (hother outer houter) (.inside hmem other more)

/-- Trees hold a type that a search leads to: the tokens in front of its body,
what is between the braces, and the tokens behind it. -/
inductive Holds (source name : Text) (type : TypeDecl) :
    (within : Option TypeKind) → (trees : List Tree) →
    (before : List Token) → (left : Token) → (inner : List Tree) → (right : Token) →
    (after : List Token) → Prop
  | here {within : Option TypeKind} {front header inner behind : List Tree}
      {left right : Token} (settled : Settled (inAnnotationBody within) front)
      (declares : DeclaresType source within type header left inner right)
      (name_eq : type.name = name) :
      Holds source name type within
        (front ++ (header ++ .group left inner right :: behind))
        (Tree.flats front ++ Tree.flats header) left inner right (Tree.flats behind)
  | inside {within : Option TypeKind}
      {front header outerFront body inner behind : List Tree}
      {outerLeft outerRight left right : Token} {before after : List Token}
      {outer : TypeDecl} (settled : Settled (inAnnotationBody within) front)
      (declares : DeclaresType source within outer header outerLeft
        (outerFront ++ body) outerRight) (other : outer.name ≠ name)
    (bodies : ∀ body, bodyTrees outer.kind (outerFront ++ body) = body)
    (more : Holds source name type (some outer.kind) body before left inner
      right after) :
      Holds source name type within
        (front ++
          (header ++ .group outerLeft (outerFront ++ body) outerRight :: behind))
        (Tree.flats front ++ Tree.flats header ++
          outerLeft :: Tree.flats outerFront ++ before)
        left inner right
        (after ++ outerRight :: Tree.flats behind)

theorem exists_holds {source name : Text} {type : TypeDecl} {types : List TypeDecl}
    (h : LeadsTo name type types) {within : Option TypeKind} {trees : List Tree}
    (htypes : types = nestedIn (declarations source within trees)) :
    ∃ before left inner right after,
      Holds source name type within trees before left inner right after := by
  induction h generalizing within trees with
  | here mem name_eq =>
    rw [htypes, mem_nestedIn_iff] at mem
    obtain ⟨front, header, left, inner, right, behind, rfl, hfront, hdeclares⟩ :=
      exists_declaresType mem
    exact ⟨_, _, _, _, _, .here hfront hdeclares name_eq⟩
  | @inside _ outer mem other _ ih =>
    rw [htypes, mem_nestedIn_iff] at mem
    obtain ⟨front, header, left, inner, right, behind, rfl, hfront, hdeclares⟩ :=
      exists_declaresType mem
    obtain ⟨before, left', inner', right', after, hmore⟩ :=
      ih (congrArg nestedIn hdeclares.reads.2.1)
    have hne : bodyTrees outer.kind inner ≠ [] := by
      intro hnil
      rw [hnil] at hmore
      generalize htrees : ([] : List Tree) = none' at hmore
      cases hmore <;> simp at htrees
    obtain ⟨outerFront, hinner, -, hbodies⟩ := exists_constants hne
    rw [hinner] at hdeclares ⊢
    exact ⟨_, _, _, _, _, .inside hfront hdeclares other hbodies hmore⟩

namespace Holds

variable {source name : Text} {type : TypeDecl} {within : Option TypeKind}
    {trees inner : List Tree} {before after : List Token} {left right : Token}

theorem flats_eq
    (h : Holds source name type within trees before left inner right after) :
    Tree.flats trees = before ++ left :: (Tree.flats inner ++ right :: after) := by
  induction h with
  | here => simp
  | inside _ _ _ _ _ ih => simp [ih]

theorem reads (h : Holds source name type within trees before left inner right after) :
    left.isSign ['\x7b'] = true ∧ type.body = .between left right ∧
      type.members = declarations source (some type.kind)
        (bodyTrees type.kind inner) := by
  induction h with
  | here _ declares _ =>
    exact ⟨declares.reads.1, declares.reads.2.2, declares.reads.2.1⟩
  | inside _ _ _ _ _ ih => exact ih

theorem nested (h : Holds source name type within trees before left inner right after)
    {closing : Option Text} (hnested : Nested closing trees) :
    closingOf? left = some right.text ∧
      closingOf? right = none ∧ isClosing right = true ∧
      Nested (some right.text) inner := by
  induction h generalizing closing with
  | here _ _ _ => exact hnested.of_mem (by simp)
  | inside _ _ _ _ _ ih =>
    obtain ⟨-, -, -, hwithin⟩ := hnested.of_mem (List.mem_append_right _
      (List.mem_append_right _ List.mem_cons_self))
    exact ih (Nested.append_iff.mp hwithin).2

end Holds

/-! ## Around a body -/

/-- Two sources that are the same up to a place, and the same again
behind two others. -/
structure SameAround (source source' : Text) (place : Nat) (o o' : Offset) : Prop where
  front : source.take place = source'.take place
  behind : ∃ start start' rest, source = start ++ rest ∧ source' = start' ++ rest ∧
    o.position = start.length ∧ o'.position = start'.length

/-- What is the same in types that stand apart from a body: they end in front of
it, or they stand behind it, at two places. -/
def StandsApart (place : Nat) (o o' : Offset) (t t' : TypeDecl) : Prop :=
  (t' = t ∧ ∀ d : Declaration, d.IsIn t.members → d.span.stop ≤ place) ∨
    ∃ t₀ : TypeDecl, t = t₀.moved o ∧ t' = t₀.moved o'

theorem nestedIn_moved (o : Offset) (members : List Declaration) :
    nestedIn (members.map (Declaration.moved o)) =
      (nestedIn members).map (TypeDecl.moved o) := by
  induction members with
  | nil => rfl
  | cons d members ih =>
    cases d with
    | nested t =>
      rw [List.map_cons, Declaration.moved]
      exact congrArg (t.moved o :: ·) ih
    | field | method | constructor =>
      rw [List.map_cons, Declaration.moved]
      exact ih

section

variable {source source' name : Text} {place levels : Nat} {o o' : Offset}
    {R : TypeDecl → TypeDecl → Prop} {within : Option TypeKind} {trees : List Tree}

theorem StandsApart.searchedAlike {types types' : List TypeDecl}
    (apart : ∀ t t', StandsApart place o o' t t' → R t t')
    (h : List.Forall₂ (StandsApart place o o') types types') :
    SearchedAlike name R levels types types' := by
  refine .of_forall₂ ?_ apart ?_ h
  · rintro t t' (⟨rfl, -⟩ | ⟨t₀, rfl, rfl⟩)
    · rfl
    · rw [TypeDecl.name_moved, TypeDecl.name_moved]
  · rintro t t' (⟨rfl, hstop⟩ | ⟨t₀, rfl, rfl⟩)
    · refine List.forall₂_same.mpr fun u hu => .inl ⟨rfl, fun d hd => hstop d ?_⟩
      exact .inside (mem_nestedIn_iff.mp hu) hd
    · rw [nestedTypes_eq, nestedTypes_eq, TypeDecl.members_moved,
        TypeDecl.members_moved, nestedIn_moved, nestedIn_moved,
        List.forall₂_map_left_iff, List.forall₂_map_right_iff]
      exact List.forall₂_same.mpr fun u _ => .inr ⟨u, rfl, rfl⟩

/-- Types in front of a body are found as they were. -/
theorem SameAround.searchedAlike_front (same : SameAround source source' place o o')
    (apart : ∀ t t', StandsApart place o o' t t' → R t t')
    (h : ∀ x ∈ Tree.flats trees, x.stop ≤ place) :
    SearchedAlike name R levels (nestedIn (declarations source within trees))
      (nestedIn (declarations source' within trees)) := by
  rw [← declarations_take same.front h]
  refine StandsApart.searchedAlike apart
    (List.forall₂_same.mpr fun t ht => .inl ⟨rfl, fun d hd => ?_⟩)
  exact stop_le_of_isIn (.inside (mem_nestedIn_iff.mp ht) hd) h

/-- Types behind a body are found where they went. -/
theorem SameAround.searchedAlike_behind (same : SameAround source source' place o o')
    (apart : ∀ t t', StandsApart place o o' t t' → R t t') :
    SearchedAlike name R levels
      (nestedIn (declarations source within (trees.map (Tree.moved o))))
      (nestedIn (declarations source' within (trees.map (Tree.moved o')))) := by
  obtain ⟨start, start', rest, rfl, rfl, ho, ho'⟩ := same.behind
  rw [declarations_moved ho, declarations_moved ho', nestedIn_moved, nestedIn_moved]
  apply StandsApart.searchedAlike apart
  rw [List.forall₂_map_left_iff, List.forall₂_map_right_iff]
  exact List.forall₂_same.mpr fun u _ => .inr ⟨u, rfl, rfl⟩

variable {type : TypeDecl} {inner inner' : List Tree} {before after after₀ : List Token}
  {left right right' : Token}

/-- An item that declares a type, among others, is met where it was. -/
theorem SameAround.searchedAlike_item (same : SameAround source source' place o o')
    (apart : ∀ t t', StandsApart place o o' t t' → R t t')
    {front header behind inner inner' : List Tree} {outer outer' : TypeDecl}
    (settled : Settled (inAnnotationBody within) front)
    (declares : DeclaresType source within outer header left inner right)
    (declares' : DeclaresType source' within outer' header left inner' right')
    (hfront : ∀ x ∈ Tree.flats front, x.stop ≤ place)
    (h : SearchedAlike name R levels [outer] [outer']) :
    SearchedAlike name R levels
      (nestedIn (declarations source within
        (front ++ (header ++ .group left inner right :: behind.map (Tree.moved o)))))
      (nestedIn (declarations source' within
        (front ++
          (header ++ .group left inner' right' :: behind.map (Tree.moved o'))))) := by
  rw [declarations_append settled, declarations_append settled,
    declares.declarations_eq, declares'.declarations_eq, nestedIn_append,
    nestedIn_append]
  exact (same.searchedAlike_front apart hfront).append
    (h.append (same.searchedAlike_behind apart))

/-- Brackets stay closed when a block is filled otherwise. -/
theorem nested_refill {closing : Option Text} {front header behind : List Tree}
    (h : Nested closing
      (front ++ (header ++ .group left inner right :: behind.map (Tree.moved o))))
    (halike : right.Alike right')
    (hinner : Nested (some right.text) inner → Nested (some right.text) inner') :
    Nested closing
      (front ++
        (header ++ .group left inner' right' :: behind.map (Tree.moved o'))) := by
  rw [Nested.append_iff, Nested.append_iff] at h ⊢
  refine ⟨h.1, h.2.1, ?_⟩
  cases h.2.2 with
  | group fits opensNone closes within more =>
    refine .group (halike.2 ▸ fits) (halike.closingOf?_eq.trans opensNone)
      (halike.isClosing_eq.trans closes) (halike.2 ▸ hinner within) ?_
    exact more.of_alike (Tree.allRelated_moved o o' behind)

/-- **A body filled otherwise**: when what is around it stays, the search
goes alike, and the types that it finds are related when those with the
two bodies are. -/
theorem Holds.refill
    (h : Holds source name type within trees before left inner right after)
    (same : SameAround source source' place o o')
    (apart : ∀ t t', StandsApart place o o' t t' → R t t')
    (hbefore : ∀ x ∈ before, x.stop ≤ place)
    (hafter : after = after₀.map (Token.moved o))
    (fills : ∀ type' : TypeDecl, type'.members =
      declarations source' (some type.kind) (bodyTrees type.kind inner') → R type type')
    (halike : right.Alike right') (hnested : Nested (some right.text) inner') :
    ∃ trees', Tree.flats trees' =
        before ++ left :: (Tree.flats inner' ++ right' :: after₀.map (Token.moved o')) ∧
      (∀ closing, Nested closing trees → Nested closing trees') ∧
      ∀ levels,
        SearchedAlike name R levels (nestedIn (declarations source within trees))
          (nestedIn (declarations source' within trees')) := by
  -- from the type outward: every type around it is refilled with the body that
  -- the step inside gives
  induction h generalizing after₀ with
  | @here within front header inner behind left right settled declares name_eq =>
    obtain ⟨behind₀, rfl, rfl⟩ := exists_eq_moved hafter
    obtain ⟨type', declares', hname, hkind⟩ := declares.refill source' inner' right'
    refine ⟨front ++
      (header ++ .group left inner' right' :: behind₀.map (Tree.moved o')), by simp,
      fun closing hclosing => ?_, fun levels => ?_⟩
    · exact nested_refill hclosing halike fun _ => hnested
    -- the type is found on this level, so no search goes further in
    · refine same.searchedAlike_item apart settled declares declares'
        (fun x hx => ?_) ?_
      · exact hbefore x (List.mem_append_left _ hx)
      cases levels with
      | zero => trivial
      | succ n =>
        refine ⟨.cons ⟨hname, fun _ => fills type' ?_⟩ .nil, fun hnone => ?_⟩
        · rw [declares'.reads.2.1, hkind]
        · exact absurd name_eq (hnone type List.mem_cons_self)
  | @inside within front header outerFront body inner behind outerLeft outerRight
      left right before
      after outer
      settled declares other bodies more ih =>
    obtain ⟨after₁, outerAfter, rfl, rfl, houter⟩ :=
      List.map_eq_append_iff.mp hafter.symm
    obtain ⟨outerRight, behind₁, rfl, rfl, hbehind⟩ := List.map_eq_cons_iff.mp houter
    obtain ⟨behind₀, rfl, rfl⟩ := exists_eq_moved hbehind.symm
    rw [List.append_assoc, List.forall_mem_append] at hbefore
    obtain ⟨hheader, hbefore⟩ := hbefore
    obtain ⟨body', hflats, hclosings, hsearched⟩ :=
      ih (fun x hx => hbefore x (List.mem_cons_of_mem _ (List.mem_append_right _ hx)))
        rfl halike hnested
    obtain ⟨outer', declares', hname, hkind⟩ :=
      declares.refill source' (outerFront ++ body') (outerRight.moved o')
    refine ⟨front ++
      (header ++ .group outerLeft (outerFront ++ body') (outerRight.moved o') ::
      behind₀.map (Tree.moved o')), by simp [hflats], fun closing hclosing => ?_,
      fun levels => ?_⟩
    · refine nested_refill hclosing ⟨rfl, rfl⟩ fun within => ?_
      rw [Nested.append_iff] at within ⊢
      exact ⟨within.1, hclosings _ within.2⟩
    -- the type around it is passed over, and its body is searched one level
    -- further in
    · refine same.searchedAlike_item apart settled declares declares'
        (fun x hx => ?_) ?_
      · exact hheader x (List.mem_append_left _ hx)
      cases levels with
      | zero => trivial
      | succ n =>
        refine ⟨.cons ⟨hname, fun heq => absurd heq other⟩ .nil, fun _ => ?_⟩
        rw [List.flatMap_singleton, List.flatMap_singleton, nestedTypes_eq,
          nestedTypes_eq, declares.reads.2.1, declares'.reads.2.1, hkind,
          bodies, bodies]
        exact hsearched n

end

/-! ## The types of a source -/

/-- The types of a source are those that its trees are read to. -/
theorem types_read {source : Text}
    (closed : Tree.flats (Tree.ofTokens (tokens source)) = tokens source) :
    (CompilationUnit.read source).types =
      nestedIn (declarations source none (Tree.ofTokens (tokens source))) := by
  have hadd : ∀ (items : List Item) (u : CompilationUnit),
      (items.foldl CompilationUnit.add u).types =
      u.types ++ nestedIn (declarationsIn items) := by
    intro items
    induction items with
    | nil => exact fun u => (List.append_nil _).symm
    | cons i items ih =>
      intro u
      rw [List.foldl_cons, ih, ← List.singleton_append, declarationsIn_append,
        nestedIn_append, ← List.append_assoc]
      congr 1
      cases i with
      | package | importOf => exact (List.append_nil _).symm
      | member d =>
        cases d with
        | field | method | constructor => exact (List.append_nil _).symm
        | nested t => rfl
  have hsizes : Tree.sizes (Tree.ofTokens (tokens source)) <
      (tokens source).length + 1 := by
    rw [Tree.sizes_eq_length, closed]
    exact Nat.lt_succ_self _
  rw [CompilationUnit.read, hadd, declarationsIn_items, members_eq hsizes]
  rfl

end Graft.Merge
