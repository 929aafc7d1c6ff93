import Graft.Java.Source
import Graft.Merge.Member
import Mathlib.Data.List.Shortlex
import Mathlib.Logic.Relation

/-!
# Two ways to look up a type

A type of a source is known by its place: which of the types of the file it is,
or stands in, which of the types inside that one, and so on. Every search goes
through the types of all places in an order of its own (`Lists`) and takes the
first one of the name: `locate?` outer types first, level by level, and
`findType?` the types of the file first and then all others in source order.

* `queueFinds_locate?` says that going level by level is going through a queue.
* `locate?_eq` and `findType?_eq` say what each search goes through.
* `lookups_part_at_depth` says what each of them chooses, and when they
  choose the same type.
* `lookups_differ` is a source in which they do not.
-/

namespace Graft.Merge

open Java

/-! ## Places -/

/-- A type at a place: the numbers that lead to it, and the types that it stands
in, outermost first. -/
structure Placed where
  place : List Nat
  outers : List TypeDecl
  type : TypeDecl

/-- Types behind one another, from a number on. -/
def siblings (place : List Nat) (outers : List TypeDecl) :
    (number : Nat) → List TypeDecl → List Placed
  | _, [] => []
  | number, t :: rest =>
    ⟨place ++ [number], outers, t⟩ :: siblings place outers (number + 1) rest

/-- The types of a file, at their places. -/
def outermost (types : List TypeDecl) : List Placed := siblings [] [] 0 types

namespace Placed

/-- The types directly inside a type, at their places. -/
def inside (p : Placed) : List Placed :=
  siblings p.place (p.outers ++ [p.type]) 0 p.type.nestedTypes

/-- A type stands inside another, at any depth, or is that type. -/
def IsWithin (q p : Placed) : Prop :=
  Relation.ReflTransGen (fun outer inner => inner ∈ outer.inside) p q

/-- A type stands at its place in a file. -/
def StandsIn (q : Placed) (types : List TypeDecl) : Prop :=
  ∃ p ∈ outermost types, q.IsWithin p

end Placed

section

variable {place : List Nat} {outers types : List TypeDecl} {number : Nat}

theorem map_type_siblings (place : List Nat) (outers types : List TypeDecl)
    (number : Nat) :
    (siblings place outers number types).map Placed.type = types := by
  induction types generalizing number with
  | nil => rfl
  | cons t rest ih => rw [siblings, List.map_cons, ih]

theorem of_mem_siblings {p : Placed} (h : p ∈ siblings place outers number types) :
    ∃ i, number ≤ i ∧ p.place = place ++ [i] ∧ p.outers = outers ∧ p.type ∈ types := by
  induction types generalizing number with
  | nil => cases h
  | cons t rest ih =>
    rcases List.mem_cons.mp h with rfl | h
    · exact ⟨number, Nat.le_refl _, rfl, rfl, List.mem_cons_self⟩
    · obtain ⟨i, hi, hplace, houters, htype⟩ := ih h
      exact ⟨i, Nat.le_of_succ_le hi, hplace, houters, List.mem_cons_of_mem _ htype⟩

theorem siblings_pairwise (place : List Nat) (outers types : List TypeDecl)
    (number : Nat) :
    (siblings place outers number types).Pairwise fun p q =>
      ∃ i j, i < j ∧ p.place = place ++ [i] ∧ q.place = place ++ [j] := by
  induction types generalizing number with
  | nil => exact .nil
  | cons t rest ih =>
    refine .cons (fun q hq => ?_) (ih _)
    obtain ⟨j, hj, hplace, -⟩ := of_mem_siblings hq
    exact ⟨number, j, hj, rfl, hplace⟩

end

namespace Placed

theorem isWithin_iff {p q : Placed} :
    q.IsWithin p ↔ p = q ∨ ∃ r ∈ p.inside, q.IsWithin r :=
  Relation.ReflTransGen.cases_head_iff

theorem map_type_inside (p : Placed) : p.inside.map type = p.type.nestedTypes :=
  map_type_siblings _ _ _ _

theorem of_mem_inside {p q : Placed} (h : q ∈ p.inside) :
    ∃ i, q.place = p.place ++ [i] ∧ q.outers = p.outers ++ [p.type] ∧
      q.type ∈ p.type.nestedTypes := by
  obtain ⟨i, -, hq⟩ := of_mem_siblings h
  exact ⟨i, hq⟩

/-- What stands inside a type stands behind it at a place that
begins with its own. -/
theorem IsWithin.place_eq {p q : Placed} (h : q.IsWithin p) :
    ∃ more, q.place = p.place ++ more := by
  induction h with
  | refl => exact ⟨[], (List.append_nil _).symm⟩
  | tail _ hinside ih =>
    obtain ⟨more, hmore⟩ := ih
    obtain ⟨i, hplace, -⟩ := of_mem_inside hinside
    exact ⟨more ++ [i], by rw [hplace, hmore, List.append_assoc]⟩

/-- A place has one number more than the type stands in others. -/
theorem StandsIn.length_place {q : Placed} {types : List TypeDecl}
    (h : q.StandsIn types) :
    q.place.length = q.outers.length + 1 := by
  obtain ⟨p, hp, hwithin⟩ := h
  induction hwithin with
  | refl =>
    obtain ⟨i, -, hplace, houters, -⟩ := of_mem_siblings hp
    rw [hplace, houters]
    rfl
  | tail _ hinside ih =>
    obtain ⟨i, hplace, houters, -⟩ := of_mem_inside hinside
    rw [hplace, houters, List.length_append, List.length_append, ih]
    rfl

end Placed

/-! ## How deep types are nested -/

theorem typesHeight_cons (t : TypeDecl) (types : List TypeDecl) :
    typesHeight (t :: types) = max (typeHeight t) (typesHeight types) := rfl

theorem membersHeight_eq (members : List Declaration) : membersHeight members =
    typesHeight (members.filterMap fun
      | .nested inner => some inner
      | _ => none) := by
  induction members with
  | nil => rw [membersHeight]; rfl
  | cons d rest ih =>
    rw [membersHeight, ih]
    cases d with
    | nested t =>
      rw [memberHeight]
      rfl
    | field | method | constructor =>
      rw [memberHeight, Nat.zero_max]
      · rfl
      · nofun

theorem typeHeight_eq (t : TypeDecl) :
    typeHeight t = typesHeight t.nestedTypes + 1 := by
  cases t with
  | mk => rw [typeHeight, membersHeight_eq]; rfl

theorem typesHeight_le_iff {types : List TypeDecl} {n : Nat} :
    typesHeight types ≤ n ↔ ∀ t ∈ types, typeHeight t ≤ n := by
  induction types with
  | nil => simp [typesHeight]
  | cons t rest ih => rw [typesHeight_cons, Nat.max_le, ih, List.forall_mem_cons]

/-- The types inside others are nested one time less deep. -/
theorem typesHeight_flatMap_le {types : List TypeDecl} {n : Nat}
    (h : typesHeight types ≤ n + 1) :
    typesHeight (types.flatMap TypeDecl.nestedTypes) ≤ n := by
  rw [typesHeight_le_iff] at h ⊢
  intro inner hinner
  obtain ⟨t, ht, hmem⟩ := List.mem_flatMap.mp hinner
  have hheight := h t ht
  rw [typeHeight_eq, Nat.add_le_add_iff_right] at hheight
  exact typesHeight_le_iff.mp hheight inner hmem

theorem eq_nil_of_typesHeight {types : List TypeDecl} (h : typesHeight types ≤ 0) :
    types = [] := by
  rw [List.eq_nil_iff_forall_not_mem]
  intro t ht
  have hheight := typesHeight_le_iff.mp h t ht
  rw [typeHeight_eq] at hheight
  omega

/-! ## Going through a queue -/

/-- Going through a queue of types with the depths of their members: the first
type of the name is found, and in front of it every type is taken off and those
inside it are put behind the others. -/
inductive QueueFinds (name : Text) :
    List (TypeDecl × Nat) → Option (TypeDecl × Nat) → Prop
  | nothing : QueueFinds name [] none
  | found {t : TypeDecl} {depth : Nat} {queue : List (TypeDecl × Nat)}
      (h : t.name = name) :
      QueueFinds name ((t, depth) :: queue) (some (t, depth))
  | next {t : TypeDecl} {depth : Nat} {queue : List (TypeDecl × Nat)}
      {result : Option (TypeDecl × Nat)} (h : t.name ≠ name)
      (more : QueueFinds name
        (queue ++ t.nestedTypes.map fun inner => (inner, depth + 1)) result) :
      QueueFinds name ((t, depth) :: queue) result

/-- A level is taken off the queue type by type, while those inside them
gather behind it. -/
theorem queueFinds_level {name : Text} {result : Option (TypeDecl × Nat)}
    (depth : Nat) (level gathered : List TypeDecl)
    (h : QueueFinds name
      ((gathered ++ level.flatMap TypeDecl.nestedTypes).map (·, depth + 1)) result) :
    QueueFinds name (level.map (·, depth) ++ gathered.map (·, depth + 1))
      (match level.find? (·.name == name) with
        | some t => some (t, depth)
        | none => result) := by
  induction level generalizing gathered with
  | nil => simpa using h
  | cons t rest ih =>
    by_cases ht : t.name = name
    · rw [List.find?_cons_of_pos (by simp [ht])]
      exact .found ht
    · rw [List.find?_cons_of_neg (by simp [ht])]
      refine .next ht ?_
      have hrest := ih (gathered ++ t.nestedTypes) (by simpa using h)
      simpa using hrest

theorem queueFinds_locateFrom {name : Text} {n : Nat} {types : List TypeDecl}
    (h : typesHeight types ≤ n) (depth : Nat) :
    QueueFinds name (types.map (·, depth)) (locateFrom name n depth types) := by
  induction n generalizing types depth with
  | zero =>
    rw [eq_nil_of_typesHeight h]
    exact .nothing
  | succ n ih =>
    have hlevel :=
      queueFinds_level depth types [] (ih (typesHeight_flatMap_le h) (depth + 1))
    rwa [List.map_nil, List.append_nil] at hlevel

/-- Going level by level is going through a queue. -/
theorem queueFinds_locate? (types : List TypeDecl) (name : Text) :
    QueueFinds name (types.map (·, 1)) (locate? types name) :=
  queueFinds_locateFrom (Nat.le_refl _) 1

/-! ## The types of all places in an order -/

/-- A list of the types of all places, in an order of their places. -/
structure Lists (before : List Nat → List Nat → Prop) (types : List TypeDecl)
    (all : List Placed) :
    Prop where
  mem_iff : ∀ p, p ∈ all ↔ p.StandsIn types
  sorted : all.Pairwise fun p q => before p.place q.place

/-- Of the types of one name, the one whose place goes before all others. -/
structure IsFirst (before : List Nat → List Nat → Prop) (types : List TypeDecl)
    (name : Text) (p : Placed) : Prop where
  standsIn : p.StandsIn types
  name_eq : p.type.name = name
  first : ∀ q : Placed, q.StandsIn types → q.type.name = name →
    q = p ∨ before p.place q.place

theorem Lists.isFirst {before : List Nat → List Nat → Prop} {types : List TypeDecl}
    {all : List Placed} (h : Lists before types all) {name : Text} {p : Placed}
    (hfind : all.find? (·.type.name == name) = some p) :
    IsFirst before types name p := by
  obtain ⟨hname, front, behind, rfl, hfront⟩ := List.find?_eq_some_iff_append.mp hfind
  refine ⟨(h.mem_iff p).mp (by simp), eq_of_beq hname, fun q hq hqname => ?_⟩
  rcases List.mem_append.mp ((h.mem_iff q).mpr hq) with hmem | hmem
  · have hother := hfront q hmem
    simp [hqname] at hother
  · rcases List.mem_cons.mp hmem with rfl | hmem
    · exact .inl rfl
    · exact .inr
        ((List.pairwise_cons.mp (List.pairwise_append.mp h.sorted).2.1).1 q hmem)

/-- Of the types of one name there is a first, if there are any. -/
theorem Lists.find?_eq_none_iff {before : List Nat → List Nat → Prop}
    {types : List TypeDecl} {all : List Placed} (h : Lists before types all)
    {name : Text} :
    all.find? (·.type.name == name) = none ↔ ∀ q :
    Placed, q.StandsIn types → q.type.name ≠ name := by
  rw [List.find?_eq_none]
  simp only [h.mem_iff, beq_iff_eq, ne_eq]

/-! ## Level by level -/

theorem lex_append {a b : List Nat} (h : List.Lex (· < ·) a b)
    (hlength : a.length = b.length) (x y : List Nat) :
    List.Lex (· < ·) (a ++ x) (b ++ y) := by
  induction h with
  | nil => cases hlength
  | rel h => exact .rel h
  | cons _ ih => exact .cons (ih (Nat.succ.inj hlength))

/-- The types of one level in source order, each of them standing in one type
less than the depth. -/
structure IsLevel (depth : Nat) (level : List Placed) : Prop where
  outers : ∀ p ∈ level, p.outers.length + 1 = depth
  length : ∀ p ∈ level, p.place.length = depth
  sorted : level.Pairwise fun p q => List.Lex (· < ·) p.place q.place

theorem siblings_sorted (place : List Nat) (outers types : List TypeDecl)
    (number : Nat) :
    (siblings place outers number types).Pairwise fun p q =>
      List.Lex (· < ·) p.place q.place := by
  refine (siblings_pairwise _ _ _ _).imp ?_
  rintro p q ⟨i, j, hij, hp, hq⟩
  rw [hp, hq]
  exact List.Lex.append_left _ (.rel hij) place

theorem isLevel_outermost (types : List TypeDecl) : IsLevel 1 (outermost types) := by
  constructor
  · intro p hp
    obtain ⟨i, -, -, houters, -⟩ := of_mem_siblings hp
    rw [houters]
    rfl
  · intro p hp
    obtain ⟨i, -, hplace, -⟩ := of_mem_siblings hp
    rw [hplace]
    rfl
  · exact siblings_sorted _ _ _ _

theorem IsLevel.inside {depth : Nat} {level : List Placed} (h : IsLevel depth level) :
    IsLevel (depth + 1) (level.flatMap Placed.inside) := by
  constructor
  · intro q hq
    obtain ⟨p, hp, hmem⟩ := List.mem_flatMap.mp hq
    obtain ⟨i, -, houters, -⟩ := Placed.of_mem_inside hmem
    rw [houters, List.length_append, ← h.outers p hp]
    rfl
  · intro q hq
    obtain ⟨p, hp, hmem⟩ := List.mem_flatMap.mp hq
    obtain ⟨i, hplace, -⟩ := Placed.of_mem_inside hmem
    rw [hplace, List.length_append, h.length p hp]
    rfl
  · refine List.pairwise_flatMap.mpr ⟨fun p _ => siblings_sorted _ _ _ _, ?_⟩
    refine h.sorted.imp_of_mem fun {p q} hp hq hlex x hx y hy => ?_
    obtain ⟨i, hplace, -⟩ := Placed.of_mem_inside hx
    obtain ⟨j, hplace', -⟩ := Placed.of_mem_inside hy
    rw [hplace, hplace']
    exact lex_append hlex ((h.length p hp).trans (h.length q hq).symm) _ _

/-- The types of one level and those inside them, level by level. The number
bounds the levels. -/
def byLevels : Nat → List Placed → List Placed
  | 0, _ => []
  | n + 1, level => level ++ byLevels n (level.flatMap Placed.inside)

theorem map_type_flatMap_inside (level : List Placed) :
    (level.flatMap Placed.inside).map Placed.type =
      (level.map Placed.type).flatMap TypeDecl.nestedTypes := by
  rw [List.map_flatMap, List.flatMap_map]
  exact List.flatMap_congr fun p _ => p.map_type_inside

theorem locateFrom_eq (name : Text) (n : Nat) {depth : Nat} {level : List Placed}
    (h : IsLevel depth level) : locateFrom name n depth (level.map Placed.type) =
      ((byLevels n level).find? (·.type.name == name)).map fun p =>
        (p.type, p.outers.length + 1) := by
  induction n generalizing depth level with
  | zero => rfl
  | succ n ih =>
    have hmap : (level.map Placed.type).find? (·.name == name) =
        (level.find? (·.type.name == name)).map Placed.type := List.find?_map ..
    rw [locateFrom, byLevels, List.find?_append, hmap]
    cases hfind : level.find? (·.type.name == name) with
    | some p => rw [Option.some_or, Option.map_some, Option.map_some,
        h.outers p (List.mem_of_find?_eq_some hfind)]
    | none =>
      rw [Option.none_or, ← ih h.inside, map_type_flatMap_inside]
      rfl

theorem mem_byLevels_iff {n : Nat} {level : List Placed}
    (h : typesHeight (level.map Placed.type) ≤ n) {q : Placed} :
    q ∈ byLevels n level ↔ ∃ p ∈ level, q.IsWithin p := by
  induction n generalizing level with
  | zero =>
    rw [List.map_eq_nil_iff.mp (eq_nil_of_typesHeight h)]
    simp [byLevels]
  | succ n ih =>
    have hinside : typesHeight ((level.flatMap Placed.inside).map Placed.type) ≤ n := by
      rw [map_type_flatMap_inside]
      exact typesHeight_flatMap_le h
    rw [byLevels, List.mem_append, ih hinside]
    constructor
    · rintro (hq | ⟨r, hr, hwithin⟩)
      · exact ⟨q, hq, Placed.isWithin_iff.mpr (.inl rfl)⟩
      · obtain ⟨p, hp, hmem⟩ := List.mem_flatMap.mp hr
        exact ⟨p, hp, Placed.isWithin_iff.mpr (.inr ⟨r, hmem, hwithin⟩)⟩
    · rintro ⟨p, hp, hwithin⟩
      rcases Placed.isWithin_iff.mp hwithin with rfl | ⟨r, hmem, hwithin⟩
      · exact .inl hp
      · exact .inr ⟨r, List.mem_flatMap.mpr ⟨p, hp, hmem⟩, hwithin⟩

theorem IsLevel.le_length {n depth : Nat} {level : List Placed}
    (h : IsLevel depth level) {q : Placed} (hq : q ∈ byLevels n level) :
    depth ≤ q.place.length := by
  induction n generalizing depth level with
  | zero => cases hq
  | succ n ih =>
    rcases List.mem_append.mp hq with hq | hq
    · exact Nat.le_of_eq (h.length q hq).symm
    · exact Nat.le_of_succ_le (ih h.inside hq)

theorem IsLevel.byLevels_sorted {n depth : Nat} {level : List Placed}
    (h : IsLevel depth level) :
    (byLevels n level).Pairwise fun p q => List.Shortlex (· < ·) p.place q.place := by
  induction n generalizing depth level with
  | zero => exact .nil
  | succ n ih =>
    refine List.pairwise_append.mpr ⟨?_, ih h.inside, fun p hp q hq => ?_⟩
    · refine h.sorted.imp_of_mem fun {p q} hp hq hlex => ?_
      exact .of_lex ((h.length p hp).trans (h.length q hq).symm) hlex
    · refine .of_length_lt ?_
      have hlength := h.inside.le_length hq
      rw [h.length p hp]
      exact hlength

/-- Level by level, shorter places go before longer ones. -/
theorem lists_byLevels (types : List TypeDecl) :
    Lists (List.Shortlex (· < ·)) types
      (byLevels (typesHeight types) (outermost types)) := by
  refine ⟨fun p => mem_byLevels_iff ?_, (isLevel_outermost types).byLevels_sorted⟩
  rw [outermost, map_type_siblings]

theorem locate?_eq (types : List TypeDecl) (name : Text) : locate? types name =
    ((byLevels (typesHeight types) (outermost types)).find? (·.type.name == name)).map
      fun p => (p.type, p.outers.length + 1) := by
  rw [← locateFrom_eq name _ (isLevel_outermost types), outermost, map_type_siblings]
  rfl

/-! ## Source order -/

/-- The types inside a type in source order, each of them before those inside
it. The number bounds the levels. -/
def inOrder : Nat → Placed → List Placed
  | 0, _ => []
  | n + 1, p => p.inside.flatMap fun q => q :: inOrder n q

/-- How a search in source order meets a type: it takes it, or
goes on inside it. -/
def meet? (name : Text) (t : TypeDecl) : Option TypeDecl :=
  if t.name == name then some t else findInside name t

theorem findInMembers_eq (name : Text) (members : List Declaration) :
    findInMembers name members = (members.filterMap fun
      | .nested inner => some inner
      | _ => none).findSome? (meet? name) := by
  induction members with
  | nil => rw [findInMembers]; rfl
  | cons d rest ih =>
    rw [findInMembers, ih]
    cases d with
    | nested t =>
      rw [findInMember, List.filterMap_cons, List.findSome?_cons, ← meet?]
      cases meet? name t <;> rfl
    | field | method | constructor =>
      rw [findInMember, List.filterMap_cons]
      nofun

theorem findInside_eq (name : Text) (t : TypeDecl) :
    findInside name t = t.nestedTypes.findSome? (meet? name) := by
  cases t with
  | mk =>
    rw [findInside, findInMembers_eq]
    rfl

/-- A search type by type goes through what it looks at for each of them. -/
theorem findSome?_map_type {name : Text} {find? : TypeDecl → Option TypeDecl}
    {through : Placed → List Placed} {ps : List Placed}
    (h : ∀ p ∈ ps, find? p.type =
      ((through p).find? (·.type.name == name)).map Placed.type) :
    (ps.map Placed.type).findSome? find? =
      ((ps.flatMap through).find? (·.type.name == name)).map Placed.type := by
  rw [List.findSome?_map, List.find?_flatMap, List.map_findSome?,
    ← List.head?_filterMap, ← List.head?_filterMap]
  exact congrArg List.head? (List.filterMap_congr h)

theorem findInside_eq_find? (name : Text) {n : Nat} {p : Placed}
    (h : typesHeight p.type.nestedTypes ≤ n) :
    findInside name p.type =
      ((inOrder n p).find? (·.type.name == name)).map Placed.type := by
  induction n generalizing p with
  | zero =>
    rw [findInside_eq, eq_nil_of_typesHeight h]
    rfl
  | succ n ih =>
    have hmeet : ∀ q ∈ p.inside, meet? name q.type =
        ((q :: inOrder n q).find? (·.type.name == name)).map Placed.type := by
      intro q hq
      have hheight :=
        typesHeight_le_iff.mp h q.type (Placed.of_mem_inside hq).choose_spec.2.2
      rw [typeHeight_eq, Nat.add_le_add_iff_right] at hheight
      rw [meet?, List.find?_cons, ih hheight]
      cases q.type.name == name <;> rfl
    rw [findInside_eq, ← p.map_type_inside, inOrder]
    exact findSome?_map_type hmeet

theorem isWithin_of_mem_inOrder {n : Nat} {p q : Placed} (h : q ∈ inOrder n p) :
    ∃ r ∈ p.inside, q.IsWithin r := by
  induction n generalizing p with
  | zero => cases h
  | succ n ih =>
    obtain ⟨r, hr, hq⟩ := List.mem_flatMap.mp h
    refine ⟨r, hr, ?_⟩
    rcases List.mem_cons.mp hq with rfl | hq
    · exact Placed.isWithin_iff.mpr (.inl rfl)
    · exact Placed.isWithin_iff.mpr (.inr (ih hq))

theorem mem_inOrder_iff {n : Nat} {p : Placed}
    (h : typesHeight p.type.nestedTypes ≤ n) {q : Placed} :
    q ∈ inOrder n p ↔ ∃ r ∈ p.inside, q.IsWithin r := by
  refine ⟨isWithin_of_mem_inOrder, ?_⟩
  rintro ⟨r, hr, hwithin⟩
  obtain ⟨i, -, -, hmem⟩ := Placed.of_mem_inside hr
  have hheight := typesHeight_le_iff.mp h r.type hmem
  induction n generalizing p r with
  | zero =>
    rw [typeHeight_eq] at hheight
    omega
  | succ n ih =>
    rw [typeHeight_eq, Nat.add_le_add_iff_right] at hheight
    refine List.mem_flatMap.mpr ⟨r, hr, ?_⟩
    rcases Placed.isWithin_iff.mp hwithin with rfl | ⟨r', hr', hwithin'⟩
    · exact List.mem_cons_self
    · obtain ⟨i', -, -, hmem'⟩ := Placed.of_mem_inside hr'
      exact List.mem_cons_of_mem _ (ih hheight r' hr' hwithin' hmem'
        (typesHeight_le_iff.mp hheight _ hmem'))

/-- A type goes before those inside it. -/
theorem lex_inside {p q r : Placed} (hr : r ∈ p.inside) (h : q.IsWithin r) :
    List.Lex (· < ·) p.place q.place := by
  obtain ⟨i, hplace, -⟩ := Placed.of_mem_inside hr
  obtain ⟨more, hmore⟩ := h.place_eq
  have hlex : List.Lex (· < ·) (p.place ++ []) (p.place ++ (i :: more)) :=
    List.Lex.append_left _ .nil p.place
  rw [hmore, hplace, List.append_assoc]
  rwa [List.append_nil] at hlex

/-- What stands inside a type goes before what stands inside those behind it. -/
theorem lex_within {place : List Nat} {p q x y : Placed}
    (h : ∃ i j, i < j ∧ p.place = place ++ [i] ∧ q.place = place ++ [j])
    (hx : x.IsWithin p) (hy : y.IsWithin q) : List.Lex (· < ·) x.place y.place := by
  obtain ⟨i, j, hij, hp, hq⟩ := h
  obtain ⟨more, hmore⟩ := hx.place_eq
  obtain ⟨more', hmore'⟩ := hy.place_eq
  rw [hmore, hmore', hp, hq, List.append_assoc, List.append_assoc]
  exact List.Lex.append_left _ (.rel hij) place

theorem isWithin_of_mem_cons_inOrder {n : Nat} {p q : Placed}
    (h : q ∈ p :: inOrder n p) :
    q.IsWithin p := by
  rw [Placed.isWithin_iff]
  rcases List.mem_cons.mp h with rfl | h
  · exact .inl rfl
  · exact .inr (isWithin_of_mem_inOrder h)

theorem inOrder_sorted (n : Nat) (p : Placed) :
    (inOrder n p).Pairwise fun q r => List.Lex (· < ·) q.place r.place := by
  induction n generalizing p with
  | zero => exact .nil
  | succ n ih =>
    refine List.pairwise_flatMap.mpr ⟨fun q _ => .cons (fun r hr => ?_) (ih q), ?_⟩
    · obtain ⟨r', hr', hwithin⟩ := isWithin_of_mem_inOrder hr
      exact lex_inside hr' hwithin
    · refine (siblings_pairwise _ _ _ _).imp fun hplaces x hx y hy => ?_
      exact lex_within hplaces (isWithin_of_mem_cons_inOrder hx)
        (isWithin_of_mem_cons_inOrder hy)

/-- The order of places in which `findType?` goes: those of the types of the
file first, and else source order. -/
def OutermostFirst (a b : List Nat) : Prop :=
  (a.length = 1 ∧ b.length ≠ 1) ∨ ((a.length = 1 ↔ b.length = 1) ∧ List.Lex (· < ·) a b)

/-- The types of a file, and then all those inside them. -/
def outermostFirst (types : List TypeDecl) : List Placed :=
  outermost types ++ (outermost types).flatMap (inOrder (typesHeight types))

theorem length_of_mem_inOrder {types : List TypeDecl} {n : Nat} {p q : Placed}
    (hp : p ∈ outermost types) (hq : q ∈ inOrder n p) : q.place.length ≠ 1 := by
  obtain ⟨r, hr, hwithin⟩ := isWithin_of_mem_inOrder hq
  obtain ⟨i, hplace, -⟩ := Placed.of_mem_inside hr
  obtain ⟨more, hmore⟩ := hwithin.place_eq
  rw [hmore, hplace, List.length_append, List.length_append,
    (isLevel_outermost types).length p hp, List.length_singleton]
  omega

theorem height_of_mem_outermost {types : List TypeDecl} {p : Placed}
    (hp : p ∈ outermost types) :
    typesHeight p.type.nestedTypes ≤ typesHeight types := by
  obtain ⟨i, -, -, -, hmem⟩ := of_mem_siblings hp
  have hheight := typesHeight_le_iff.mp (Nat.le_refl _) p.type hmem
  rw [typeHeight_eq] at hheight
  exact Nat.le_of_succ_le hheight

theorem lists_outermostFirst (types : List TypeDecl) :
    Lists OutermostFirst types (outermostFirst types) := by
  have hone := (isLevel_outermost types).length
  constructor
  · intro q
    rw [outermostFirst, List.mem_append, List.mem_flatMap]
    constructor
    · rintro (hq | ⟨p, hp, hq⟩)
      · exact ⟨q, hq, Placed.isWithin_iff.mpr (.inl rfl)⟩
      · exact ⟨p, hp, Placed.isWithin_iff.mpr (.inr (isWithin_of_mem_inOrder hq))⟩
    · rintro ⟨p, hp, hwithin⟩
      rcases Placed.isWithin_iff.mp hwithin with rfl | hinside
      · exact .inl hp
      · exact .inr ⟨p, hp, (mem_inOrder_iff (height_of_mem_outermost hp)).mpr hinside⟩
  -- outermost types in their order, then what is inside them, each behind its
  -- own type
  · refine List.pairwise_append.mpr
      ⟨?_, List.pairwise_flatMap.mpr ⟨fun p hp => ?_, ?_⟩, ?_⟩
    · refine (isLevel_outermost types).sorted.imp_of_mem fun {p q} hp hq hlex =>
        .inr ⟨?_, hlex⟩
      exact iff_of_true (hone p hp) (hone q hq)
    · refine (inOrder_sorted _ p).imp_of_mem fun {q r} hq hr hlex => .inr ⟨?_, hlex⟩
      exact iff_of_false (length_of_mem_inOrder hp hq) (length_of_mem_inOrder hp hr)
    · refine (siblings_pairwise [] [] types 0).imp_of_mem fun {p q} hp hq hplaces x hx
        y hy => .inr ⟨?_, ?_⟩
      · exact iff_of_false (length_of_mem_inOrder hp hx) (length_of_mem_inOrder hq hy)
      · exact lex_within hplaces
          (isWithin_of_mem_cons_inOrder (List.mem_cons_of_mem _ hx))
          (isWithin_of_mem_cons_inOrder (List.mem_cons_of_mem _ hy))
    · intro p hp q hq
      obtain ⟨r, hr, hq⟩ := List.mem_flatMap.mp hq
      exact .inl ⟨hone p hp, length_of_mem_inOrder hr hq⟩

theorem findType?_eq (u : CompilationUnit) (name : Text) : u.findType? name =
    ((outermostFirst u.types).find? (·.type.name == name)).map Placed.type := by
  have hmap : (outermost u.types).map Placed.type = u.types := map_type_siblings _ _ _ _
  have htop : u.types.find? (·.name == name) =
      ((outermost u.types).find? (·.type.name == name)).map Placed.type := by
    rw [← hmap, List.find?_map, hmap]
    rfl
  have hinside : u.types.findSome? (findInside name) = (((outermost u.types).flatMap
      (inOrder (typesHeight u.types))).find? (·.type.name == name)).map
        Placed.type := by
    have heach : ∀ p ∈ outermost u.types, findInside name p.type =
        ((inOrder (typesHeight u.types) p).find? (·.type.name == name)).map
          Placed.type :=
      fun p hp => findInside_eq_find? name (height_of_mem_outermost hp)
    have hfound := findSome?_map_type heach
    rwa [hmap] at hfound
  rw [CompilationUnit.findType?, outermostFirst, List.find?_append, htop, hinside]
  cases (outermost u.types).find? (·.type.name == name) <;> rfl

/-! ## What the searches choose -/

section

variable {u : CompilationUnit} {types : List TypeDecl} {name : Text} {p q : Placed}

/-- The first type in the order of one search is that of the other exactly when
no type of the name stands less deep. -/
theorem first_eq_iff (hp : IsFirst (List.Shortlex (· < ·)) types name p)
    (hq : IsFirst OutermostFirst types name q) : p = q ↔
      ∀ r : Placed, r.StandsIn types → r.type.name = name →
        q.outers.length ≤ r.outers.length := by
  constructor
  · rintro rfl r hr hname
    rcases hp.first r hr hname with rfl | hless
    · exact Nat.le_refl _
    · have hlength := hp.standsIn.length_place
      have hlength' := hr.length_place
      rcases List.shortlex_def.mp hless with hless | ⟨heq, -⟩ <;> omega
  · intro hleast
    -- Otherwise each goes before the other: at the same depth both orders are
    -- the source order.
    rcases hp.first q hq.standsIn hq.name_eq with rfl | hless
    · rfl
    · rcases hq.first p hp.standsIn hp.name_eq with rfl | hless'
      · rfl
      · exfalso
        have hle := hleast p hp.standsIn hp.name_eq
        have hlength := hp.standsIn.length_place
        have hlength' := hq.standsIn.length_place
        rcases List.shortlex_def.mp hless with hless | ⟨heq, hlex⟩
        · omega
        · rcases hless' with ⟨hone, hmore⟩ | ⟨-, hlex'⟩
          · exact hmore (heq.trans hone)
          · exact Std.Asymm.asymm (r := List.Lex (· < ·)) _ _ hlex hlex'

end

/-- **Both searches find a type of a name exactly when the file declares one, at
any depth.** `locate?` goes through a queue, so it takes the one that stands in
the fewest types, and of several such the first in source order; with it it
gives one more than the number of types around it. `findType?` takes the first
type of the file itself, or else the first one inside another in source order.
They choose the same type exactly when none of that name stands less deep than
the one that `findType?` takes. -/
theorem lookups_part_at_depth (u : CompilationUnit) (name : Text) :
    QueueFinds name (u.types.map (·, 1)) (locate? u.types name) ∧
      ((∀ r : Placed, r.StandsIn u.types → r.type.name ≠ name) ∧
        locate? u.types name = none ∧
          u.findType? name = none ∨
        ∃ p q, IsFirst (List.Shortlex (· < ·)) u.types name p ∧
          IsFirst OutermostFirst u.types name q ∧
          locate? u.types name = some (p.type, p.outers.length + 1) ∧
          u.findType? name = some q.type ∧
          (p = q ↔ ∀ r : Placed, r.StandsIn u.types → r.type.name = name →
            q.outers.length ≤ r.outers.length)) := by
  refine ⟨queueFinds_locate? u.types name, ?_⟩
  have hlevels := lists_byLevels u.types
  have houter := lists_outermostFirst u.types
  rw [locate?_eq, findType?_eq]
  cases hp : (byLevels (typesHeight u.types) (outermost u.types)).find?
    (·.type.name == name) with
  | none =>
    have hnone := hlevels.find?_eq_none_iff.mp hp
    exact .inl ⟨hnone, rfl, by rw [houter.find?_eq_none_iff.mpr hnone]; rfl⟩
  | some p =>
    have hfirst := hlevels.isFirst hp
    cases hq : (outermostFirst u.types).find? (·.type.name == name) with
    | none =>
      exact absurd hfirst.name_eq (houter.find?_eq_none_iff.mp hq p hfirst.standsIn)
    | some q =>
      have hfirst' := houter.isFirst hq
      exact .inr ⟨p, q, hfirst, hfirst', rfl, rfl, first_eq_iff hfirst hfirst'⟩

/-- A class on one line. -/
def plainClass (name : Text) (members : List TypeDecl)
    (start body stop : Nat) : TypeDecl :=
  .mk name .classType {} (members.map .nested) ⟨start, stop, 1⟩ ⟨body, stop, 1⟩ none

/-- The file `class A { class B { class X {} } class X {} }`: a type nested
twice comes before a type of the same name that is nested once. -/
def repeatedName : CompilationUnit where
  types := [plainClass "A" [plainClass "B" [plainClass "X" [] 20 28 30] 10 18 32,
    plainClass "X" [] 33 41 43] 0 8 45]

theorem lookups_differ :
    (locate? repeatedName.types "X").map (fun found => (found.1.span, found.2)) =
        some (⟨33, 43, 1⟩, 2) ∧
      (repeatedName.findType? "X").map TypeDecl.span = some ⟨20, 30, 1⟩ ∧
      (locate? repeatedName.types "X").map (·.1) ≠ repeatedName.findType? "X" := by
  have hlocate : locate? repeatedName.types "X" =
      some (plainClass "X" [] 33 41 43, 2) := rfl
  have hfind : repeatedName.findType? "X" = some (plainClass "X" [] 20 28 30) := rfl
  rw [hlocate, hfind]
  refine ⟨rfl, rfl, fun heq => ?_⟩
  have hspan : (⟨33, 43, 1⟩ : Span) = ⟨20, 30, 1⟩ :=
    congrArg TypeDecl.span (Option.some.inj heq)
  exact absurd hspan (by decide)

end Graft.Merge
