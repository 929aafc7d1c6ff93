import Graft.Proofs.Java.Items
import Graft.Proofs.Java.Nesting

/-!
# Members, item by item

The members that trees are read to (`declarations`) are those of their items,
one behind the other: an item is read to one declaration at most
(`eq_of_mem_declared`), the body of a type is read before the type is
(`readInduction`), and neither how deep reading may go nor the errors in between
matter (`members_congr`). Behind whole items reading begins anew
(`declarations_append`); what is read stays read, whatever is added behind it
(`declarations_prefix`), and depends on nothing that follows
(`declarations_take`).
-/

namespace Graft.Java

/-- The declarations among items. -/
def declarationsIn (items : List Item) : List Declaration :=
  (Reading.mk items 0 false).members

theorem declarationsIn_append (items items' : List Item) :
    declarationsIn (items ++ items') = declarationsIn items ++ declarationsIn items' :=
  List.filterMap_append

theorem declarationsIn_items (r : Reading) : declarationsIn r.items = r.members := rfl

/-- The members that trees are read to. -/
def declarations (source : Text) (within : Option TypeKind) (trees : List Tree) :
    List Declaration :=
  (readItems source (Tree.sizes trees + 1) within false trees).members

/-- The trees that the members of a type are read from: behind the
constants of an enum. -/
def bodyTrees (kind : TypeKind) (inner : List Tree) : List Tree :=
  if kind == .enumType then behindConstants inner else inner

theorem bodyTrees_suffix (kind : TypeKind) (inner : List Tree) :
    bodyTrees kind inner <:+ inner := by
  unfold bodyTrees
  split
  · exact behindConstants_suffix inner
  · exact List.suffix_rfl

/-- Whether the item of a list is one of an annotation type. -/
def inAnnotationBody (within : Option TypeKind) : Bool := within == some .annotationType

/-- The declaration that an item is read to, if it is one; `members` reads the
bodies of types. -/
def declared (members : TypeKind → List Tree → List Declaration) (source : Text)
    (within : Option TypeKind) (t : Tree) (more : List Tree) : List Declaration :=
  let clean := (t :: more).filter (!·.isStray)
  let last := (clean.getLast?.map Tree.last).getD t.first
  let span := Span.between t.first last
  let read := source.take last.stop
  let (modifiers, behind) := readModifiers read (Tree.sizes (t :: more) + 1) clean
  match typeHeader? behind, clean.getLast? with
  | some (kind, name), some (.group left inner right) =>
    [.nested
      (.mk name kind modifiers (members kind (bodyTrees kind inner)) span
        (Span.between left right)
      t.first.doc)]
  | _, _ =>
    match within with
    | some kind => declarationsIn
        (readPlainItem read (Tree.sizes (t :: more) + 1) kind modifiers span
          t.first.doc clean behind).1
    | none => []

section

variable {source : Text} {n : Nat} {within : Option TypeKind} {inRun : Bool} {t : Tree}
  {more rest trees : List Tree}

theorem members_stray (h : t.isStray = true) :
    (readItems source (n + 1) within inRun (t :: trees)).members =
    (readItems source n within true trees).members := by
  rw [readItems, if_pos h]
  rfl

theorem members_unfinished (h : t.isStray = false)
    (htake : takeItem (inAnnotationBody within) false (t :: trees) =
      (more, false, rest)) :
    (readItems source (n + 1) within inRun (t :: trees)).members = [] := by
  rw [readItems, if_neg (by simp [h])]
  dsimp only
  rw [← inAnnotationBody, htake]
  rfl

theorem members_item (source : Text) (n : Nat) (inRun : Bool) (h : t.isStray = false)
    (htake : takeItem (inAnnotationBody within) false (t :: trees) =
      (t :: more, true, rest)) :
    ∃ inRun', (readItems source (n + 1) within inRun (t :: trees)).members =
      declared (fun kind body => (readItems source n (some kind) false body).members)
        source within t more ++
        (readItems source n within inRun' rest).members := by
  rw [readItems, if_neg (by simp [h]), declared]
  dsimp only
  rw [← inAnnotationBody, htake]
  simp only [Bool.not_true, Bool.false_eq_true, ↓reduceIte]
  generalize readModifiers _ _ _ = mods
  obtain ⟨m, behind⟩ := mods
  dsimp only
  generalize ((t :: more).filter (!·.isStray)).getLast? = last
  generalize typeHeader? behind = header
  cases within with
  | some kind =>
    rcases header with _ | ⟨kind, name⟩
    · exact ⟨false, declarationsIn_append _ _⟩
    rcases last with _ | ⟨_ | _ | _⟩
    case some.some.group => exact ⟨_, rfl⟩
    all_goals exact ⟨false, declarationsIn_append _ _⟩
  | none =>
    rcases header with _ | ⟨kind, name⟩ <;> rcases last with _ | ⟨_ | _ | _⟩
    case some.some.group => exact ⟨_, rfl⟩
    all_goals
      refine ⟨false, (declarationsIn_append _ _).trans
        (congrArg (· ++ _) (?_ : _ = []))⟩
      -- packages and imports are no declarations
      dsimp only
      split
      · split
        · rfl
        · split <;> rfl
      · rfl

end

/-! ## One item -/

/-- Trees that are one item, up to the semicolon or the block that ends it. -/
def IsItem (inAnnotationType : Bool) (item : List Tree) : Prop :=
  takeItem inAnnotationType false item = (item, true, [])

section

variable {inAnnotationType assigned : Bool} {item rest trees : List Tree}

theorem takeItem_finished
    (h : takeItem inAnnotationType assigned trees = (item, true, rest)) :
    trees = item ++ rest ∧
      ∀ rest', takeItem inAnnotationType assigned (item ++ rest') =
        (item, true, rest') := by
  induction trees generalizing assigned item with
  | nil => cases h
  | cons t trees ih =>
    rw [takeItem] at h
    split at h
    · next hends =>
      cases h
      refine ⟨rfl, fun rest' => ?_⟩
      rw [List.singleton_append, takeItem, if_pos hends]
    · next hgoes =>
      dsimp only at h
      generalize htake : takeItem inAnnotationType
        (assigned || t.isSign "=" || (inAnnotationType && t.isWord "default"))
          trees = taken at h
      obtain ⟨item', finished, rest'⟩ := taken
      cases h
      obtain ⟨rfl, hagain⟩ := ih htake
      refine ⟨rfl, fun rest' => ?_⟩
      rw [List.cons_append, takeItem, if_neg hgoes]
      simp only [hagain]

theorem IsItem.takeItem_append (h : IsItem inAnnotationType item) (rest : List Tree) :
    takeItem inAnnotationType false (item ++ rest) = (item, true, rest) :=
  (takeItem_finished h).2 rest

theorem IsItem.of_takeItem
    (h : takeItem inAnnotationType false trees = (item, true, rest)) :
    IsItem inAnnotationType item ∧ trees = item ++ rest := by
  obtain ⟨hsplit, hagain⟩ := takeItem_finished h
  have hitem := hagain []
  rw [List.append_nil] at hitem
  exact ⟨hitem, hsplit⟩

theorem IsItem.ne_nil (h : IsItem inAnnotationType item) : item ≠ [] := by
  rintro rfl
  cases h

/-- An item ends with a semicolon or a block. -/
theorem takeItem_last
    (h : takeItem inAnnotationType assigned trees = (item, true, rest)) :
    ∃ more t, item = more ++ [t] ∧ (t.isSign ";" = true ∨ t.isBlock = true) := by
  induction trees generalizing assigned item with
  | nil => cases h
  | cons t trees ih =>
    rw [takeItem] at h
    split at h
    · next hends =>
      cases h
      rw [Bool.or_eq_true, Bool.and_eq_true] at hends
      exact ⟨[], t, rfl, hends.imp id And.left⟩
    · dsimp only at h
      generalize htake : takeItem inAnnotationType
        (assigned || t.isSign "=" || (inAnnotationType && t.isWord "default"))
          trees = taken at h
      obtain ⟨item', finished, rest'⟩ := taken
      cases h
      obtain ⟨more, u, rfl, hu⟩ := ih htake
      exact ⟨t :: more, u, rfl, hu⟩

end

/-! ## How deep reading may go -/

theorem declared_congr {source : Text} {within : Option TypeKind} {t : Tree}
    {more : List Tree} {members members' : TypeKind → List Tree → List Declaration}
    (h : ∀ kind left inner right, .group left inner right ∈ t :: more →
      members kind (bodyTrees kind inner) = members' kind (bodyTrees kind inner)) :
    declared members source within t more = declared members' source within t more := by
  unfold declared
  dsimp only
  generalize hlast : ((t :: more).filter (!·.isStray)).getLast? = last
  generalize typeHeader? _ = header
  rcases header with _ | ⟨kind, name⟩
  · rfl
  rcases last with _ | ⟨_ | ⟨left, inner, right⟩ | _⟩
  case some.some.group =>
    have hmem : .group left inner right ∈ t :: more :=
      (List.mem_filter.mp (List.mem_of_getLast? hlast)).1
    simp only [h kind left inner right hmem]
  all_goals rfl

theorem one_le_size (t : Tree) : 1 ≤ t.size := by
  cases t <;> simp [Tree.size]

theorem sizes_bodyTrees_lt {left right : Token} {inner trees : List Tree}
    (kind : TypeKind) (h : .group left inner right ∈ trees) :
    Tree.sizes (bodyTrees kind inner) < Tree.sizes trees := by
  have hgroup := (Tree.flat_sublist_flats h).length_le
  have hbody := (Tree.flats_sublist (bodyTrees_suffix kind inner).sublist).length_le
  simp only [Tree.sizes_eq_length, Tree.flat_group, List.length_cons,
    List.length_append] at hgroup hbody ⊢
  omega

/-- Members do not depend on how deep reading may go, or on the errors
in front of them. -/
theorem members_congr {source : Text} {n m : Nat} {within : Option TypeKind}
    {trees : List Tree} (hn : Tree.sizes trees < n) (hm : Tree.sizes trees < m)
    (inRun inRun' : Bool) :
    (readItems source n within inRun trees).members =
      (readItems source m within inRun' trees).members := by
  -- both bounds cover the trees, and what is read next is smaller for each of
  -- them
  induction n generalizing m within trees inRun inRun' with
  | zero => omega
  | succ n ih =>
  obtain ⟨m, rfl⟩ : ∃ k, m = k + 1 := Nat.exists_eq_add_one.mpr (by omega)
  cases trees with
  | nil => rfl
  | cons t trees =>
  have hsize := one_le_size t
  cases hstray : t.isStray with
  | true =>
    rw [Tree.sizes] at hn hm
    rw [members_stray hstray, members_stray hstray]
    exact ih (by omega) (by omega) _ _
  | false =>
  generalize htake : takeItem (inAnnotationBody within) false (t :: trees) = taken
  obtain ⟨item, finished, rest⟩ := taken
  cases finished with
  | false => rw [members_unfinished hstray htake, members_unfinished hstray htake]
  | true =>
  obtain ⟨hitem, hsplit⟩ := IsItem.of_takeItem htake
  obtain ⟨more, hmore, -⟩ := takeItem_cons (inAnnotationBody within) false t trees
  rw [htake] at hmore
  dsimp only at hmore
  subst hmore
  obtain ⟨inRun1, hread⟩ := members_item source n inRun hstray htake
  obtain ⟨inRun2, hread'⟩ := members_item source m inRun' hstray htake
  rw [hsplit, Tree.sizes_append, Tree.sizes] at hn hm
  rw [hread, hread', ih (m := m) (by omega) (by omega) inRun1 inRun2]
  congr 1
  refine declared_congr fun kind left inner right hmem => ?_
  have hinner := sizes_bodyTrees_lt kind hmem
  rw [Tree.sizes] at hinner
  exact ih (by omega) (by omega) _ _

section

variable {source source' : Text} {within : Option TypeKind} {t : Tree}
    {more rest trees : List Tree}

theorem members_eq {n : Nat} (h : Tree.sizes trees < n) (inRun : Bool) :
    (readItems source n within inRun trees).members =
      declarations source within trees :=
  members_congr h (Nat.lt_succ_self _) _ _

@[simp] theorem declarations_nil : declarations source within [] = [] := rfl

theorem declarations_stray (h : t.isStray = true) :
    declarations source within (t :: rest) = declarations source within rest := by
  have hsize := one_le_size t
  rw [declarations, members_stray h, members_eq]
  rw [Tree.sizes]
  omega

theorem declarations_unfinished (h : t.isStray = false)
    (htake : takeItem (inAnnotationBody within) false (t :: trees) =
      (more, false, rest)) :
    declarations source within (t :: trees) = [] :=
  members_unfinished h htake

/-- The declaration of an item comes before those behind it. -/
theorem declarations_item (h : t.isStray = false)
    (hitem : IsItem (inAnnotationBody within) (t :: more)) :
    declarations source within (t :: more ++ rest) =
      declared (fun kind => declarations source (some kind)) source within t more ++
        declarations source within rest := by
  have hsize := one_le_size t
  have htake : takeItem (inAnnotationBody within) false (t :: (more ++ rest)) =
      (t :: more, true, rest) :=
    hitem.takeItem_append rest
  have hsizes := Tree.sizes_append (t :: more) rest
  rw [Tree.sizes] at hsizes
  obtain ⟨inRun, hread⟩ :=
    members_item source (Tree.sizes (t :: more ++ rest)) false h htake
  refine hread.trans ?_
  rw [members_eq (by omega)]
  congr 1
  refine declared_congr fun kind left inner right hmem => members_eq ?_ _
  have hinner := sizes_bodyTrees_lt kind hmem
  rw [Tree.sizes] at hinner
  omega

/-- Trees are read item by item, and the bodies of types in them before. -/
theorem readInduction {P : Option TypeKind → List Tree → Prop}
    (nil : ∀ within, P within [])
    (stray : ∀ within t rest, t.isStray = true → P within rest → P within (t :: rest))
    (unfinished : ∀ within t trees item rest, t.isStray = false →
      takeItem (inAnnotationBody within) false (t :: trees) = (item, false, rest) →
      P within (t :: trees))
    (item : ∀ within t more rest, t.isStray = false →
      IsItem (inAnnotationBody within) (t :: more) →
      (∀ kind left inner right, .group left inner right ∈ t :: more →
        P (some kind) (bodyTrees kind inner)) →
      P within rest → P within (t :: more ++ rest)) (within : Option TypeKind)
    (trees : List Tree) :
    P within trees := by
  -- the bodies of an item and what stands behind it are smaller than all of it
  induction hn : Tree.sizes trees using Nat.strongRecOn generalizing within trees with
  | ind n ih =>
  cases trees with
  | nil => exact nil within
  | cons t trees =>
  have hsize := one_le_size t
  cases hstray : t.isStray with
  | true =>
    refine stray within t trees hstray (ih _ ?_ within trees rfl)
    rw [← hn, Tree.sizes]
    omega
  | false =>
  generalize htake : takeItem (inAnnotationBody within) false (t :: trees) = taken
  obtain ⟨all, finished, rest⟩ := taken
  cases finished with
  | false => exact unfinished within t trees all rest hstray htake
  | true =>
  obtain ⟨hitem, hsplit⟩ := IsItem.of_takeItem htake
  obtain ⟨more, hmore, -⟩ := takeItem_cons (inAnnotationBody within) false t trees
  rw [htake] at hmore
  dsimp only at hmore
  subst hmore
  rw [hsplit, Tree.sizes_append] at hn
  rw [hsplit]
  refine item within t more rest hstray hitem (fun kind left inner right hmem => ?_) ?_
  · exact ih _ (by have := sizes_bodyTrees_lt kind hmem; omega) _ _ rfl
  · exact ih _ (by rw [Tree.sizes] at hn; omega) _ _ rfl

/-! ## Whole items -/

/-- Trees that are whole items, and strays between them. -/
inductive Settled (inAnnotationType : Bool) : List Tree → Prop
  | nil : Settled inAnnotationType []
  | stray {t : Tree} {rest : List Tree} (isStray : t.isStray = true)
      (later : Settled inAnnotationType rest) :
      Settled inAnnotationType (t :: rest)
  | item {t : Tree} {more rest : List Tree} (notStray : t.isStray = false)
      (whole : IsItem inAnnotationType (t :: more))
      (later : Settled inAnnotationType rest) :
      Settled inAnnotationType (t :: more ++ rest)

/-- An item is settled on its own. -/
theorem IsItem.settled {inAnnotationType : Bool} {t : Tree} {more : List Tree}
    (h : IsItem inAnnotationType (t :: more)) (notStray : t.isStray = false) :
    Settled inAnnotationType (t :: more) := by
  have hsettled := Settled.item notStray h .nil
  rwa [List.append_nil] at hsettled

theorem Settled.append {inAnnotationType : Bool} (h : Settled inAnnotationType trees)
    (h' : Settled inAnnotationType rest) :
    Settled inAnnotationType (trees ++ rest) := by
  induction h with
  | nil => exact h'
  | stray isStray _ ih => exact .stray isStray ih
  | item notStray whole _ ih =>
    rw [List.append_assoc]
    exact .item notStray whole ih

/-- **Behind whole items**, reading begins anew. -/
theorem declarations_append (h : Settled (inAnnotationBody within) trees)
    (rest : List Tree) :
    declarations source within (trees ++ rest) =
      declarations source within trees ++ declarations source within rest := by
  induction h with
  | nil => rfl
  | stray isStray _ ih =>
    rw [List.cons_append, declarations_stray isStray, declarations_stray isStray, ih]
  | item notStray whole _ ih =>
    rw [List.append_assoc, declarations_item notStray whole,
      declarations_item notStray whole, ih, List.append_assoc]

/-- **What is read stays read**, whatever is added behind it. -/
theorem declarations_prefix (source : Text) (within : Option TypeKind)
    (trees rest : List Tree) :
    declarations source within trees <+:
    declarations source within (trees ++ rest) := by
  induction within, trees using readInduction with
  | nil within => exact List.nil_prefix
  | stray within t trees hstray ih =>
    rwa [List.cons_append, declarations_stray hstray, declarations_stray hstray]
  | unfinished within t trees item rest hstray htake =>
    rw [declarations_unfinished hstray htake]
    exact List.nil_prefix
  | item within t more trees hstray hitem _ ih =>
    rw [List.append_assoc, declarations_item hstray hitem,
      declarations_item hstray hitem]
    exact (List.prefix_append_right_inj _).mpr ih

theorem finished_of_semicolon (inAnnotationType assigned : Bool) (hne : trees ≠ [])
    (h : ∀ t ∈ trees.getLast?, t.isSign ";" = true) :
    (takeItem inAnnotationType assigned trees).2.1 = true := by
  induction trees generalizing assigned with
  | nil => exact absurd rfl hne
  | cons t trees ih =>
    rw [takeItem]
    split
    · rfl
    · next hgoes =>
      cases trees with
      | nil =>
        rw [h t rfl, Bool.true_or] at hgoes
        exact absurd rfl hgoes
      | cons u trees =>
        exact ih _ (List.cons_ne_nil u trees) fun v hv =>
          h v (by rwa [List.getLast?_cons_cons])

/-- Whatever ends with a semicolon is whole items. -/
theorem settled_of_semicolon (within : Option TypeKind) (trees : List Tree)
    (h : ∀ t ∈ trees.getLast?, t.isSign ";" = true) :
    Settled (inAnnotationBody within) trees := by
  have hlater : ∀ front rest : List Tree,
      (∀ t ∈ (front ++ rest).getLast?, t.isSign ";" = true) →
      ∀ t ∈ rest.getLast?, t.isSign ";" = true := by
    intro front rest hall t ht
    refine hall t ?_
    rw [Option.mem_def] at ht
    rw [List.getLast?_append, ht]
    rfl
  induction within, trees using readInduction with
  | nil within => exact .nil
  | stray within t trees hstray ih => exact .stray hstray (ih (hlater [t] trees h))
  | unfinished within t trees item rest hstray htake =>
    have hfinished := finished_of_semicolon (inAnnotationBody within) false
      (List.cons_ne_nil t trees) h
    rw [htake] at hfinished
    cases hfinished
  | item within t more trees hstray hitem _ ih =>
    exact .item hstray hitem (ih (hlater _ _ h))

/-- What leaves no modifiers without a declaration is whole items. -/
theorem settled_of_finished {n : Nat} {inRun : Bool} (hn : Tree.sizes trees < n)
    (h : (readItems source n within inRun trees).unfinished = false) :
    Settled (inAnnotationBody within) trees := by
  induction n generalizing trees inRun with
  | zero => omega
  | succ n ih =>
  cases trees with
  | nil => exact .nil
  | cons t trees =>
  have hsize := one_le_size t
  rw [Tree.sizes] at hn
  rw [readItems] at h
  -- a stray bracket, or an item that ends; one that does not end leaves the run
  -- unfinished
  split at h
  · next hstray => exact .stray hstray (ih (by omega) h)
  · next hstray =>
    dsimp only at h
    rw [← inAnnotationBody] at h
    generalize htake :
      takeItem (inAnnotationBody within) false (t :: trees) = taken at h
    obtain ⟨item, finished, rest⟩ := taken
    cases finished with
    | false => cases h
    | true =>
    obtain ⟨hitem, hsplit⟩ := IsItem.of_takeItem htake
    obtain ⟨more, hmore, -⟩ := takeItem_cons (inAnnotationBody within) false t trees
    rw [htake] at hmore
    dsimp only at hmore
    subst hmore
    have hsizes := congrArg Tree.sizes hsplit
    rw [Tree.sizes_append, Tree.sizes, Tree.sizes] at hsizes
    simp only [Bool.not_true, Bool.false_eq_true, ↓reduceIte] at h
    rw [hsplit]
    refine .item (Bool.not_eq_true _ ▸ hstray) hitem ?_
    split at h <;> exact ih (by omega) h

end

/-! ## The declaration of an item -/

section

variable {source source' : Text} {within : Option TypeKind} {t : Tree}
    {more trees : List Tree}
    {members members' : TypeKind → List Tree → List Declaration}

/-- The last tree of an item is no stray. -/
theorem IsItem.exists_last {inAnnotationType : Bool}
    (h : IsItem inAnnotationType trees) :
    ∃ front u, trees = front ++ [u] ∧ (u.isSign ";" = true ∨ u.isBlock = true) ∧
      (trees.filter (!·.isStray)).getLast? = some u := by
  obtain ⟨front, u, rfl, hu⟩ := takeItem_last h
  have hstray : u.isStray = false := by
    cases u with
    | leaf | group => rfl
    | stray => rcases hu with hu | hu <;> cases hu
  refine ⟨front, u, rfl, hu, ?_⟩
  rw [List.filter_append, List.filter_cons_of_pos (by simp [hstray]), List.filter_nil,
    List.getLast?_append]
  rfl

/-- An item is read to one declaration at most, which begins
and ends with it. -/
theorem eq_of_mem_declared {inAnnotationType : Bool} {d : Declaration}
    (hitem : IsItem inAnnotationType (t :: more))
    (h : d ∈ declared members source within t more) :
    declared members source within t more = [d] ∧ d.doc = t.first.doc ∧
      ∃ front u, t :: more = front ++ [u] ∧ d.span = .between t.first u.last := by
  obtain ⟨front, u, hsplit, -, hlast⟩ := hitem.exists_last
  suffices hread : declared members source within t more = [d] ∧ d.doc = t.first.doc ∧
      d.span = .between t.first u.last
        from ⟨hread.1, hread.2.1, front, u, hsplit, hread.2.2⟩
  -- an item that declares no type is read to one declaration at most
  have hplain : ∀ {kind m behind},
      d ∈ declarationsIn (readPlainItem (source.take u.last.stop)
        (Tree.sizes (t :: more) + 1) kind m (.between t.first u.last) t.first.doc
        ((t :: more).filter (!·.isStray)) behind).1 →
      declarationsIn
        (readPlainItem (source.take u.last.stop) (Tree.sizes (t :: more) + 1) kind m
        (.between t.first u.last) t.first.doc ((t :: more).filter (!·.isStray))
          behind).1 = [d] ∧
        d.doc = t.first.doc ∧ d.span = .between t.first u.last := by
    intro kind m behind hmem
    obtain ⟨hspan, hdoc, -, -⟩ :=
      keeps_of_mem_readPlainItem (Reading.mem_members_iff.mp hmem)
    refine ⟨?_, hdoc, hspan⟩
    unfold readPlainItem at hmem ⊢
    split at hmem
    · cases hmem
    · split at hmem
      · cases List.mem_singleton.mp hmem
        simp only [*]
        rfl
      · cases hmem
      · cases hmem
  simp only [declared, hlast, Option.map_some, Option.getD_some] at h ⊢
  generalize typeHeader? _ = header at h ⊢
  rcases header with _ | ⟨kind, name⟩
  · cases within with
    | some kind => exact hplain h
    | none => cases h
  · rcases u with _ | _ | _
    case group =>
      cases List.mem_singleton.mp h
      exact ⟨rfl, rfl, rfl⟩
    all_goals
      cases within with
      | some kind => exact hplain h
      | none => cases h

/-- A type is read from an item that ends with its body. -/
theorem of_nested_mem_declared {inAnnotationType : Bool} {type : TypeDecl}
    (hitem : IsItem inAnnotationType (t :: more))
    (h : .nested type ∈ declared members source within t more) :
    ∃ front left inner right, t :: more = front ++ [.group left inner right] ∧
      left.isSign ['\x7b'] = true ∧
      typeHeader? (readModifiers (source.take right.stop) (Tree.sizes (t :: more) + 1)
        ((t :: more).filter (!·.isStray))).2 = some (type.kind, type.name) ∧
      type.members = members type.kind (bodyTrees type.kind inner) ∧
      type.body = .between left right := by
  obtain ⟨front, u, hsplit, hends, hlast⟩ := hitem.exists_last
  have hplain : ∀ {n kind m span doc clean behind}, .nested type ∉
      declarationsIn
        (readPlainItem (source.take u.last.stop) n kind m span doc clean behind).1 :=
    fun hmem =>
      (keeps_of_mem_readPlainItem (Reading.mem_members_iff.mp hmem)).2.2.2 type rfl
  simp only [declared, hlast, Option.map_some, Option.getD_some] at h
  generalize hheader : typeHeader? _ = header at h
  -- an item without the header of a type, or without braces at its end,
  -- declares no type
  have hnone : .nested type ∉ (match within with
      | some kind =>
        declarationsIn
          (readPlainItem (source.take u.last.stop) (Tree.sizes (t :: more) + 1) kind
          (readModifiers (source.take u.last.stop) (Tree.sizes (t :: more) + 1)
            ((t :: more).filter (!·.isStray))).1 (.between t.first u.last) t.first.doc
          ((t :: more).filter (!·.isStray))
          (readModifiers (source.take u.last.stop) (Tree.sizes (t :: more) + 1)
            ((t :: more).filter (!·.isStray))).2).1
      | none => []) := by
    cases within with
    | some kind => exact hplain
    | none => exact List.not_mem_nil
  rcases header with _ | ⟨kind, name⟩
  · exact absurd h hnone
  · rcases u with _ | ⟨left, inner, right⟩ | _
    case group =>
      cases List.mem_singleton.mp h
      refine ⟨front, left, inner, right, hsplit, ?_, hheader, rfl, rfl⟩
      rcases hends with hends | hends
      · cases hends
      · exact hends
    all_goals exact absurd h hnone

/-- **Where a member is read from**: an item behind whole ones. -/
theorem exists_item {d : Declaration} (h : d ∈ declarations source within trees) :
    ∃ front t more behind, trees = front ++ (t :: more ++ behind) ∧
      Settled (inAnnotationBody within) front ∧
      t.isStray = false ∧ IsItem (inAnnotationBody within) (t :: more) ∧
      d ∈ declared (fun kind => declarations source (some kind)) source
        within t more := by
  induction within, trees using readInduction with
  | nil within => cases h
  | stray within t trees hstray ih =>
    rw [declarations_stray hstray] at h
    obtain ⟨front, u, more, behind, rfl, hfront, hu⟩ := ih h
    exact ⟨t :: front, u, more, behind, rfl, .stray hstray hfront, hu⟩
  | unfinished within t trees item rest hstray htake =>
    rw [declarations_unfinished hstray htake] at h
    cases h
  | item within t more trees hstray hitem _ ih =>
    rw [declarations_item hstray hitem, List.mem_append] at h
    rcases h with hhere | hlater
    · exact ⟨[], t, more, trees, rfl, .nil, hstray, hitem, hhere⟩
    · obtain ⟨front, u, more', behind, rfl, hfront, hu⟩ := ih hlater
      exact ⟨t :: more ++ front, u, more', behind, by simp,
        .item hstray hitem hfront, hu⟩

/-! ## Sources that begin alike -/

variable {k : Nat}

theorem Tree.last_mem_flats {u : Tree} (h : u ∈ trees) : u.last ∈ Tree.flats trees := by
  obtain ⟨front, hflat⟩ := u.flat_eq_concat_last
  exact (Tree.flat_sublist_flats h).subset
    (hflat ▸ List.mem_append_right _ List.mem_cons_self)

theorem mem_flats_bodyTrees {kind : TypeKind} {left right : Token} {inner : List Tree}
    {x : Token} (h : .group left inner right ∈ trees)
    (hx : x ∈ Tree.flats (bodyTrees kind inner)) :
    x ∈ Tree.flats trees := by
  refine (Tree.flat_sublist_flats h).subset ?_
  rw [Tree.flat_group]
  refine List.mem_cons_of_mem _ (List.mem_append_left _ ?_)
  exact (Tree.flats_sublist (bodyTrees_suffix kind inner).sublist).subset hx

/-- **Members do not depend on what follows their trees**. -/
theorem declarations_take (hsource : source.take k = source'.take k)
    (h : ∀ x ∈ Tree.flats trees, x.stop ≤ k) :
    declarations source within trees = declarations source' within trees := by
  induction within, trees using readInduction with
  | nil within => rfl
  | stray within t trees hstray ih =>
    rw [Tree.flats_cons, List.forall_mem_append] at h
    rw [declarations_stray hstray, declarations_stray hstray, ih h.2]
  | unfinished within t trees item rest hstray htake =>
    rw [declarations_unfinished hstray htake, declarations_unfinished hstray htake]
  | item within t more trees hstray hitem hbodies ih =>
    rw [Tree.flats_append, List.forall_mem_append] at h
    rw [declarations_item hstray hitem, declarations_item hstray hitem, ih h.2]
    congr 1
    obtain ⟨front, u, hsplit, -, hlast⟩ := hitem.exists_last
    have hread : source.take u.last.stop = source'.take u.last.stop := by
      have hstop := h.1 _ (Tree.last_mem_flats (u := u) (by rw [hsplit]; simp))
      rw [← Nat.min_eq_left hstop, ← List.take_take, hsource, List.take_take]
    have hmembers : declared (fun kind => declarations source (some kind)) source
        within t more =
        declared (fun kind => declarations source' (some kind)) source within t more :=
      declared_congr fun kind left inner right hmem =>
        hbodies kind left inner right hmem fun x hx =>
          h.1 x (mem_flats_bodyTrees hmem hx)
    rw [hmembers]
    simp only [declared, hlast, Option.map_some, Option.getD_some, hread]

theorem Declaration.IsIn.of_append {d : Declaration} {xs ys : List Declaration}
    (h : d.IsIn (xs ++ ys)) :
    d.IsIn xs ∨ d.IsIn ys := by
  cases h with
  | here mem => exact (List.mem_append.mp mem).imp .here .here
  | inside nested more =>
    exact (List.mem_append.mp nested).imp (.inside · more) (.inside · more)

theorem Declaration.not_isIn_nil {d : Declaration} (h : d.IsIn []) : False := by
  cases h with
  | here mem => cases mem
  | inside nested _ => cases nested

/-- Members end where their trees do, at any depth. -/
theorem stop_le_of_isIn {d : Declaration}
    (hd : d.IsIn (declarations source within trees))
    (h : ∀ x ∈ Tree.flats trees, x.stop ≤ k) : d.span.stop ≤ k := by
  induction within, trees using readInduction with
  | nil within => exact (Declaration.not_isIn_nil hd).elim
  | stray within t trees hstray ih =>
    rw [Tree.flats_cons, List.forall_mem_append] at h
    rw [declarations_stray hstray] at hd
    exact ih hd h.2
  | unfinished within t trees item rest hstray htake =>
    rw [declarations_unfinished hstray htake] at hd
    exact (Declaration.not_isIn_nil hd).elim
  | item within t more trees hstray hitem hbodies ih =>
    rw [Tree.flats_append, List.forall_mem_append] at h
    rw [declarations_item hstray hitem] at hd
    rcases hd.of_append with hhere | hlater
    · cases hhere with
      | here mem =>
        obtain ⟨-, -, front, u, hsplit, hspan⟩ := eq_of_mem_declared hitem mem
        rw [hspan]
        exact h.1 _ (Tree.last_mem_flats (u := u) (by rw [hsplit]; simp))
      | inside nested inner =>
        obtain ⟨front, left, inside, right, hsplit, -, -, hmembers, -⟩ :=
          of_nested_mem_declared hitem nested
        have hmem : .group left inside right ∈ t :: more := by rw [hsplit]; simp
        rw [hmembers] at inner
        exact hbodies _ left inside right hmem inner fun x hx =>
          h.1 x (mem_flats_bodyTrees hmem hx)
    · exact ih hlater h.2

end

end Graft.Java
