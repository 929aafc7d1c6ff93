import Graft.Proofs.Java.Alike
import Graft.Proofs.Java.Annotations

/-!
# Types with other bodies

What stands in front of the body of a type is read without a look inside it: an
item that declares a type declares one of the same name and kind when its last
block is filled otherwise, even in another source (`declared_block`).
-/

namespace Graft.Java

section

variable {left : Token} (block : left.isSign ['\x7b'] = true)

include block

omit block in
theorem dottedTail_block (left last : Token) (trees : List Tree) :
    ∃ last' behind, behind.length ≤ trees.length ∧ ∀ inner right,
      dottedTail last (trees ++ [.group left inner right]) =
        (last', behind ++ [.group left inner right]) := by
  fun_induction dottedTail last trees with
  | case1 last dot w rest h ih =>
    obtain ⟨last', behind, hlength, hread⟩ := ih
    refine ⟨last', behind, Nat.le_trans hlength (Nat.le_add_right _ 2),
      fun inner right => ?_⟩
    rw [List.cons_append, List.cons_append, dottedTail, if_pos h, hread]
  | case2 last dot w rest h =>
    refine ⟨last, .leaf dot :: .leaf w :: rest, Nat.le_refl _, fun inner right => ?_⟩
    rw [List.cons_append, List.cons_append, dottedTail, if_neg h]
  | case3 last trees h =>
    refine ⟨last, trees, Nat.le_refl _, fun inner right => ?_⟩
    rcases trees with _ | ⟨t, _ | ⟨u, rest⟩⟩
    · rfl
    · cases t <;> rfl
    · cases t <;> cases u <;> first | exact (h _ _ _ rfl).elim | rfl

/-- Annotations end in front of a block. -/
theorem readAnnotationUse?_block (trees : List Tree) :
    (∀ source n inner right,
      readAnnotationUse? source n (trees ++ [.group left inner right]) = none) ∨
    ∃ behind, behind.length + 2 ≤ trees.length ∧ ∀ source n inner right, ∃ a,
      readAnnotationUse? source (n + 1) (trees ++ [.group left inner right]) =
        some (a, behind ++ [.group left inner right]) := by
  have hround : left.isSign "(" = false := not_isSign block (by decide)
  -- only a sign with a word behind it can begin an annotation
  rcases trees with _ | ⟨sign | _ | _, _ | ⟨w | _ | _, rest⟩⟩
  case cons.leaf.cons.leaf =>
    by_cases hname : (sign.isSign "@" && w.kind == .word) = true
    · right
      obtain ⟨last, behind, hlength, hread⟩ := dottedTail_block left w rest
      rcases behind with _ | ⟨t, behind⟩
      · refine ⟨[], Nat.le_add_left _ _, fun source n inner right => ?_⟩
        rw [List.cons_append, List.cons_append, readAnnotationUse?, if_pos hname]
        simp only [hread, List.nil_append, hround, Bool.false_eq_true, ↓reduceIte]
        exact ⟨_, rfl⟩
      · rw [List.length_cons] at hlength
        by_cases harguments : t.isGroup "(" = true
        · refine ⟨behind, by simp only [List.length_cons]; omega,
            fun source n inner right => ?_⟩
          rw [List.cons_append, List.cons_append, readAnnotationUse?, if_pos hname]
          cases t with
          | leaf | stray => cases harguments
          | group l i r =>
            simp only [hread, List.cons_append]
            exact ⟨_, if_pos harguments⟩
        · refine ⟨t :: behind, Nat.add_le_add_right hlength 2,
            fun source n inner right => ?_⟩
          rw [List.cons_append, List.cons_append, readAnnotationUse?, if_pos hname]
          cases t with
          | leaf | stray =>
            simp only [hread]
            exact ⟨_, rfl⟩
          | group l i r =>
            simp only [hread, List.cons_append]
            exact ⟨_, if_neg harguments⟩
    · left
      intro source n inner right
      cases n with
      | zero => rfl
      | succ n => rw [List.cons_append, List.cons_append,
          readAnnotationUse?, if_neg hname]
  all_goals
    left
    intro source n inner right
    cases n <;> simp [readAnnotationUse?]

/-- What is behind modifiers in front of a block does not depend on what
is in the block. -/
theorem readModifiers_block (trees : List Tree) :
    ∃ behind, ∀ source n inner right, trees.length < n →
      (readModifiers source n (trees ++ [.group left inner right])).2 =
        behind ++ [.group left inner right] := by
  -- a modifier or an annotation goes, and what is left is shorter; the braces
  -- at the end stay
  induction hn : trees.length using Nat.strongRecOn generalizing trees with
  | ind k ih =>
  rcases trees with _ | ⟨t, rest⟩
  · exact ⟨[], fun _ n _ _ _ => by cases n <;> rfl⟩
  cases t with
  | group l i r => exact ⟨.group l i r :: rest, fun _ n _ _ _ => by cases n <;> rfl⟩
  | stray u => exact ⟨.stray u :: rest, fun _ n _ _ _ => by cases n <;> rfl⟩
  | leaf t =>
    rw [List.length_cons] at hn
    by_cases hword : (t.kind == .word && modifierWords.contains t.text) = true
    · obtain ⟨behind, hread⟩ := ih rest.length (by omega) rest rfl
      refine ⟨behind, fun source n inner right hlt => ?_⟩
      obtain ⟨n, rfl⟩ : ∃ m, n = m + 1 := Nat.exists_eq_add_one.mpr (by omega)
      rw [List.cons_append, readModifiers, if_pos hword]
      exact hread source n inner right (by omega)
    · rcases readAnnotationUse?_block block (.leaf t :: rest) with
        hnone | ⟨more, hlength, hsome⟩
      · refine ⟨.leaf t :: rest, fun source n inner right hlt => ?_⟩
        obtain ⟨n, rfl⟩ : ∃ m, n = m + 1 := Nat.exists_eq_add_one.mpr (by omega)
        rw [List.cons_append, readModifiers, if_neg hword, ← List.cons_append, hnone]
      · rw [List.length_cons] at hlength
        obtain ⟨behind, hread⟩ := ih more.length (by omega) more rfl
        refine ⟨behind, fun source n inner right hlt => ?_⟩
        obtain ⟨n, rfl⟩ : ∃ m, n = m + 2 := ⟨n - 2, by omega⟩
        obtain ⟨a, ha⟩ := hsome source n inner right
        rw [List.cons_append, readModifiers, if_neg hword, ← List.cons_append, ha]
        exact hread source (n + 1) inner right (by omega)

omit block in
theorem typeHeader?_block (trees : List Tree) (inner inner' : List Tree)
    (right right' : Token) :
    typeHeader? (trees ++ [.group left inner right]) =
      typeHeader? (trees ++ [.group left inner' right']) := by
  rcases trees with _ | ⟨_ | _ | _, _ | ⟨_ | _ | _, _ | ⟨_, _⟩⟩⟩ <;> rfl

omit block in
theorem takeItem_block {inAnnotationType assigned : Bool} {front : List Tree}
    {inner inner' : List Tree} {right right' : Token}
    (h : takeItem inAnnotationType assigned (front ++ [.group left inner right]) =
      (front ++ [.group left inner right], true, [])) :
    takeItem inAnnotationType assigned (front ++ [.group left inner' right']) =
      (front ++ [.group left inner' right'], true, []) := by
  induction front generalizing assigned with
  | nil =>
    rw [List.nil_append, takeItem] at h ⊢
    split at h
    · next hends => exact if_pos hends
    · cases h
  | cons t front ih =>
    rw [List.cons_append, takeItem] at h ⊢
    split at h
    · simp at h
    · next hgoes =>
      rw [if_neg hgoes]
      simp only [Prod.mk.injEq, List.cons.injEq, true_and] at h
      simp only [ih (Prod.ext h.1 (Prod.ext h.2.1 h.2.2))]

end

section

variable {left : Token} {inner inner' : List Tree} {right right' : Token}
    {front more more' : List Tree} {t t' : Tree}

/-- **What stands in front of a body does not depend on it**: an item that
declares a type declares one of the same name and kind when its last block is
filled otherwise, even in another source. -/
theorem declared_block {inAnnotationType : Bool} {source : Text}
    {within : Option TypeKind} {members : TypeKind → List Tree → List Declaration}
    {type : TypeDecl} (source' : Text)
    (members' : TypeKind → List Tree → List Declaration)
    (hitem : IsItem inAnnotationType (t :: more))
    (h : .nested type ∈ declared members source within t more)
    (hsplit : t :: more = front ++ [.group left inner right])
    (hsplit' : t' :: more' = front ++ [.group left inner' right']) :
    ∃ type', declared members' source' within t' more' = [.nested type'] ∧
      type'.name = type.name ∧
      type'.kind = type.kind := by
  obtain ⟨front₁, left₁, inner₁, right₁, hsplit₁, hblock, hheader, -, -⟩ :=
    of_nested_mem_declared hitem h
  obtain ⟨rfl, hgroup⟩ := List.append_inj' (hsplit.symm.trans hsplit₁) rfl
  cases hgroup
  -- modifiers and header are read from what stands in front of the braces
  obtain ⟨behind, hread⟩ := readModifiers_block hblock (front.filter (!·.isStray))
  have hclean : ∀ inner right,
      (front ++ [Tree.group left inner right]).filter (!·.isStray) =
      front.filter (!·.isStray) ++ [.group left inner right] := by
    intro inner right
    rw [List.filter_append]
    rfl
  have hfuel : ∀ inner right, (front.filter (!·.isStray)).length <
      Tree.sizes (front ++ [Tree.group left inner right]) + 1 := by
    intro inner right
    have hfilter := List.length_filter_le (fun t : Tree => !t.isStray) front
    have hsizes := length_le_sizes front
    rw [Tree.sizes_append]
    omega
  rw [hsplit, hclean, hread _ _ _ _ (hfuel _ _),
    typeHeader?_block behind inner inner' right right'] at hheader
  refine ⟨.mk type.name type.kind
    (readModifiers (source'.take right'.stop) (Tree.sizes (t' :: more') + 1)
      ((t' :: more').filter (!·.isStray))).1
    (members' type.kind (bodyTrees type.kind inner')) (.between t'.first right')
      (.between left right')
    t'.first.doc, ?_, rfl, rfl⟩
  have hlast : ((t' :: more').filter (!·.isStray)).getLast? =
      some (.group left inner' right') := by
    rw [hsplit', hclean, List.getLast?_append]
    rfl
  have hbehind :=
    hread (source'.take right'.stop) (Tree.sizes (t' :: more') + 1) inner' right'
      (hsplit' ▸ hfuel inner' right')
  rw [← hclean, ← hsplit'] at hbehind
  simp only [declared, hlast, Option.map_some, Option.getD_some, Tree.last]
  simp only [hbehind, hheader]

end

/-! ## Items that declare a type -/

/-- Trees in front of a block and the block are an item that declares a type. -/
inductive DeclaresType (source : Text) (within : Option TypeKind) (type : TypeDecl) :
    (header : List Tree) → (left : Token) → (inner : List Tree) → (right : Token) → Prop
  | mk {header : List Tree} {left : Token} {inner : List Tree} {right : Token}
      {t : Tree} {more : List Tree}
      (split : t :: more = header ++ [.group left inner right])
      (notStray : t.isStray = false)
      (item : IsItem (inAnnotationBody within) (t :: more))
      (mem : .nested type ∈
        declared (fun kind => declarations source (some kind)) source within t more) :
      DeclaresType source within type header left inner right

namespace DeclaresType

variable {source : Text} {within : Option TypeKind} {type : TypeDecl}
    {header inner : List Tree} {left right : Token}

theorem reads (h : DeclaresType source within type header left inner right) :
    left.isSign ['\x7b'] = true ∧
    type.members = declarations source (some type.kind) (bodyTrees type.kind inner) ∧
    type.body = .between left right := by
  cases h with
  | mk split _ item mem =>
    obtain ⟨front, _, _, _, hsplit, hblock, -, hmembers, hbody⟩ :=
      of_nested_mem_declared item mem
    obtain ⟨-, hgroup⟩ := List.append_inj' (split.symm.trans hsplit) rfl
    cases hgroup
    exact ⟨hblock, hmembers, hbody⟩

theorem declarations_eq (h : DeclaresType source within type header left inner right)
    (rest : List Tree) :
    declarations source within (header ++ .group left inner right :: rest) =
      .nested type :: declarations source within rest := by
  cases h with
  | mk split notStray item mem =>
    rw [← List.singleton_append, ← List.append_assoc, ← split,
      declarations_item notStray item, (eq_of_mem_declared item mem).1]
    rfl

/-- The block may be filled otherwise. -/
theorem refill (h : DeclaresType source within type header left inner right)
    (source' : Text) (inner' : List Tree) (right' : Token) :
    ∃ type', DeclaresType source' within type' header left inner' right' ∧
      type'.name = type.name ∧
      type'.kind = type.kind := by
  cases h with
  | @mk t more split notStray item mem =>
    obtain ⟨t', more', hsplit⟩ : ∃ t' more',
        t' :: more' = header ++ [.group left inner' right'] := by
      cases header with
      | nil => exact ⟨_, _, rfl⟩
      | cons u header => exact ⟨u, header ++ [.group left inner' right'], rfl⟩
    have hstray : t'.isStray = false := by
      cases header with
      | nil =>
        cases hsplit
        rfl
      | cons u header =>
        cases hsplit
        cases split
        exact notStray
    have hitem : IsItem (inAnnotationBody within) (t' :: more') := by
      rw [hsplit]
      exact takeItem_block (split ▸ item)
    obtain ⟨type', hread, hname, hkind⟩ := declared_block source'
      (fun kind => declarations source' (some kind)) item mem split hsplit
    exact ⟨type', .mk hsplit hstray hitem (hread ▸ List.mem_cons_self), hname, hkind⟩

end DeclaresType

/-- **Where a type is read from**: an item behind whole ones. -/
theorem exists_declaresType {source : Text} {within : Option TypeKind}
    {trees : List Tree} {type : TypeDecl}
    (h : .nested type ∈ declarations source within trees) :
    ∃ front header left inner right behind,
      trees = front ++ (header ++ .group left inner right :: behind) ∧
      Settled (inAnnotationBody within) front ∧
      DeclaresType source within type header left inner right := by
  obtain ⟨front, t, more, behind, rfl, hfront, hstray, hitem, hmem⟩ := exists_item h
  obtain ⟨header, left, inner, right, hsplit, -⟩ := of_nested_mem_declared hitem hmem
  refine ⟨front, header, left, inner, right, behind, ?_, hfront,
    .mk hsplit hstray hitem hmem⟩
  rw [hsplit, List.append_assoc, List.singleton_append]

/-! ## The constants of an enum -/

/-- Behind the constants of an enum and their semicolon, anything
else may stand. -/
theorem behindConstants_append {inner rest : List Tree}
    (h : behindConstants inner = rest) (hne : rest ≠ []) :
    ∃ front last, inner = front ++ [last] ++ rest ∧ last.isSign ";" = true ∧
      ∀ rest', behindConstants (front ++ [last] ++ rest') = rest' := by
  induction inner with
  | nil => exact absurd h.symm hne
  | cons t trees ih =>
    rw [behindConstants] at h
    split at h
    · next hsign =>
      subst h
      exact ⟨[], t, rfl, hsign, fun rest' => if_pos hsign⟩
    · next hsign =>
      obtain ⟨front, last, rfl, hlast, hfront⟩ := ih h
      refine ⟨t :: front, last, rfl, hlast, fun rest' => ?_⟩
      rw [List.cons_append, List.cons_append, behindConstants, if_neg hsign, hfront]

/-- Members behind the constants of an enum, if there are any, may be replaced
by anything. The constants are whole items, as it were. -/
theorem exists_constants {kind : TypeKind} {inner : List Tree}
    (hne : bodyTrees kind inner ≠ []) :
    ∃ front, inner = front ++ bodyTrees kind inner ∧
      Settled (inAnnotationBody (some kind)) front ∧
      ∀ body, bodyTrees kind (front ++ body) = body := by
  unfold bodyTrees at hne ⊢
  split at hne
  · next henum =>
    obtain ⟨front, last, hsplit, hlast, hbodies⟩ := behindConstants_append rfl hne
    simp only [henum, ↓reduceIte]
    refine ⟨front ++ [last], hsplit,
      settled_of_semicolon (some kind) _ fun t ht => ?_, hbodies⟩
    rw [List.getLast?_concat] at ht
    cases ht
    exact hlast
  · next hother =>
    simp only [hother]
    exact ⟨[], rfl, .nil, fun _ => rfl⟩

end Graft.Java
