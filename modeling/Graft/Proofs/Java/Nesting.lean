import Graft.Proofs.Java.Brackets

/-!
# The tokens of trees

Trees hold their tokens in the order of the source (`Tree.flats`). When every
bracket of a source is closed by a token of its own, grouping loses and adds
none: its trees are `Nested`, and from the tokens of nested trees the same trees
come back (`Nested.ofTokens_flats`, `nested_ofTokens`).
-/

namespace Graft.Java

namespace Tree

mutual

/-- The tokens of a tree. -/
def flat : Tree → List Token
  | .leaf t => [t]
  | .stray t => [t]
  | .group left inner right => left :: (flats inner ++ [right])

/-- The tokens of trees. -/
def flats : List Tree → List Token
  | [] => []
  | t :: rest => flat t ++ flats rest

end

@[simp] theorem flats_nil : flats [] = [] := by rw [flats]

@[simp] theorem flats_cons (t : Tree) (trees : List Tree) :
    flats (t :: trees) = t.flat ++ flats trees := by
  rw [flats]

@[simp] theorem flats_append (trees trees' : List Tree) :
    flats (trees ++ trees') = flats trees ++ flats trees' := by
  induction trees with
  | nil => simp
  | cons t rest ih => simp [ih]

@[simp] theorem flat_leaf (t : Token) : (leaf t).flat = [t] := by rw [flat]

@[simp] theorem flat_stray (t : Token) : (stray t).flat = [t] := by rw [flat]

@[simp] theorem flat_group (left right : Token) (inner : List Tree) :
    (group left inner right).flat = left :: (flats inner ++ [right]) := by
  rw [flat]

/-- The first token of a tree is its first. -/
theorem flat_eq_first_cons (t : Tree) : ∃ more, t.flat = t.first :: more := by
  cases t <;> simp [first]

/-- The last token of a tree is its last. -/
theorem flat_eq_concat_last (t : Tree) : ∃ more, t.flat = more ++ [t.last] := by
  cases t with
  | leaf t | stray t => exact ⟨[], by simp [last]⟩
  | group left inner right => exact ⟨left :: flats inner, by simp [last]⟩

theorem flat_ne_nil (t : Tree) : t.flat ≠ [] := by
  obtain ⟨more, h⟩ := t.flat_eq_first_cons
  exact h ▸ List.cons_ne_nil _ _

theorem flats_eq_nil_iff {trees : List Tree} : flats trees = [] ↔ trees = [] := by
  cases trees with
  | nil => simp
  | cons t rest => simp [flat_ne_nil]

mutual

theorem size_eq_length : (t : Tree) → t.size = t.flat.length
  | .leaf _ => by simp [size]
  | .stray _ => by simp [size]
  | .group _ inner _ => by simp [size, sizes_eq_length inner]

/-- Trees have as many tokens as they are said to have. -/
theorem sizes_eq_length : (trees : List Tree) → sizes trees = (flats trees).length
  | [] => by simp [sizes]
  | t :: rest => by simp [sizes, size_eq_length t, sizes_eq_length rest]

end

theorem sizes_append (trees trees' : List Tree) :
    sizes (trees ++ trees') = sizes trees + sizes trees' := by
  simp [sizes_eq_length]

theorem flat_sublist_flats {t : Tree} {trees : List Tree} (h : t ∈ trees) :
    t.flat.Sublist (flats trees) := by
  obtain ⟨front, behind, rfl⟩ := List.append_of_mem h
  rw [flats_append, flats_cons]
  exact (List.sublist_append_left _ _).trans (List.sublist_append_right _ _)

theorem flats_sublist {trees trees' : List Tree} (h : trees.Sublist trees') :
    (flats trees).Sublist (flats trees') := by
  induction h with
  | slnil => exact .slnil
  | cons t _ ih =>
    rw [flats_cons]
    exact ih.trans (List.sublist_append_right _ _)
  | cons_cons t _ ih =>
    rw [flats_cons, flats_cons]
    exact (List.Sublist.refl _).append ih

end Tree

/-! ## Brackets that are closed -/

/-- Trees that stand between brackets which a text closes, or outside of all
brackets: every bracket among them is closed by the one that fits it, and no
stray closes what stands around it. -/
inductive Nested : (closing : Option Text) → List Tree → Prop
  | nil {closing : Option Text} : Nested closing []
  | leaf {closing : Option Text} {t : Token} {trees : List Tree}
      (plain : closingOf? t = none) (closesNone : isClosing t = false)
      (more : Nested closing trees) :
      Nested closing (.leaf t :: trees)
  | stray {closing : Option Text} {t : Token} {trees : List Tree}
      (opensNone : closingOf? t = none) (closes : isClosing t = true)
      (unfit : closing ≠ some t.text) (more : Nested closing trees) :
      Nested closing (.stray t :: trees)
  | group {closing : Option Text} {left right : Token} {inner trees : List Tree}
      (fits : closingOf? left = some right.text) (opensNone : closingOf? right = none)
      (closes : isClosing right = true) (within : Nested (some right.text) inner)
      (more : Nested closing trees) : Nested closing (.group left inner right :: trees)

namespace Nested

variable {closing : Option Text} {trees trees' : List Tree}

theorem append_iff : Nested closing (trees ++ trees') ↔
    Nested closing trees ∧ Nested closing trees' := by
  constructor
  · intro h
    induction trees with
    | nil => exact ⟨.nil, h⟩
    | cons t rest ih =>
      cases h with
      | leaf plain closesNone more =>
        exact ⟨.leaf plain closesNone (ih more).1, (ih more).2⟩
      | stray opensNone closes unfit more =>
        exact ⟨.stray opensNone closes unfit (ih more).1, (ih more).2⟩
      | group fits opensNone closes within more =>
        exact ⟨.group fits opensNone closes within (ih more).1, (ih more).2⟩
  · rintro ⟨h, h'⟩
    induction h with
    | nil => exact h'
    | leaf plain closesNone _ ih => exact .leaf plain closesNone (ih h')
    | stray opensNone closes unfit _ ih => exact .stray opensNone closes unfit (ih h')
    | group fits opensNone closes within _ _ ih =>
      exact .group fits opensNone closes within (ih h')

/-- What is between brackets is nested as they close it. -/
theorem of_mem {left right : Token} {inner : List Tree} (h : Nested closing trees)
    (hmem : .group left inner right ∈ trees) : closingOf? left = some right.text ∧
      closingOf? right = none ∧ isClosing right = true ∧
      Nested (some right.text) inner := by
  obtain ⟨front, behind, rfl⟩ := List.append_of_mem hmem
  cases (append_iff.mp h).2 with
  | group fits opensNone closes within _ => exact ⟨fits, opensNone, closes, within⟩

/-- Trees without strays among them stand between brackets of any kind. -/
theorem anywhere (h : Nested closing trees) (whole : ∀ t ∈ trees, t.isStray = false)
    (closing' : Option Text) : Nested closing' trees := by
  induction h with
  | nil => exact .nil
  | leaf plain closesNone _ ih =>
    exact .leaf plain closesNone (ih (List.forall_mem_cons.mp whole).2)
  | stray => cases (List.forall_mem_cons.mp whole).1
  | group fits opensNone closes within _ _ ih =>
    exact .group fits opensNone closes within (ih (List.forall_mem_cons.mp whole).2)

/-- Wherever their brackets are open, the tokens of nested trees
become the trees. -/
theorem groupFrom (h : Nested closing trees) (finish : Token)
    {open' : List (Token × List Tree)}
    (hopen : open'.head?.bind (closingOf? ·.1) = closing) (done : List Tree)
    (rest : List Token) :
    Tree.groupFrom finish open' done (Tree.flats trees ++ rest) =
      Tree.groupFrom finish open' (trees.reverse ++ done) rest := by
  induction h generalizing open' done rest with
  | nil => simp
  | leaf plain closesNone _ ih =>
    simp only [Tree.flats_cons, Tree.flat_leaf, List.cons_append, List.nil_append]
    rw [Tree.groupFrom_plain plain closesNone, ih hopen]
    simp
  | stray opensNone closes unfit _ ih =>
    simp only [Tree.flats_cons, Tree.flat_stray, List.cons_append, List.nil_append]
    rw [Tree.groupFrom_stray opensNone closes, ih hopen]
    · simp
    · intro o ho
      rw [Option.mem_def.mp ho, Option.bind_some] at hopen
      rwa [hopen]
  | @group _ left right inner _ fits opensNone closes _ _ ihWithin ihMore =>
    simp only [Tree.flats_cons, Tree.flat_group, List.cons_append, List.append_assoc]
    rw [Tree.groupFrom_opening fits, ihWithin (by simpa using fits), List.nil_append,
      Tree.groupFrom_closing opensNone closes fits, ihMore hopen]
    simp

/-- **Nested trees are what their tokens become.** -/
theorem ofTokens_flats (h : Nested none trees) :
    Tree.ofTokens (Tree.flats trees) = trees := by
  unfold Tree.ofTokens
  have hopen : ([] : List (Token × List Tree)).head?.bind (closingOf? ·.1) = none := rfl
  have hread := fun finish => h.groupFrom finish hopen [] []
  simp only [List.append_nil] at hread
  simp only [hread, Tree.groupFrom, Tree.closeAll, List.reverse_reverse]

end Nested

/-! ## Grouping keeps the tokens -/

/-- The brackets that are open, and the trees since the innermost one, hold the
tokens read so far. -/
def HoldRead : (open' : List (Token × List Tree)) → (done : List Tree) →
    (read : List Token) → Prop
  | [], done, read => Nested none done.reverse ∧ Tree.flats done.reverse = read
  | (left, outer) :: open', done, read => (closingOf? left).isSome ∧
    Nested (closingOf? left) done.reverse ∧
      ∃ before, HoldRead open' outer before ∧
        read = before ++ left :: Tree.flats done.reverse

namespace HoldRead

variable {open' : List (Token × List Tree)} {done : List Tree} {read : List Token}

/-- The trees since the innermost open bracket are nested in it. -/
theorem nested (h : HoldRead open' done read) :
    Nested (open'.head?.bind (closingOf? ·.1)) done.reverse := by
  cases open' with
  | nil => exact h.1
  | cons o open' => exact h.2.1

/-- A nested tree joins the others. -/
theorem join (h : HoldRead open' done read) {t : Tree}
    (ht : Nested (open'.head?.bind (closingOf? ·.1)) [t]) :
    HoldRead open' (t :: done) (read ++ t.flat) := by
  have hnested := Nested.append_iff.mpr ⟨h.nested, ht⟩
  rw [← List.reverse_cons] at hnested
  cases open' with
  | nil => exact ⟨hnested, by rw [← h.2]; simp⟩
  | cons o open' =>
    obtain ⟨hopens, -, before, hbefore, rfl⟩ := h
    exact ⟨hopens, hnested, before, hbefore, by simp⟩

theorem step (h : HoldRead open' done read) (t : Token) :
    ∃ open'' done', HoldRead open'' done' (read ++ [t]) ∧ ∀ finish rest,
      Tree.groupFrom finish open' done (t :: rest) =
        Tree.groupFrom finish open'' done' rest := by
  -- an opening bracket opens a level, and one that fits closes it; all else
  -- stays on its level
  cases hopening : closingOf? t with
  | some right =>
    refine ⟨(t, done) :: open', [],
      ⟨by simp [hopening], .nil, read, h, by simp⟩, fun _ _ =>
      Tree.groupFrom_opening hopening⟩
  | none =>
  cases hclosing : isClosing t with
  | false =>
    refine ⟨open', .leaf t :: done, ?_,
      fun _ _ => Tree.groupFrom_plain hopening hclosing⟩
    simpa using h.join (.leaf hopening hclosing .nil)
  | true =>
  by_cases hfits : ∃ left outer open'', open' = (left, outer) :: open'' ∧
    closingOf? left = some t.text
  · obtain ⟨left, outer, open'', rfl, hfits⟩ := hfits
    obtain ⟨-, hnested, before, hbefore, rfl⟩ := h
    rw [hfits] at hnested
    refine ⟨open'', .group left done.reverse t :: outer, ?_, fun _ _ =>
      Tree.groupFrom_closing hopening hclosing hfits⟩
    simpa using hbefore.join (.group hfits hopening hclosing hnested .nil)
  · have hunfit : ∀ o ∈ open'.head?, closingOf? o.1 ≠ some t.text := by
      intro o ho hfit
      obtain ⟨open'', rfl⟩ := List.head?_eq_some_iff.mp ho
      exact hfits ⟨o.1, o.2, open'', rfl, hfit⟩
    refine ⟨open', .stray t :: done, ?_,
      fun _ _ => Tree.groupFrom_stray hopening hclosing hunfit⟩
    have hstray : Nested (open'.head?.bind (closingOf? ·.1)) [.stray t] := by
      refine .stray hopening hclosing ?_ .nil
      cases hhead : open'.head? with
      | none => simp
      | some o => simpa using hunfit o hhead
    simpa using h.join hstray

theorem run (h : HoldRead open' done read) (tokens : List Token) :
    ∃ open'' done', HoldRead open'' done' (read ++ tokens) ∧ ∀ finish,
      Tree.groupFrom finish open' done tokens = Tree.closeAll finish open'' done' := by
  induction tokens generalizing open' done read with
  | nil => exact ⟨open', done, by simpa using h, fun _ => by rw [Tree.groupFrom]⟩
  | cons t tokens ih =>
    obtain ⟨open1, done1, hnext, hstep⟩ := h.step t
    obtain ⟨open2, done2, hlast, hrun⟩ := ih hnext
    exact ⟨open2, done2, by simpa using hlast, fun finish => by rw [hstep, hrun]⟩

end HoldRead

/-- How many tokens the brackets that are open, and the trees since the
innermost one, hold. -/
def heldLength : List (Token × List Tree) → List Tree → Nat
  | [], done => (Tree.flats done.reverse).length
  | (_, outer) :: open', done =>
    heldLength open' outer + 1 + (Tree.flats done.reverse).length

theorem heldLength_cons (open' : List (Token × List Tree)) (t : Tree)
    (done : List Tree) :
    heldLength open' (t :: done) = heldLength open' done + t.flat.length := by
  cases open' with
  | nil => simp [heldLength]
  | cons o open' =>
    simp [heldLength]
    omega

theorem HoldRead.heldLength_eq {open' : List (Token × List Tree)} {done : List Tree}
    {read : List Token} (h : HoldRead open' done read) :
    heldLength open' done = read.length := by
  induction open' generalizing done read with
  | nil => simp [heldLength, ← h.2]
  | cons o open' ih =>
    obtain ⟨-, -, before, hbefore, rfl⟩ := h
    simp only [heldLength, ih hbefore, List.length_append, List.length_cons]
    omega

/-- Brackets that are still open are each closed by one more token. -/
theorem length_flats_closeAll (finish : Token) (open' : List (Token × List Tree))
    (done : List Tree) :
    (Tree.flats (Tree.closeAll finish open' done)).length =
      heldLength open' done + open'.length := by
  induction open' generalizing done with
  | nil => simp [Tree.closeAll, heldLength]
  | cons o open' ih =>
    rw [Tree.closeAll, ih, heldLength_cons]
    simp [heldLength]
    omega

/-- **Trees that hold the tokens they are made of are nested**: no
bracket was left open. -/
theorem nested_ofTokens {tokens : List Token}
    (h : Tree.flats (Tree.ofTokens tokens) = tokens) :
    Nested none (Tree.ofTokens tokens) := by
  have hstart : HoldRead [] [] [] := ⟨.nil, by simp⟩
  obtain ⟨open', done, hread, hrun⟩ := hstart.run tokens
  rw [List.nil_append] at hread
  unfold Tree.ofTokens at h ⊢
  simp only [hrun] at h ⊢
  have hlength := congrArg List.length h
  rw [length_flats_closeAll, hread.heldLength_eq] at hlength
  obtain rfl : open' = [] := List.length_eq_zero_iff.mp (by omega)
  exact hread.1

end Graft.Java
