import Graft.Proofs.Java.Moving

/-!
# Tokens that stand elsewhere

Trees are related when their tokens are, one by one (`Tree.Related`). Tokens
that are related to those of trees are the tokens of related trees
(`exists_related`). When nothing but the places of the tokens differs, the
brackets of the trees stay nested and their items whole (`Nested.of_alike`,
`Settled.of_alike`).
-/

namespace Graft.Java

namespace Tree

variable (R : Token → Token → Prop)

mutual

/-- The tokens of two trees of one shape are related. -/
def Related : Tree → Tree → Prop
  | .leaf t, .leaf t' => R t t'
  | .stray t, .stray t' => R t t'
  | .group left inner right, .group left' inner' right' =>
    R left left' ∧ AllRelated inner inner' ∧ R right right'
  | _, _ => False

/-- The tokens of trees of one shape are related. -/
def AllRelated : List Tree → List Tree → Prop
  | [], [] => True
  | t :: rest, t' :: rest' => Related t t' ∧ AllRelated rest rest'
  | _, _ => False

end

end Tree

section

variable {R : Token → Token → Prop}

theorem exists_of_forall₂_append {xs ys ts : List Token}
    (h : List.Forall₂ R (xs ++ ys) ts) :
    ∃ us vs, ts = us ++ vs ∧ List.Forall₂ R xs us ∧ List.Forall₂ R ys vs := by
  induction xs generalizing ts with
  | nil => exact ⟨[], ts, rfl, .nil, h⟩
  | cons x xs ih =>
    obtain _ | ⟨hx, hmore⟩ := h
    obtain ⟨us, vs, rfl, hus, hvs⟩ := ih hmore
    exact ⟨_ :: us, vs, rfl, .cons hx hus, hvs⟩

mutual

theorem Tree.exists_related_flat :
    (t : Tree) → (ts : List Token) → List.Forall₂ R t.flat ts →
    ∃ t', Tree.Related R t t' ∧ t'.flat = ts
  | .leaf t, ts, h => by
    rw [Tree.flat_leaf] at h
    obtain _ | ⟨ht, _ | _⟩ := h
    exact ⟨.leaf _, by rwa [Tree.Related], by simp⟩
  | .stray t, ts, h => by
    rw [Tree.flat_stray] at h
    obtain _ | ⟨ht, _ | _⟩ := h
    exact ⟨.stray _, by rwa [Tree.Related], by simp⟩
  | .group left inner right, ts, h => by
    rw [Tree.flat_group] at h
    obtain _ | ⟨hleft, hmore⟩ := h
    obtain ⟨us, vs, rfl, hinner, hlast⟩ := exists_of_forall₂_append hmore
    obtain _ | ⟨hright, _ | _⟩ := hlast
    obtain ⟨inner', hrelated, rfl⟩ := exists_related inner us hinner
    exact ⟨.group _ inner' _, by rw [Tree.Related]; exact ⟨hleft, hrelated,
      hright⟩, by simp⟩

/-- **Tokens related to those of trees** are the tokens of related trees. -/
theorem exists_related :
    (trees : List Tree) → (ts : List Token) → List.Forall₂ R (Tree.flats trees) ts →
    ∃ trees', Tree.AllRelated R trees trees' ∧ Tree.flats trees' = ts
  | [], ts, h => by
    rw [Tree.flats_nil] at h
    cases h
    exact ⟨[], by rw [Tree.AllRelated]; trivial, by simp⟩
  | t :: rest, ts, h => by
    rw [Tree.flats_cons] at h
    obtain ⟨us, vs, rfl, ht, hrest⟩ := exists_of_forall₂_append h
    obtain ⟨t', hrelated, rfl⟩ := t.exists_related_flat us ht
    obtain ⟨rest', hmore, rfl⟩ := exists_related rest vs hrest
    exact ⟨t' :: rest', by rw [Tree.AllRelated]; exact ⟨hrelated, hmore⟩, by simp⟩

end

theorem Tree.AllRelated.cons_iff {t : Tree} {rest trees : List Tree} :
    Tree.AllRelated R (t :: rest) trees ↔
      ∃ t' rest', trees = t' :: rest' ∧ t.Related R t' ∧
        Tree.AllRelated R rest rest' := by
  cases trees with
  | nil => simp [Tree.AllRelated]
  | cons t' rest' =>
    rw [Tree.AllRelated]
    constructor
    · intro h
      exact ⟨t', rest', rfl, h⟩
    · rintro ⟨_, _, heq, h⟩
      cases heq
      exact h

theorem Tree.AllRelated.nil_iff {trees : List Tree} :
    Tree.AllRelated R [] trees ↔ trees = [] := by
  cases trees <;> simp [Tree.AllRelated]

end

/-! ## Trees further behind -/

mutual

theorem Tree.Related.eq_moved (o : Offset) : (t t' : Tree) →
    t.Related (fun x y => x = y.moved o) t' → t = t'.moved o
  | .leaf _, .leaf _, h => by rw [Tree.Related] at h; rw [h, Tree.moved_leaf]
  | .stray _, .stray _, h => by rw [Tree.Related] at h; rw [h, Tree.moved_stray]
  | .group left inner right, .group left' inner' right', h => by
    rw [Tree.Related] at h
    rw [h.1, h.2.2, Tree.AllRelated.eq_moved o inner inner' h.2.1, Tree.moved_group]
  | .leaf _, .stray _, h | .leaf _, .group .., h | .stray _, .leaf _, h |
      .stray _, .group .., h
  | .group .., .leaf _, h | .group .., .stray _, h => by simp [Tree.Related] at h

theorem Tree.AllRelated.eq_moved (o : Offset) : (trees trees' : List Tree) →
    Tree.AllRelated (fun x y => x = y.moved o) trees trees' →
    trees = trees'.map (Tree.moved o)
  | [], [], _ => rfl
  | t :: rest, t' :: rest', h => by
    rw [Tree.AllRelated] at h
    rw [Tree.Related.eq_moved o t t' h.1, Tree.AllRelated.eq_moved o rest rest' h.2,
      List.map_cons]
  | [], _ :: _, h | _ :: _, [], h => by simp [Tree.AllRelated] at h

end

/-- Trees whose tokens stand further behind stand further behind. -/
theorem exists_eq_moved {o : Offset} {trees : List Tree} {ts : List Token}
    (h : Tree.flats trees = ts.map (Token.moved o)) :
    ∃ trees', trees = trees'.map (Tree.moved o) ∧ Tree.flats trees' = ts := by
  have hrelated : List.Forall₂ (fun x y => x = y.moved o) (Tree.flats trees) ts := by
    rw [h, List.forall₂_map_left_iff]
    exact List.forall₂_same.mpr fun _ _ => rfl
  obtain ⟨trees', htrees, hflats⟩ := exists_related trees ts hrelated
  exact ⟨trees', htrees.eq_moved, hflats⟩

/-! ## Trees that are alike -/

section

variable {t t' : Token}

theorem Token.Alike.isSign_eq (h : t.Alike t') (sign : Text) :
    t'.isSign sign = t.isSign sign := by
  rw [isSign, isSign, h.1, h.2]

theorem Token.Alike.isWord_eq (h : t.Alike t') (word : Text) :
    t'.isWord word = t.isWord word := by
  rw [isWord, isWord, h.1, h.2]

theorem Token.Alike.closingOf?_eq (h : t.Alike t') : closingOf? t' = closingOf? t := by
  simp only [closingOf?, h.isSign_eq]

theorem Token.Alike.isClosing_eq (h : t.Alike t') : isClosing t' = isClosing t := by
  simp only [isClosing, h.isSign_eq]

end

section

variable {t t' : Tree} {trees trees' : List Tree}

theorem Tree.Related.isSign_eq (h : t.Related Token.Alike t') (sign : Text) :
    t'.isSign sign = t.isSign sign := by
  cases t <;> cases t' <;> simp only [Tree.Related] at h
  · exact h.isSign_eq sign
  all_goals rfl

theorem Tree.Related.isWord_eq (h : t.Related Token.Alike t') (word : Text) :
    t'.isWord word = t.isWord word := by
  cases t <;> cases t' <;> simp only [Tree.Related] at h
  · exact h.isWord_eq word
  all_goals rfl

theorem Tree.Related.isBlock_eq (h : t.Related Token.Alike t') :
    t'.isBlock = t.isBlock := by
  cases t <;> cases t' <;> simp only [Tree.Related] at h
  case group => exact h.1.isSign_eq _
  all_goals rfl

theorem Tree.Related.isStray_eq (h : t.Related Token.Alike t') :
    t'.isStray = t.isStray := by
  cases t <;> cases t' <;> simp only [Tree.Related] at h <;> rfl

mutual

theorem Tree.related_moved (o o' : Offset) :
    (t : Tree) → (t.moved o).Related Token.Alike (t.moved o')
  | .leaf t => by rw [Tree.moved_leaf, Tree.moved_leaf, Tree.Related]; exact ⟨rfl, rfl⟩
  | .stray t => by rw [Tree.moved_stray, Tree.moved_stray,
      Tree.Related]; exact ⟨rfl, rfl⟩
  | .group left inner right => by
    rw [Tree.moved_group, Tree.moved_group, Tree.Related]
    exact ⟨⟨rfl, rfl⟩, Tree.allRelated_moved o o' inner, rfl, rfl⟩

/-- Trees at two places are alike. -/
theorem Tree.allRelated_moved (o o' : Offset) : (trees : List Tree) →
    Tree.AllRelated Token.Alike (trees.map (Tree.moved o)) (trees.map (Tree.moved o'))
  | [] => Tree.AllRelated.nil_iff.mpr rfl
  | t :: rest =>
    Tree.AllRelated.cons_iff.mpr
      ⟨_, _, rfl, Tree.related_moved o o' t, Tree.allRelated_moved o o' rest⟩

end

/-- Whether brackets are nested does not depend on where they stand. -/
theorem Nested.of_alike {closing : Option Text} (h : Nested closing trees)
    (hrelated : Tree.AllRelated Token.Alike trees trees') : Nested closing trees' := by
  induction h generalizing trees' with
  | nil =>
    rw [Tree.AllRelated.nil_iff] at hrelated
    exact hrelated ▸ .nil
  | leaf plain closesNone _ ih =>
    obtain ⟨t', rest', rfl, ht, hrest⟩ := Tree.AllRelated.cons_iff.mp hrelated
    cases t' <;> simp only [Tree.Related] at ht
    exact .leaf (by rwa [ht.closingOf?_eq]) (by rwa [ht.isClosing_eq]) (ih hrest)
  | stray opensNone closes unfit _ ih =>
    obtain ⟨t', rest', rfl, ht, hrest⟩ := Tree.AllRelated.cons_iff.mp hrelated
    cases t' <;> simp only [Tree.Related] at ht
    exact .stray (by rwa [ht.closingOf?_eq]) (by rwa [ht.isClosing_eq])
      (by rwa [← ht.2]) (ih hrest)
  | group fits opensNone closes _ _ ihWithin ihMore =>
    obtain ⟨t', rest', rfl, ht, hrest⟩ := Tree.AllRelated.cons_iff.mp hrelated
    cases t' <;> simp only [Tree.Related] at ht
    obtain ⟨hleft, hinner, hright⟩ := ht
    refine .group ?_ (by rwa [hright.closingOf?_eq]) (by rwa [hright.isClosing_eq]) ?_
      (ihMore hrest)
    · rwa [hleft.closingOf?_eq, ← hright.2]
    · rw [← hright.2]
      exact ihWithin hinner

theorem takeItem_of_alike (inAnnotationType assigned : Bool) {item rest : List Tree}
    {finished : Bool} (hrelated : Tree.AllRelated Token.Alike trees trees')
    (h : takeItem inAnnotationType assigned trees = (item, finished, rest)) :
    ∃ item' rest',
      takeItem inAnnotationType assigned trees' = (item', finished, rest') ∧
        Tree.AllRelated Token.Alike item item' ∧
        Tree.AllRelated Token.Alike rest rest' := by
  -- related trees end an item at the same place: only signs, words and braces
  -- decide
  induction trees generalizing assigned trees' item with
  | nil =>
    rw [Tree.AllRelated.nil_iff] at hrelated
    cases h
    refine ⟨[], [], ?_, ?_⟩ <;> simp [hrelated, takeItem, Tree.AllRelated]
  | cons t trees ih =>
    obtain ⟨t', trees', rfl, ht, hmore⟩ := Tree.AllRelated.cons_iff.mp hrelated
    rw [takeItem] at h ⊢
    rw [ht.isSign_eq, ht.isBlock_eq]
    split at h
    · next hends =>
      cases h
      exact ⟨[t'], trees', if_pos hends, Tree.AllRelated.cons_iff.mpr
        ⟨t', [], rfl, ht, by simp [Tree.AllRelated]⟩,
        hmore⟩
    · next hgoes =>
      dsimp only at h
      generalize htake : takeItem inAnnotationType
        (assigned || t.isSign "=" || (inAnnotationType && t.isWord "default"))
          trees = taken at h
      obtain ⟨item, finished, rest⟩ := taken
      cases h
      obtain ⟨item', rest', htake', hitem, hrest⟩ := ih _ hmore htake
      refine ⟨t' :: item', rest', ?_,
        Tree.AllRelated.cons_iff.mpr ⟨t', item', rfl, ht, hitem⟩, hrest⟩
      rw [if_neg hgoes, ht.isSign_eq, ht.isWord_eq]
      simp only [htake']

/-- Whether items are whole does not depend on where they stand. -/
theorem Settled.of_alike {inAnnotationType : Bool}
    (h : Settled inAnnotationType trees)
    (hrelated : Tree.AllRelated Token.Alike trees trees') :
    Settled inAnnotationType trees' := by
  induction h generalizing trees' with
  | nil =>
    rw [Tree.AllRelated.nil_iff] at hrelated
    exact hrelated ▸ .nil
  | stray isStray _ ih =>
    obtain ⟨t', rest', rfl, ht, hrest⟩ := Tree.AllRelated.cons_iff.mp hrelated
    exact .stray (by rwa [ht.isStray_eq]) (ih hrest)
  | @item t more rest notStray whole _ ih =>
    obtain ⟨item', rest', htake, hitem, hrest⟩ :=
      takeItem_of_alike inAnnotationType false hrelated (whole.takeItem_append rest)
    obtain ⟨t', more', rfl, ht, -⟩ := Tree.AllRelated.cons_iff.mp hitem
    obtain ⟨hwhole, hsplit⟩ := IsItem.of_takeItem htake
    rw [hsplit]
    exact .item (by rwa [ht.isStray_eq]) hwhole (ih hrest)

end

/-! ## How items end -/

theorem Token.of_isSign {t : Token} {sign : Text} (h : t.isSign sign = true) :
    t.kind = .sign ∧ t.text = sign := by
  rw [isSign, Bool.and_eq_true] at h
  exact ⟨eq_of_beq h.1, eq_of_beq h.2⟩

/-- A token that ends by itself. -/
def Token.Ends (t : Token) : Prop :=
  t.kind = .sign ∧ ∃ c, t.text = [c] ∧ (c = ';' ∨ isBracket [c] = true)

theorem ends_of_isClosing {t : Token} (h : isClosing t = true) : t.Ends := by
  simp only [isClosing, Bool.or_eq_true, or_assoc] at h
  rcases h with h | h | h
  all_goals
    obtain ⟨hkind, htext⟩ := Token.of_isSign h
    exact ⟨hkind, _, htext, .inr (by decide)⟩

theorem Token.Ends.isFirm {t : Token} (h : t.Ends) :
    Piece.IsFirm ⟨.token t.kind, t.text⟩ := by
  obtain ⟨hkind, c, htext, hc⟩ := h
  rw [hkind, htext]
  exact isFirm_sign hc

/-- A whole item ends with a semicolon or a bracket. -/
theorem IsItem.ends {inAnnotationType : Bool} {item : List Tree}
    (whole : IsItem inAnnotationType item) {closing : Option Text}
    (hnested : Nested closing item) :
    ∀ x ∈ (Tree.flats item).getLast?, x.Ends := by
  intro x hx
  obtain ⟨front, u, hsplit, hends, -⟩ := whole.exists_last
  obtain ⟨flatFront, hflat⟩ := u.flat_eq_concat_last
  rw [hsplit, Tree.flats_append, Tree.flats_cons, Tree.flats_nil, List.append_nil,
    hflat, ← List.append_assoc, List.getLast?_concat] at hx
  cases hx
  rcases hends with hends | hends
  · cases u with
    | leaf t =>
      obtain ⟨hkind, htext⟩ := Token.of_isSign hends
      exact ⟨hkind, _, htext, .inl rfl⟩
    | group | stray => cases hends
  · cases u with
    | group left inner right =>
      have hmem : .group left inner right ∈ item := by
        rw [hsplit]
        simp
      exact ends_of_isClosing (hnested.of_mem hmem).2.2.1
    | leaf | stray => cases hends

/-- Whole items and strays end with tokens that end by themselves. -/
theorem Settled.ends {inAnnotationType : Bool} {trees : List Tree}
    (h : Settled inAnnotationType trees) {closing : Option Text}
    (hnested : Nested closing trees) :
    ∀ x ∈ (Tree.flats trees).getLast?, x.Ends := by
  -- the last token is that of the last item or of a stray bracket behind it
  induction h with
  | nil => simp
  | @stray t rest isStray _ ih =>
    intro x hx
    cases hnested with
    | leaf | group => cases isStray
    | stray _ closes _ more =>
      rw [Tree.flats_cons, List.getLast?_append, Tree.flat_stray] at hx
      cases hrest : (Tree.flats rest).getLast? with
      | none =>
        rw [hrest] at hx
        cases hx
        exact ends_of_isClosing closes
      | some y =>
        rw [hrest] at hx
        cases hx
        exact ih more _ hrest
  | @item t more rest _ whole _ ih =>
    intro x hx
    rw [Nested.append_iff] at hnested
    rw [Tree.flats_append, List.getLast?_append] at hx
    cases hrest : (Tree.flats rest).getLast? with
    | some y =>
      rw [hrest] at hx
      cases hx
      exact ih hnested.2 _ hrest
    | none =>
      rw [hrest] at hx
      exact whole.ends hnested.1 x hx

/-- **Whole items end by themselves**: in front of anything but a line break,
they are read as they are whatever follows. -/
theorem Lexes.of_settled {inAnnotationType : Bool} {closing : Option Text}
    {trees : List Tree} {c : Char} {u w : Text} {s : Cursor} {xs : List Piece}
    (h : Lexes (c :: w) u xs) (hc : c ≠ '\n')
    (settled : Settled inAnnotationType trees) (nested : Nested closing trees)
    (hemit : s.emit xs = Tree.flats trees) : ∀ v, Lexes v u xs := by
  rcases List.eq_nil_or_concat xs with rfl | ⟨xs, x, rfl⟩
  · rw [Lexes.nil_iff] at h
    exact fun v => h ▸ .nil
  rw [List.concat_eq_append] at h hemit ⊢
  refine h.of_firm ⟨xs, x, rfl, ?_⟩
  obtain ⟨_, _, rfl, -, hlast⟩ := h.of_append
  obtain ⟨_, rfl, hx, hnil⟩ := Lexes.cons_iff.mp hlast
  obtain rfl := Lexes.nil_iff.mp hnil
  refine hx.isFirm hc fun kind hkind => ?_
  obtain ⟨_, text⟩ := x
  cases hkind
  have hends := settled.ends nested
  rw [← hemit, Cursor.emit_append] at hends
  exact (hends _ List.getLast?_concat).isFirm

end Graft.Java
