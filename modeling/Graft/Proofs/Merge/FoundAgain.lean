import Graft.Proofs.Merge.Seams

/-!
# Types that are found again

A type that a search finds stands in its source between two braces (`BodyOf`).
When its body is written anew from the opening brace on, the search finds the
type again, at the same depth, with all members that were read by hand
(`found_again`).
-/

namespace Graft.Merge

open Java Entity

/-- Where the body of a type stands in its source, and what it is read as. -/
structure BodyOf (source : Text) (type : TypeDecl) (start body rest : Text) (s : Cursor)
    (inner : List Tree) : Prop where
  source_eq : source = start ++ (body ++ rest)
  reads : ∃ xs, (∀ w, Opens w start xs) ∧ Cursor.fileStart.behindAll xs = s
  encloses : Encloses start body rest s inner
  opens : start.getLast? = some '\x7b'
  closes : rest.head? = some '\x7d'
  start_eq : type.body.start + 1 = start.length
  stop_eq : type.body.stop = (start ++ body).length + 1
  members : type.members =
    declarations source (some type.kind) (bodyTrees type.kind inner)

/-- A source is read as pieces, which give its tokens. -/
theorem exists_pieces {source : Text} (h : tokens source ≠ []) :
    ∃ xs, Opens [] source xs ∧ tokens source = Cursor.fileStart.emit xs := by
  have hne : source ≠ [] := by
    rintro rfl
    exact h rfl
  obtain ⟨xs, hxs⟩ := Opens.exists_whole hne
  have htokens := hxs.tokens_eq
  rw [List.append_nil] at htokens
  refine ⟨xs, hxs, htokens.trans ?_⟩
  rw [Cursor.read, tokensAt, tokensFrom_nil, List.append_nil]

/-- How a source is read around the body of a type: up to its opening brace,
between the braces, and from the closing brace on. -/
structure Around (source start body rest : Text) (before : List Token) (left : Token)
    (inner : List Tree) (right : Token) (after : List Token)
    (xs ys zs : List Piece) : Prop where
  source_eq : source = start ++ (body ++ rest)
  front : ∀ w, Opens w start xs
  front_tokens : Cursor.fileStart.emit xs = before ++ [left]
  opening : Cursor.fileStart.behindAll xs =
    ⟨left.stop, left.line + left.text.count '\n', none⟩
  opens : start.getLast? = some '\x7b'
  length_eq : start.length = left.start + 1
  between : Lexes rest body ys
  inner_tokens : (Cursor.fileStart.behindAll xs).emit ys = Tree.flats inner
  right_start : right.start = (start ++ body).length
  closes : rest.head? = some '\x7d'
  behind : Lexes [] rest zs
  behind_tokens : ((Cursor.fileStart.behindAll xs).behindAll ys).emit zs =
    right :: after

theorem exists_around {source : Text} {left right : Token} {before after : List Token}
    {inner : List Tree}
    (htokens : tokens source = before ++ left :: (Tree.flats inner ++ right :: after))
    (hleft : left.isSign ['\x7b'] = true) (hright : right.text = ['\x7d']) :
    ∃ start body rest xs ys zs,
      Around source start body rest before left inner right after xs ys zs := by
  have hne : tokens source ≠ [] := by simp [htokens]
  obtain ⟨pieces, hopens, hemit⟩ := exists_pieces hne
  obtain ⟨hkind, htext⟩ := Token.of_isSign hleft
  -- the pieces up to the opening brace, and those behind it
  obtain ⟨front, behind, hsplit, hbefore, hcursor⟩ :=
    Cursor.exists_token_piece (hemit.symm.trans htokens)
  obtain ⟨hxs, hbrace⟩ := Cursor.emit_concat_token hcursor
  rw [← List.singleton_append, ← List.append_assoc] at hsplit
  rw [hsplit] at hopens hemit
  obtain ⟨start, w, rfl, hstart, hw⟩ :=
    hopens.of_append (List.append_ne_nil_of_right_ne_nil _ (List.cons_ne_nil _ _))
  obtain ⟨startFront, hlast⟩ := hstart.exists_last
  have hbehind :
      (Cursor.fileStart.behindAll (front ++ [⟨.token left.kind, left.text⟩])).emit
        behind =
      Tree.flats inner ++ right :: after := by
    rw [hemit, Cursor.emit_append, hxs, hbefore, List.append_assoc] at htokens
    exact (List.cons.inj (List.append_cancel_left htokens)).2
  -- the pieces between the braces, and those from the closing one on
  obtain ⟨ys, zs, rfl, hys, hcursor'⟩ := Cursor.exists_token_piece hbehind
  obtain ⟨body, rest, rfl, hbody, hrest⟩ := hw.of_append
  obtain ⟨more, hmore, -, -⟩ := Lexes.cons_iff.mp hrest
  rw [List.append_nil] at hbody
  have hlength : start.length = left.start + 1 := by
    have hposition := hstart.position_eq
    rw [hbrace] at hposition
    rw [← hposition, Token.stop, htext]
    rfl
  have hend := Cursor.position_behindAll hbody
    (Cursor.fileStart.behindAll (front ++ [⟨.token left.kind, left.text⟩]))
  rw [hcursor', hstart.position_eq] at hend
  rw [Cursor.emit_append, hys] at hbehind
  have hfirm : Piece.IsFirm ⟨.token left.kind, left.text⟩ := by
    rw [hkind, htext]
    exact isFirm_sign (.inr (by decide))
  exact ⟨start, body, rest, _, ys, _,
    { source_eq := rfl
      front := hstart.of_firm ⟨front, _, rfl, hfirm⟩
      front_tokens := hbefore ▸ hxs
      opening := hbrace
      opens := by rw [hlast, htext, List.getLast?_concat]
      length_eq := hlength
      between := hbody
      inner_tokens := hys
      right_start := by rw [List.length_append]; exact hend
      closes := by rw [hmore, hright]; rfl
      behind := hrest
      behind_tokens := List.append_cancel_left hbehind }⟩

/-- What was read by hand in types that stand apart from a body is read
again. -/
theorem SameAround.views_apart {source source' : Text} {place : Nat} {o o' : Offset}
    (same : SameAround source source' place o o') {t t' : TypeDecl}
    (h : StandsApart place o o' t t') :
    (views source t.members).Sublist (views source' t'.members) := by
  rcases h with ⟨rfl, hd⟩ | ⟨t₀, rfl, rfl⟩
  · rw [views_take same.front fun d hmem => hd d (.here hmem)]
  · obtain ⟨start, start', rest, rfl, rfl, ho, ho'⟩ := same.behind
    rw [TypeDecl.members_moved, TypeDecl.members_moved, views_moved ho, views_moved ho']

namespace Around

variable {source name start body rest v : Text} {type : TypeDecl}
    {before after : List Token} {left right : Token} {trees inner : List Tree}
    {xs ys zs ys' : List Piece}

theorem doc_eq
    (h : Around source start body rest before left inner right after xs ys zs) :
    (Cursor.fileStart.behindAll xs).doc = none :=
  congrArg Cursor.doc h.opening

theorem position_eq
    (h : Around source start body rest before left inner right after xs ys zs) :
    (Cursor.fileStart.behindAll xs).position = start.length :=
  (h.front []).position_eq

theorem stop_le
    (h : Around source start body rest before left inner right after xs ys zs) :
    ∀ x ∈ before, x.stop ≤ start.length := by
  intro x hx
  rw [← h.position_eq]
  exact (Cursor.bounds_of_mem_emit (h.front_tokens ▸ List.mem_append_left _ hx)).2

theorem bodyOf
    (h : Around source start body rest before left inner right after xs ys zs)
    (hholds : Holds source name type none trees before left inner right after)
    (hright : right.text = ['\x7d']) (hnested : Nested (some ['\x7d']) inner) :
    BodyOf source type start body rest (Cursor.fileStart.behindAll xs) inner where
  source_eq := h.source_eq
  reads := ⟨xs, h.front, rfl⟩
  encloses := ⟨h.position_eq, h.doc_eq, ⟨ys, h.between, h.inner_tokens⟩, hnested⟩
  opens := h.opens
  closes := h.closes
  start_eq := by
    rw [hholds.reads.2.1, h.length_eq]
    rfl
  stop_eq := by
    rw [hholds.reads.2.1, ← h.right_start]
    show right.stop = _
    rw [Token.stop, hright]
    rfl
  members := hholds.reads.2.2

/-- With another text between the braces, the source is the same around it. -/
theorem sameAround
    (h : Around source start body rest before left inner right after xs ys zs)
    (hys' : Lexes rest v ys') :
    SameAround source (start ++ (v ++ rest)) start.length
      ((Cursor.fileStart.behindAll xs).behindAll ys).offset
      ((Cursor.fileStart.behindAll xs).behindAll ys').offset := by
  refine ⟨h.source_eq ▸ take_length_append start _ _, start ++ body, start ++ v, rest,
    by rw [h.source_eq, List.append_assoc], (List.append_assoc _ _ _).symm, ?_, ?_⟩
  · rw [Cursor.offset, Cursor.position_behindAll h.between, h.position_eq,
      List.length_append]
  · rw [Cursor.offset, Cursor.position_behindAll hys', h.position_eq,
      List.length_append]

/-- The tokens of the source with another text between the braces. -/
theorem tokens_eq
    (h : Around source start body rest before left inner right after xs ys zs)
    (hys' : Lexes rest v ys') :
    tokens (start ++ (v ++ rest)) =
      before ++ left :: ((Cursor.fileStart.behindAll xs).emit ys' ++
      ((Cursor.fileStart.behindAll xs).behindAll ys').emit zs) := by
  have hopens :=
    Opens.append (h.front _) (Lexes.append (by rwa [List.append_nil]) h.behind)
  have htokens := hopens.tokens_eq
  rw [List.append_nil] at htokens
  rw [htokens, Cursor.read, tokensAt, tokensFrom_nil, List.append_nil,
    Cursor.emit_append, Cursor.emit_append, h.front_tokens]
  simp

end Around

/-- **A type whose body is written anew** from its opening brace on is
found again, at the same depth, with all members that were read by hand,
in their order. -/
theorem found_again {source name : Text} {type : TypeDecl} {depth : Nat}
    (closed : Tree.flats (Tree.ofTokens (tokens source)) = tokens source)
    (found : locate? (CompilationUnit.read source).types name = some (type, depth)) :
    ∃ start body rest s inner, BodyOf source type start body rest s inner ∧
      ∀ t, Written start rest s type.kind (bodyViews source type.kind inner) [] [] t →
        ∃ type', locate? (CompilationUnit.read (start ++ t)).types name =
          some (type', depth) ∧
          (views source type.members).Sublist (views (start ++ t) type'.members) := by
  rw [types_read closed] at found
  obtain ⟨before, left, inner, right, after, hholds⟩ :=
    exists_holds (leadsTo_of_locateFrom found) rfl
  have hnestedAll := nested_ofTokens closed
  obtain ⟨hleft, -, hmembers⟩ := hholds.reads
  obtain ⟨hfits, -, -, hnested⟩ := hholds.nested hnestedAll
  have hright : right.text = ['\x7d'] := by
    obtain ⟨hkind, htext⟩ := Token.of_isSign hleft
    have hclosing : closingOf? left = some ['\x7d'] := by
      simp [closingOf?, Token.isSign, hkind, htext]
    exact Option.some.inj (hfits.symm.trans hclosing)
  obtain ⟨start, body, rest, xs, ys, zs, around⟩ :=
    exists_around (closed.symm.trans hholds.flats_eq) hleft hright
  refine ⟨start, body, rest, _, inner,
    around.bodyOf hholds hright (hright ▸ hnested), ?_⟩
  rintro t ⟨v, ys', back, rfl, hys', hback, hnested', hread⟩
  rw [Cursor.past_nil around.doc_eq] at hback
  obtain ⟨right', after₀, halike, rfl, hafter'⟩ :=
    Cursor.exists_moved_behind around.behind_tokens ys'
  have same := around.sameAround hys'
  -- what was read by hand is read again in the types around the body and in the
  -- one with the new body
  let Keeps := fun t t' : TypeDecl =>
    (views source t.members).Sublist (views (start ++ (v ++ rest)) t'.members)
  have fills : ∀ type' : TypeDecl, type'.members =
      declarations (start ++ (v ++ rest)) (some type.kind)
        (bodyTrees type.kind back) → Keeps type type' := by
    intro type' hmembers'
    dsimp only [Keeps]
    rw [hmembers', hmembers]
    exact hread
  obtain ⟨trees, hflats, hclosing, hsearched⟩ :=
    hholds.refill same (fun _ _ => same.views_apart) around.stop_le rfl fills halike
      (hright ▸ hnested')
  have hout : tokens (start ++ (v ++ rest)) = Tree.flats trees := by
    rw [around.tokens_eq hys', hback, hafter', hflats]
  have htrees : Tree.ofTokens (tokens (start ++ (v ++ rest))) = trees := by
    rw [hout, (hclosing none hnestedAll).ofTokens_flats]
  obtain ⟨type', hfound, hviews⟩ := (hsearched _).locateFrom found
  refine ⟨type', ?_, hviews⟩
  rw [types_read (by rw [htrees, hout]), htrees]
  exact locateFrom_levels hfound (Nat.le_refl _)

end Graft.Merge
