import Graft.Proofs.Code.Lines
import Graft.Proofs.Merge.FoundAgain
import Graft.Proofs.Merge.Slots
import Graft.Proofs.Merge.StandsAlone

/-!
# Seams at members

A body has a seam behind each of its members (`Encloses.exists_seam_behind`),
and one in front of each that no loose documentation comment stands in front of
(`BodyOf.exists_seam_before`).
-/

namespace Graft.Merge

open Java Entity Code

/-- A word of one letter. -/
theorem lexes_letter : Lexes [] "x".toList [⟨.token .word, "x".toList⟩] :=
  Lexes.cons_iff.mpr ⟨[], rfl, ⟨List.cons_ne_nil _ _, by decide +kernel⟩, .nil⟩

/-- Items of a body among which a member is read: those in front of it, its own,
and those behind it. -/
structure ItemOf (source : Text) (kind : TypeKind) (inner : List Tree) (d : Declaration)
    (front item back : List Tree) :
    Prop where
  trees : inner = front ++ (item ++ back)
  settled : Settled (inAnnotationBody (some kind)) front
  whole : Settled (inAnnotationBody (some kind)) item
  declares : declarations source (some kind) item = [d]
  doc : ∃ t ∈ (Tree.flats item).head?, d.doc = t.doc ∧ d.span.start = t.start
  stop : ∃ t ∈ (Tree.flats item).getLast?, d.span.stop = t.stop
  mayGo : ∀ back, MayChange kind front item back
  mayFollow : ∀ back, MayChange kind (front ++ item) [] back

/-- Every member is read from an item of the body. -/
theorem exists_itemOf {source : Text} {kind : TypeKind} {inner : List Tree}
    {d : Declaration}
    (h : d ∈ declarations source (some kind) (bodyTrees kind inner)) :
    ∃ front item back, ItemOf source kind inner d front item back := by
  have hne : bodyTrees kind inner ≠ [] := by
    intro hnil
    rw [hnil] at h
    cases h
  -- the constants of an enumeration stand in front of the items of its body
  obtain ⟨start, hinner, hstart, hbodies⟩ := exists_constants hne
  obtain ⟨front, t, more, back, hsplit, hfront, hstray, hitem, hmem⟩ := exists_item h
  obtain ⟨hdeclared, hdoc, itemFront, u, hitemSplit, hspan⟩ :=
    eq_of_mem_declared hitem hmem
  have hwhole := hitem.settled hstray
  refine ⟨start ++ front, t :: more, back, ?_, hstart.append hfront, hwhole, ?_, ?_,
    ?_, fun back' => ?_,
    fun back' => ?_⟩
  · rw [hinner, hsplit, List.append_assoc]
  · have hread : declarations source (some kind) (t :: more ++ []) = _ :=
      declarations_item hstray hitem
    rwa [List.append_nil, hdeclared, declarations_nil, List.append_nil] at hread
  · obtain ⟨flatMore, hflat⟩ := t.flat_eq_first_cons
    refine ⟨t.first, by rw [Tree.flats_cons, hflat]; rfl, hdoc, ?_⟩
    rw [hspan]
    rfl
  · obtain ⟨flatFront, hflat⟩ := u.flat_eq_concat_last
    refine ⟨u.last, ?_, ?_⟩
    · rw [hitemSplit, Tree.flats_append, Tree.flats_cons, Tree.flats_nil,
        List.append_nil, hflat, ← List.append_assoc, List.getLast?_concat]
      rfl
    · rw [hspan]
      rfl
  · exact .between hbodies hfront hwhole
  · rw [List.append_assoc]
    exact .between hbodies (hfront.append hwhole) .nil

section

variable {start body rest u : Text} {s : Cursor} {inner front back : List Tree}
    {inAnnotationType : Bool}

/-- A body has a seam behind whole items. -/
theorem Encloses.exists_seam_behind (h : Encloses start body rest s inner)
    (hinner : inner = front ++ back) (settled : Settled inAnnotationType front)
    {x : Token} (hx : (Tree.flats front).getLast? = some x) :
    ∃ u, Seam body s inner u front ∧ x.stop = (start ++ u).length ∧
      ∃ c, u.getLast? = some c ∧ Char.isBlank c = false := by
  obtain ⟨xs, hxs, hemit⟩ := h.pieces
  have hends := settled.ends (Nested.append_iff.mp (hinner ▸ h.nested)).1 x hx
  obtain ⟨flatFront, hflat⟩ := List.getLast?_eq_some_iff.mp hx
  rw [hinner, Tree.flats_append, hflat, List.append_assoc] at hemit
  obtain ⟨ys, zs, rfl, hys, hcursor⟩ := Cursor.exists_token_piece hemit
  obtain ⟨hfront, hbehind⟩ := Cursor.emit_concat_token hcursor
  rw [← List.singleton_append, ← List.append_assoc] at hxs
  obtain ⟨u, w, rfl, hu, -⟩ := hxs.of_append
  have hpast := Cursor.behindAll_eq_past hu (s := s) (by rw [hbehind])
  refine ⟨u,
    ⟨⟨w, rfl⟩, ⟨back, hinner.symm⟩, _, hu.of_firm ⟨ys, _, rfl, hends.isFirm⟩, ?_,
      hpast⟩, ?_, ?_⟩
  · rw [hfront, hys, hflat]
  · rw [hbehind] at hpast
    rw [List.length_append, ← h.position]
    exact congrArg Cursor.position hpast
  · obtain ⟨more, c, htext, hc⟩ :=
      (hends.isFirm.2 ['x']).exists_last (List.cons_ne_nil _ _)
    obtain ⟨front', rfl⟩ := hu.exists_last
    refine ⟨c, ?_, hc⟩
    dsimp only at htext ⊢
    rw [htext, ← List.append_assoc, List.getLast?_concat]

/-- Where a member begins, with its documentation comment. -/
def extentStart (t : Token) : Nat :=
  match t.doc with
  | some doc => min doc.start t.start
  | none => t.start

/-- Whole items in front of a member are read as they are whatever follows. -/
theorem Encloses.exists_before (h : Encloses start body rest s inner)
    (hinner : inner = front ++ back) (settled : Settled inAnnotationType front)
    {t : Token} (ht : (Tree.flats back).head? = some t) :
    ∃ u ys, u <+: body ∧ extentStart t = (start ++ u).length ∧ (∀ w, Lexes w u ys) ∧
      s.emit ys = Tree.flats front ∧ ∃ c more, body ++ rest = u ++ c :: more ∧
      c ≠ '\n' := by
  obtain ⟨xs, hxs, hemit⟩ := h.pieces
  obtain ⟨flatBack, hflat⟩ := List.head?_eq_some_iff.mp ht
  rw [hinner, Tree.flats_append, hflat] at hemit
  obtain ⟨ys, zs, rfl, hys, hcursor⟩ := Cursor.exists_token_piece hemit
  -- the member begins with its first token or with the comment in front of it
  obtain ⟨ys₁, z, zs₁, hsplit, hz, hemit₁, hposition⟩ : ∃ ys₁ z zs₁,
      ys ++ ⟨.token t.kind, t.text⟩ :: zs = ys₁ ++ z :: zs₁ ∧ z.kind ≠ .blank ∧
      s.emit ys₁ = Tree.flats front ∧
        extentStart t = (s.behindAll ys₁).position := by
    cases hdoc : t.doc with
    | none => exact ⟨ys, _, zs, rfl, LexemeKind.noConfusion,
        hys, by simp only [extentStart, hdoc, hcursor]⟩
    | some doc =>
      obtain ⟨ys₁, z, fs, rfl, hkind, hstart, hemit₁, -⟩ :=
        Cursor.exists_doc_piece h.undocumented
          ((congrArg Cursor.doc hcursor).trans hdoc)
      refine ⟨ys₁, z, _,
        List.append_assoc _ _ _, by rw [hkind]; exact LexemeKind.noConfusion,
        hemit₁.trans hys, ?_⟩
      have hle : doc.start ≤ t.start := by
        obtain ⟨_, _, -, hu, -⟩ := hxs.of_append
        obtain ⟨v, w, rfl, hv, hw⟩ := hu.of_append
        have hbehind := Cursor.position_behindAll hw (s.behindAll ys₁)
        rw [← Cursor.behindAll_append, hcursor, hstart] at hbehind
        exact Nat.le_trans (Nat.le_add_right _ _) (Nat.le_of_eq hbehind.symm)
      simp only [extentStart, hdoc, hstart, Nat.min_eq_left hle]
  rw [hsplit] at hxs
  obtain ⟨u, w, rfl, hu, hw⟩ := hxs.of_append
  -- the first piece of the member begins with something other than a line break
  obtain ⟨more, rfl, first, -⟩ := Lexes.cons_iff.mp hw
  obtain ⟨c, text, htext, hc⟩ := first.exists_first hz
  have hsettled : ∀ w, Lexes w u ys₁ :=
    (htext ▸ hu).of_settled hc settled
      (Nested.append_iff.mp (hinner ▸ h.nested)).1 hemit₁
  have hrest : u ++ (z.text ++ more) ++ rest = u ++ c :: (text ++ (more ++ rest)) := by
    rw [htext]
    simp
  refine ⟨u, ys₁, ⟨_, rfl⟩, ?_, hsettled, hemit₁, c, _, hrest, hc⟩
  rw [hposition, Cursor.position_behindAll hu, h.position, List.length_append]

/-- A body has a seam in front of a member, unless a loose
comment is left there. -/
theorem BodyOf.exists_seam_before {source : Text} {type : TypeDecl}
    (h : BodyOf source type start body rest s inner) (hinner : inner = front ++ back)
    (settled : Settled inAnnotationType front) {t : Token}
    (ht : (Tree.flats back).head? = some t)
    (attached : EndsClear tokens (source.take (extentStart t))) :
    ∃ u, Seam body s inner u front ∧ extentStart t = (start ++ u).length ∧
      source[extentStart t]? ≠ some '\n' := by
  obtain ⟨u, ys, ⟨w, rfl⟩, hstart, hys, hemit, c, more, hsplit, hc⟩ :=
    h.encloses.exists_before hinner settled ht
  have hbreak : source[extentStart t]? ≠ some '\n' := by
    rw [hstart, h.source_eq, hsplit, ← List.append_assoc,
      List.getElem?_append_right (Nat.le_refl _), Nat.sub_self]
    simpa using hc
  refine ⟨u,
    ⟨⟨w, rfl⟩, ⟨back, hinner.symm⟩, ys, hys, hemit,
      Cursor.behindAll_eq_past (hys []) ?_⟩, hstart,
    hbreak⟩
  obtain ⟨xs, hxs, rfl⟩ := h.reads
  obtain ⟨before, x, hread, -, hdoc⟩ := attached.exists_token
  have hopens := (hxs _).append ((hys ("x".toList ++ [])).append lexes_letter)
  have htake : source.take (extentStart t) = start ++ u := by
    rw [h.source_eq, hstart, List.append_assoc u, ← List.append_assoc start u,
      List.take_left]
  have htokens := hopens.tokens_eq
  rw [List.append_nil, ← List.append_assoc start, ← htake, hread, Cursor.read,
    tokensAt, tokensFrom_nil, List.append_nil, Cursor.emit_append, Cursor.emit_append,
    ← List.append_assoc] at htokens
  obtain ⟨-, hlast⟩ := List.append_inj' htokens rfl
  obtain rfl := (List.cons.inj hlast).1
  exact hdoc

end

end Graft.Merge
