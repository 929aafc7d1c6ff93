import Graft.Proofs.Merge.Views

/-!
# Seams of a body

A body is read as trees between the two braces around it. Where a tree ends and
everything in front of it is read as it is whatever follows, the body has a seam
(`Seam`). Text that fits there (`Fits`) may be put between the trees, and items
between two seams may be exchanged for it: what was read by hand from the seam
on, and what was read in front of it, is read again (`Written.change`). Seams
stay seams over blanks (`Seam.blank_before`, `Seam.blank_behind`).
-/

namespace Graft.Merge

open Java Entity

/-! ## Texts that fit between items -/

/-- A text that may be put between the items of a body, or, in a line, in front
of a line break there: whatever follows, it is read as the same pieces, which
leave no comment behind; and wherever it stands, these are whole items. -/
def Fits (inAnnotationType inLine : Bool) (t : Text) : Prop :=
  ∃ xs, (∀ w, (inLine = true → w.head? = some '\n') → Lexes w t xs) ∧
    (∀ s : Cursor, s.doc = none → (s.behindAll xs).doc = none) ∧
      ∀ s : Cursor, ∃ new, Tree.flats new = s.emit xs ∧
        (∀ closing, Nested closing new) ∧
        Settled inAnnotationType new

/-- Items are whole wherever their pieces stand. -/
theorem exists_settled {inAnnotationType : Bool} {s : Cursor} {xs : List Piece}
    {new : List Tree} (hflats : Tree.flats new = s.emit xs)
    (hnested : ∀ closing, Nested closing new)
    (hsettled : Settled inAnnotationType new) (s' : Cursor) :
    ∃ new', Tree.flats new' = s'.emit xs ∧
      (∀ closing, Nested closing new') ∧ Settled inAnnotationType new' := by
  obtain ⟨new', hrelated, hflats'⟩ :=
    exists_related new (s'.emit xs) (hflats ▸ Cursor.alike_emit s s' xs)
  exact ⟨new', hflats', fun closing => (hnested closing).of_alike hrelated,
    hsettled.of_alike hrelated⟩

namespace Fits

variable {inAnnotationType inLine inLine' : Bool} {t u : Text}

theorem blank (h : Text.isBlank t = true) : Fits inAnnotationType inLine t := by
  refine ⟨blanks t, fun w _ => Lexes.blanks h w, fun s hs => ?_,
    fun s => ⟨[], ?_, fun _ => .nil, .nil⟩⟩
  · rw [Cursor.doc_behindAll_blanks, hs]
  · rw [Cursor.emit_blanks, Tree.flats_nil]

/-- What fits anywhere is read as the same pieces whatever follows. -/
theorem exists_anywhere (h : Fits inAnnotationType false t) :
    ∃ xs, (∀ w, Lexes w t xs) ∧
    (∀ s : Cursor, s.doc = none → (s.behindAll xs).doc = none) ∧
      ∀ s : Cursor, ∃ new, Tree.flats new = s.emit xs ∧
        (∀ closing, Nested closing new) ∧
        Settled inAnnotationType new := by
  obtain ⟨xs, hxs, hread⟩ := h
  exact ⟨xs, fun w => hxs w (absurd · Bool.false_ne_true), hread⟩

/-- What fits anywhere fits in a line. -/
theorem anyway (h : Fits inAnnotationType false t) :
    Fits inAnnotationType inLine t := by
  obtain ⟨xs, hxs, hread⟩ := h.exists_anywhere
  exact ⟨xs, fun w _ => hxs w, hread⟩

theorem append (h : Fits inAnnotationType inLine t)
    (h' : Fits inAnnotationType inLine' u)
    (hline : inLine = true → u.head? = some '\n') :
    Fits inAnnotationType inLine' (t ++ u) := by
  obtain ⟨xs, hxs, hdoc, hnew⟩ := h
  obtain ⟨ys, hys, hdoc', hnew'⟩ := h'
  refine ⟨xs ++ ys, fun w hw => (hxs _ fun hin => ?_).append (hys w hw),
    fun s hs => ?_, fun s => ?_⟩
  · rw [List.head?_append, hline hin, Option.some_or]
  · rw [Cursor.behindAll_append]
    exact hdoc' _ (hdoc s hs)
  · obtain ⟨new, hflats, hnested, hsettled⟩ := hnew s
    obtain ⟨new', hflats', hnested', hsettled'⟩ := hnew' (s.behindAll xs)
    refine ⟨new ++ new', ?_, fun closing => ?_, hsettled.append hsettled'⟩
    · rw [Tree.flats_append, hflats, hflats', Cursor.emit_append]
    · exact Nested.append_iff.mpr ⟨hnested closing, hnested' closing⟩

theorem blank_append (hblank : Text.isBlank u = true)
    (h : Fits inAnnotationType inLine t) :
    Fits inAnnotationType inLine (u ++ t) := by
  have hfits : Fits inAnnotationType false u := blank hblank
  exact hfits.append h (absurd · Bool.false_ne_true)

/-- Behind a line break, whatever follows is on another line. -/
theorem append_blank (h : Fits inAnnotationType inLine t)
    (hblank : Text.isBlank u = true) (hline : u.head? = some '\n') :
    Fits inAnnotationType false (t ++ u) :=
  h.append (blank hblank) fun _ => hline

/-- Blanks in front of a text that fits may be left out. -/
theorem of_blank_append (hblank : Text.isBlank u = true)
    (h : Fits inAnnotationType inLine (u ++ t)) :
    Fits inAnnotationType inLine t := by
  obtain ⟨xs, hxs, hdoc, hnew⟩ := h
  obtain ⟨ys, rfl, -⟩ :=
    (Lexes.blanks hblank (t ++ ['\n'])).of_front (hxs ['\n'] fun _ => rfl)
  refine ⟨ys, fun w hw => ?_, fun s hs => ?_, fun s => ?_⟩
  · obtain ⟨zs, heq, hzs⟩ := (Lexes.blanks hblank (t ++ w)).of_front (hxs w hw)
    rwa [List.append_cancel_left heq]
  · have hbehind := hdoc .origin rfl
    rw [Cursor.behindAll_append] at hbehind
    exact Cursor.doc_behindAll (Cursor.doc_behindAll_blanks _ _) hs hbehind
  · obtain ⟨new, hflats, hnested, hsettled⟩ := hnew .origin
    rw [Cursor.emit_append, Cursor.emit_blanks, List.nil_append] at hflats
    exact exists_settled hflats hnested hsettled s

/-- What fits with a line break at its end fits in a line without it. -/
theorem of_break (h : Fits inAnnotationType false (t ++ ['\n'])) :
    Fits inAnnotationType true t := by
  obtain ⟨xs, hxs, hdoc, hnew⟩ := h.exists_anywhere
  obtain ⟨ys, rfl⟩ :=
    (hxs ['x']).exists_break (List.cons_ne_nil _ _) List.getLast?_concat
  refine ⟨ys, fun w hw => ?_, fun s hs => ?_, fun s => ?_⟩
  · obtain ⟨w, rfl⟩ := List.head?_eq_some_iff.mp (hw rfl)
    obtain ⟨t', _, htext, ht', hbreak⟩ := (hxs w).of_append
    obtain ⟨_, rfl, -, hnil⟩ := Lexes.cons_iff.mp hbreak
    obtain rfl := Lexes.nil_iff.mp hnil
    obtain ⟨rfl, -⟩ := List.append_inj' htext rfl
    exact ht'
  · have hbehind := hdoc s hs
    rwa [Cursor.behindAll_append] at hbehind
  · obtain ⟨new, hflats, hnew⟩ := hnew s
    rw [Cursor.emit_append] at hflats
    exact ⟨new, hflats.trans (List.append_nil _), hnew⟩

/-- Texts that fit in lines may be put between one another, line by line. -/
theorem join {sep : Text} (hsep : Text.isBlank sep = true)
    (hline : sep.head? = some '\n') {ts : List Text}
    (h : ∀ t ∈ ts, Fits inAnnotationType inLine t) :
    Fits inAnnotationType inLine (Text.join sep ts) := by
  induction ts with
  | nil => exact blank rfl
  | cons t ts ih =>
    rw [List.forall_mem_cons] at h
    cases ts with
    | nil =>
      rw [Text.join, List.intercalate_singleton]
      exact h.1
    | cons u ts =>
      rw [Text.join, List.intercalate_cons_cons]
      exact (h.1.append_blank hsep hline).append (ih h.2) (absurd · Bool.false_ne_true)

end Fits

/-! ## Seams -/

/-- What a body is read as: the text `body` stands behind an opening brace, in
front of the closing one that `rest` begins with, and its trees are nested
between them. -/
structure Encloses (start body rest : Text) (s : Cursor)
    (inner : List Tree) : Prop where
  position : s.position = start.length
  undocumented : s.doc = none
  pieces : ∃ xs, Lexes rest body xs ∧ s.emit xs = Tree.flats inner
  nested : Nested (some ['\x7d']) inner

/-- A body has a seam where a front of its trees ends, and everything there is
read as it is whatever follows. -/
structure Seam (body : Text) (s : Cursor) (inner : List Tree) (u : Text)
    (front : List Tree) : Prop where
  text : u <+: body
  trees : front <+: inner
  pieces : ∃ xs, (∀ w, Lexes w u xs) ∧ s.emit xs = Tree.flats front ∧
    s.behindAll xs = s.past u

section

variable {start body rest u x w : Text} {s : Cursor}
    {inner front front' gone : List Tree}

theorem Seam.first (h : s.doc = none) : Seam body s inner [] [] where
  text := List.nil_prefix
  trees := List.nil_prefix
  pieces := ⟨[], fun _ => .nil, by simp, by simp [Cursor.past, ← h]⟩

/-- What stands between two seams is read on its own. -/
theorem Seam.between (h : Seam body s inner u front)
    (h' : Seam body s inner (u ++ x) front') :
    ∃ mid ys, front' = front ++ mid ∧ (∀ w, Lexes w x ys) ∧
      (s.past u).emit ys = Tree.flats mid ∧
      (s.past u).behindAll ys = s.past (u ++ x) := by
  obtain ⟨xs, hxs, hfront, hcursor⟩ := h.pieces
  obtain ⟨zs, hzs, hfront', hcursor'⟩ := h'.pieces
  obtain ⟨ys, rfl, -⟩ := (hxs (x ++ [])).of_front (hzs [])
  have hys : ∀ w, Lexes w x ys := by
    intro w
    obtain ⟨ys', heq, hys'⟩ := (hxs (x ++ w)).of_front (hzs w)
    rwa [List.append_cancel_left heq]
  rw [Cursor.emit_append, hfront, hcursor] at hfront'
  rw [Cursor.behindAll_append, hcursor] at hcursor'
  -- of two fronts of the same trees, the one with more tokens goes further
  have hlength : front.length ≤ front'.length := by
    apply Nat.le_of_not_lt
    intro hlt
    obtain ⟨more, rfl⟩ :=
      List.prefix_of_prefix_length_le h'.trees h.trees (Nat.le_of_lt hlt)
    have hflats := congrArg List.length hfront'
    rw [Tree.flats_append, List.append_assoc, List.length_append, Nat.add_eq_left,
      List.length_append, Nat.add_eq_zero_iff, List.length_eq_zero_iff,
      Tree.flats_eq_nil_iff] at hflats
    simp [hflats.1] at hlt
  obtain ⟨mid, rfl⟩ := List.prefix_of_prefix_length_le h.trees h'.trees hlength
  rw [Tree.flats_append] at hfront'
  exact ⟨mid, ys, rfl, hys, List.append_cancel_left hfront', hcursor'⟩

theorem Seam.of_le {v : Text} (h : Seam body s inner u front)
    (h' : Seam body s inner v front') (hle : u.length ≤ v.length) :
    ∃ x, v = u ++ x := by
  obtain ⟨x, rfl⟩ := List.prefix_of_prefix_length_le h.text h'.text hle
  exact ⟨x, rfl⟩

/-- Of two seams, the one with more trees in front of it stands
further behind. -/
theorem Seam.exists_between (h : Seam body s inner u front) {v : Text}
    (h' : Seam body s inner v (front ++ gone))
    (hne : gone ≠ []) : ∃ x, x ≠ [] ∧ v = u ++ x := by
  rcases Nat.lt_or_ge u.length v.length with hlt | hle
  · obtain ⟨x, rfl⟩ := h.of_le h' (Nat.le_of_lt hlt)
    refine ⟨x, ?_, rfl⟩
    rintro rfl
    simp at hlt
  · obtain ⟨y, rfl⟩ := h'.of_le h hle
    obtain ⟨mid, -, hfront, -⟩ := h'.between h
    rw [List.append_assoc, List.self_eq_append_right, List.append_eq_nil_iff] at hfront
    exact absurd hfront.1 hne

/-- Blanks behind a seam may be passed over. -/
theorem Seam.blank_behind {b : Text} (h : Seam body s inner u front)
    (hblank : Text.isBlank b = true) (htext : u ++ b <+: body) :
    Seam body s inner (u ++ b) front := by
  obtain ⟨xs, hxs, hfront, hcursor⟩ := h.pieces
  refine ⟨htext, h.trees, xs ++ blanks b,
    fun w => (hxs _).append (Lexes.blanks hblank w), ?_, ?_⟩
  · rw [Cursor.emit_append, hfront, Cursor.emit_blanks, List.append_nil]
  · refine Cursor.behindAll_eq_past ((hxs _).append (Lexes.blanks hblank [])) ?_
    rw [Cursor.behindAll_append, hcursor, Cursor.doc_behindAll_blanks]
    rfl

/-- Blanks in front of a seam may be left out back to the start of a line. -/
theorem Seam.blank_before {a b : Text} (h : Seam body s inner (a ++ b) front)
    (hblank : Text.isBlank b = true) (hline : b = [] ∨ ∀ c ∈ a.getLast?, c = '\n') :
    Seam body s inner a front := by
  rcases hline with rfl | hline
  · rwa [List.append_nil] at h
  obtain ⟨xs, hxs, hfront, hcursor⟩ := h.pieces
  obtain ⟨ys, rfl, hys⟩ := (hxs ['x']).of_blanks hblank (List.cons_ne_nil _ _) hline
  have hlexes :=
    hys.of_lines (List.append_ne_nil_of_right_ne_nil _ (List.cons_ne_nil _ _)) hline
  refine ⟨(List.prefix_append a b).trans h.text, h.trees, ys, hlexes, ?_, ?_⟩
  · rwa [Cursor.emit_append, Cursor.emit_blanks, List.append_nil] at hfront
  · refine Cursor.behindAll_eq_past (hlexes []) ?_
    rw [Cursor.behindAll_append] at hcursor
    rw [← Cursor.doc_behindAll_blanks (s.behindAll ys) b, hcursor]
    rfl

/-! ## Written from a seam on -/

/-- What is read by hand between the braces of a type. -/
def bodyViews (source : Text) (kind : TypeKind) (inner : List Tree) : List View :=
  views source (declarations source (some kind) (bodyTrees kind inner))

/-- What is written from a seam of a body on, to the end of the source: up to
the closing brace it is read as trees, and with those in front of the seam they
hold everything that was read by hand. -/
def Written (start rest : Text) (s : Cursor) (kind : TypeKind) (read : List View)
    (u : Text) (front : List Tree) (t : Text) : Prop :=
  ∃ v ys back, t = v ++ rest ∧ Lexes rest v ys ∧ (s.past u).emit ys = Tree.flats back ∧
    Nested (some ['\x7d']) back ∧
    read.Sublist (bodyViews (start ++ (u ++ t)) kind (front ++ back))

variable {kind : TypeKind} {read : List View} {t new : Text}

/-- What a body is read as from a seam on. -/
theorem Encloses.behind (h : Encloses start body rest s inner)
    (seam : Seam body s inner u front) (hbody : body = u ++ w) :
    ∃ ys back, Lexes rest w ys ∧ (s.past u).emit ys = Tree.flats back ∧
      inner = front ++ back ∧ Nested (some ['\x7d']) back := by
  subst hbody
  obtain ⟨zs, hzs, hinner⟩ := h.pieces
  obtain ⟨xs, hxs, hfront, hcursor⟩ := seam.pieces
  obtain ⟨back, rfl⟩ := seam.trees
  obtain ⟨ys, rfl, hys⟩ := (hxs (w ++ rest)).of_front hzs
  rw [Cursor.emit_append, hfront, hcursor, Tree.flats_append] at hinner
  exact ⟨ys, back, hys, List.append_cancel_left hinner, rfl,
    (Nested.append_iff.mp h.nested).2⟩

/-- What stands in front of a seam ends there. -/
theorem Encloses.stop_le (h : Encloses start body rest s inner)
    (seam : Seam body s inner u front) {x : Token} (hx : x ∈ Tree.flats front) :
    x.stop ≤ (start ++ u).length := by
  obtain ⟨xs, -, hfront, hcursor⟩ := seam.pieces
  have hstop := (Cursor.bounds_of_mem_emit (hfront ▸ hx)).2
  rw [hcursor, Cursor.past, h.position, ← List.length_append] at hstop
  exact hstop

/-- What stands in the source is written so. -/
theorem Encloses.written (h : Encloses start body rest s inner)
    (seam : Seam body s inner u front) (hbody : body = u ++ w) :
    Written start rest s kind (bodyViews (start ++ (body ++ rest)) kind inner) u front
      (w ++ rest) := by
  obtain ⟨ys, back, hys, hback, hinner, hnested⟩ := h.behind seam hbody
  refine ⟨w, ys, back, rfl, hys, hback, hnested, ?_⟩
  rw [hinner, hbody, List.append_assoc]

/-- Written from one seam on, it is written from every seam in
front of it on. -/
theorem Written.back (hwritten : Written start rest s kind read (u ++ x) front' t)
    (seam : Seam body s inner u front) (seam' : Seam body s inner (u ++ x) front')
    (hnested : Nested (some ['\x7d']) inner) :
    Written start rest s kind read u front (x ++ t) := by
  obtain ⟨v, ys, back, rfl, hys, hback, hnest, hread⟩ := hwritten
  obtain ⟨mid, zs, rfl, hzs, hmid, hcursor⟩ := seam.between seam'
  obtain ⟨more, rfl⟩ := seam'.trees
  rw [Nested.append_iff, Nested.append_iff] at hnested
  refine ⟨x ++ v, zs ++ ys, mid ++ back, by rw [List.append_assoc],
    (hzs _).append hys, ?_, Nested.append_iff.mpr ⟨hnested.1.2, hnest⟩, ?_⟩
  · rw [Cursor.emit_append, hmid, hcursor, hback, Tree.flats_append]
  · rwa [List.append_assoc, List.append_assoc] at hread

theorem take_length_append (a v w : Text) :
    (a ++ v).take a.length = (a ++ w).take a.length := by
  rw [List.take_left, List.take_left]

/-- **Items between two seams exchanged**: what was read by hand is still read,
when what goes was not. -/
theorem Written.change (h : Encloses start body rest s inner)
    (hwritten : Written start rest s kind read (u ++ x) (front ++ gone) t)
    (seam : Seam body s inner u front)
    (seam' : Seam body s inner (u ++ x) (front ++ gone))
    (may : ∀ back, MayChange kind front gone back)
    (hgone : views (start ++ (body ++ rest))
      (declarations (start ++ (body ++ rest)) (some kind) gone) = []) {inLine : Bool}
    (fits : Fits (inAnnotationBody (some kind)) inLine new)
    (hline : inLine = true → t.head? = some '\n') :
    Written start rest s kind read u front (new ++ t) := by
  obtain ⟨v, ys, back, rfl, hys, hback, hnest, hread⟩ := hwritten
  obtain ⟨xs, hxs, hdoc, hnew⟩ := fits
  obtain ⟨items, hitems, hclosing, hsettled⟩ := hnew (s.past u)
  have hcursor : (s.past u).behindAll xs = s.past (u ++ new) := by
    rw [Cursor.past_append]
    exact Cursor.behindAll_eq_past (hxs _ hline) (hdoc (s.past u) rfl)
  -- what is behind stands behind the new items as it stood behind the old ones
  have hmoved : ∀ u,
      (s.past u).emit ys =
        (Cursor.origin.emit ys).map (Token.moved (s.past u).offset) := by
    intro u
    conv => lhs; rw [Cursor.eq_moved (s := s.past u) rfl, Cursor.emit_moved]
  obtain ⟨back₀, rfl, hback₀⟩ := exists_eq_moved (hback.symm.trans (hmoved _))
  have same : SameAround (start ++ (u ++ x ++ (v ++ rest)))
      (start ++ (u ++ (new ++ (v ++ rest))))
      (start ++ u).length (s.past (u ++ x)).offset (s.past (u ++ new)).offset := by
    refine ⟨?_, start ++ (u ++ x), start ++ (u ++ new),
      v ++ rest, by simp, by simp, ?_, ?_⟩
    · simpa only [List.append_assoc] using
        take_length_append (start ++ u) (x ++ (v ++ rest)) (new ++ (v ++ rest))
    · simp [Cursor.past, Cursor.offset, h.position]
    · simp [Cursor.past, Cursor.offset, h.position]
  have hgone' : views (start ++ (u ++ x ++ (v ++ rest)))
      (declarations (start ++ (u ++ x ++ (v ++ rest))) (some kind) gone) = [] := by
    obtain ⟨w, rfl⟩ := seam'.text
    rw [← hgone]
    have htake : (start ++ (u ++ x ++ (v ++ rest))).take (start ++ (u ++ x)).length =
        (start ++ (u ++ x ++ w ++ rest)).take (start ++ (u ++ x)).length := by
      simpa only [List.append_assoc]
        using take_length_append (start ++ (u ++ x)) (v ++ rest) (w ++ rest)
    exact views_declarations_take htake fun y hy =>
      h.stop_le seam' (Tree.flats_append front gone ▸ List.mem_append_right _ hy)
  refine ⟨new ++ v, xs ++ ys,
    items ++ back₀.map (Tree.moved (s.past (u ++ new)).offset), by simp,
    (hxs _ hline).append hys, ?_, ?_, ?_⟩
  · rw [Cursor.emit_append, hcursor, hmoved, Tree.flats_append, Tree.flats_moved,
      hback₀, hitems]
  · exact Nested.append_iff.mpr
      ⟨hclosing _, hnest.of_alike (Tree.allRelated_moved _ _ back₀)⟩
  · have hchanged :=
      same.views_sublist (may (back₀.map (Tree.moved _))) hgone' hsettled fun y hy =>
      h.stop_le seam hy
    rw [List.append_assoc front gone] at hread
    exact hread.trans hchanged

/-- **What is put in front of the closing brace** follows everything else: a
line of its own, or a line break and more. -/
theorem Encloses.written_last (h : Encloses start body rest s inner)
    (seam : Seam body s inner u front) {line blank : Text}
    (hbody : body = u ++ (line ++ blank)) (hblank : Text.isBlank blank = true)
    (hends : (∀ c ∈ line.getLast?, c = '\n') ∨ (blank = [] ∧ new.head? = some '\n'))
    (hrest : rest.head? = some '\x7d')
    (fits : Fits (inAnnotationBody (some kind)) false new) :
    Written start rest s kind (bodyViews (start ++ (body ++ rest)) kind inner) u front
      (line ++ (new ++ (blank ++ rest))) := by
  obtain ⟨zs, back, hzs, hback, hinner, hnest⟩ := h.behind seam hbody
  obtain ⟨xs, hxs, -, hnew⟩ := fits.exists_anywhere
  -- the blanks in front of the brace are pieces of their own, and what stands
  -- before them is read alike
  obtain ⟨ys, rfl, hys⟩ : ∃ ys, zs = ys ++ blanks blank ∧
      Lexes (new ++ (blank ++ rest)) line ys := by
    obtain ⟨closing, hclosing⟩ := List.head?_eq_some_iff.mp hrest
    rcases hends with hline | ⟨rfl, hnew⟩
    · obtain ⟨ys, rfl, hys⟩ :=
        hzs.of_blanks hblank (hclosing ▸ List.cons_ne_nil _ _) hline
      exact ⟨ys, rfl, hys.of_lines (by simp [hclosing]) hline _⟩
    · obtain ⟨more, rfl⟩ := List.head?_eq_some_iff.mp hnew
      rw [List.append_nil, hclosing] at hzs
      exact ⟨zs, by simp [blanks], hzs.of_border (by decide) (.inr ⟨rfl, rfl⟩) _⟩
  obtain ⟨items, hitems, hclosing, hsettled⟩ := hnew ((s.past u).behindAll ys)
  rw [Cursor.emit_append, Cursor.emit_blanks, List.append_nil] at hback
  refine ⟨line ++ (new ++ blank), ys ++ (xs ++ blanks blank), back ++ items, by simp,
    ?_, ?_, ?_, ?_⟩
  · refine Lexes.append ?_ (Lexes.append (hxs _) (Lexes.blanks hblank rest))
    rwa [List.append_assoc]
  · rw [Cursor.emit_append, Cursor.emit_append, Cursor.emit_blanks, List.append_nil,
      hback, ← hitems, Tree.flats_append]
  · exact Nested.append_iff.mpr ⟨hnest, hclosing _⟩
  · have same : SameAround (start ++ (body ++ rest))
        (start ++ (u ++ (line ++ (new ++ (blank ++ rest)))))
        (start ++ (u ++ line)).length ⟨(start ++ body).length, 0⟩
        ⟨(start ++ (u ++ (line ++ (new ++ blank)))).length, 0⟩ := by
      refine ⟨?_, start ++ body, start ++ (u ++ (line ++ (new ++ blank))),
        rest, by simp, by simp, rfl, rfl⟩
      rw [hbody]
      simpa only [List.append_assoc] using
        take_length_append (start ++ (u ++ line)) (blank ++ rest)
          (new ++ (blank ++ rest))
    have hstop : ∀ x ∈ Tree.flats inner, x.stop ≤ (start ++ (u ++ line)).length := by
      intro x hx
      rw [hinner, Tree.flats_append, List.mem_append] at hx
      rcases hx with hx | hx
      · refine Nat.le_trans (h.stop_le seam hx) ?_
        simp
      · have hbound := (Cursor.bounds_of_mem_emit (hback ▸ hx)).2
        rw [Cursor.position_behindAll hys, Cursor.past, h.position] at hbound
        simpa [Nat.add_assoc] using hbound
    have may : MayChange kind inner []
        (([] : List Tree).map (Tree.moved ⟨(start ++ body).length, 0⟩)) :=
      .closing
    have hchanged := same.views_sublist may rfl hsettled hstop
    simpa [bodyViews, hinner] using hchanged

end

end Graft.Merge
