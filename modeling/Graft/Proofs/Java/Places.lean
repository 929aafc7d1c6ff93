import Mathlib.Data.List.Forall2
import Graft.Proofs.Java.Pieces

/-!
# Where pieces stand

Tokens know where they stand: their position, their line and the documentation
comment in front of them (`Cursor`). The pieces of a text give their tokens from
any place on (`Cursor.read_append`, and for whole sources `Opens.tokens_eq`),
and further behind the same ones, further behind (`Cursor.emit_moved`). A token
and a documentation comment begin where a piece does
(`Cursor.exists_token_piece`, `Cursor.exists_doc_piece`).
-/

namespace Graft.Java

/-! ## The tokens of pieces -/

/-- A place of a source, as a token there knows it. -/
structure Cursor where
  position : Nat
  line : Nat
  doc : Option Span

namespace Cursor

/-- The place behind a piece. -/
def behind (s : Cursor) (x : Piece) : Cursor where
  position := s.position + x.text.length
  line := s.line + x.text.count '\n'
  doc := match x.kind with
    | .blank => s.doc
    | .lineComment => s.doc
    | .blockComment =>
      if ("/**".toList).isPrefixOf x.text then some
        ⟨s.position, s.position + x.text.length, s.line⟩
      else none
    | .token _ => none

/-- The place behind pieces. -/
def behindAll (s : Cursor) (xs : List Piece) : Cursor := xs.foldl behind s

/-- The tokens of pieces that stand at a place. -/
def emit : Cursor → List Piece → List Token
  | _, [] => []
  | s, x :: xs => x.kind.tokens x.text s.position s.line s.doc ++ emit (s.behind x) xs

/-- The tokens of a text that stands at a place. -/
def read (s : Cursor) (t : Text) : List Token := tokensAt s.position s.line s.doc t

@[simp] theorem behindAll_nil (s : Cursor) : s.behindAll [] = s := rfl

@[simp] theorem behindAll_cons (s : Cursor) (x : Piece) (xs : List Piece) :
    s.behindAll (x :: xs) = (s.behind x).behindAll xs := rfl

@[simp] theorem behindAll_append (s : Cursor) (xs ys : List Piece) :
    s.behindAll (xs ++ ys) = (s.behindAll xs).behindAll ys := List.foldl_append

@[simp] theorem emit_nil (s : Cursor) : s.emit [] = [] := rfl

theorem emit_cons (s : Cursor) (x : Piece) (xs : List Piece) : s.emit (x :: xs) =
    x.kind.tokens x.text s.position s.line s.doc ++ (s.behind x).emit xs := rfl

@[simp] theorem emit_append (s : Cursor) (xs ys : List Piece) :
    s.emit (xs ++ ys) = s.emit xs ++ (s.behindAll xs).emit ys := by
  induction xs generalizing s with
  | nil => rfl
  | cons x xs ih =>
    simp only [List.cons_append, emit_cons, ih, behindAll_cons, List.append_assoc]

theorem read_isLexeme (s : Cursor) {x : Piece} {w : Text}
    (h : IsLexeme x.kind x.text w) :
    s.read (x.text ++ w) = x.kind.tokens x.text s.position s.line s.doc ++
      (s.behind x).read w := by
  obtain ⟨hne, hlexeme⟩ := h
  have hfull : x.text ++ w ≠ [] := List.append_ne_nil_of_left_ne_nil hne _
  obtain ⟨n, hn⟩ : ∃ n, (x.text ++ w).length = n + 1 :=
    Nat.exists_eq_add_one.mpr (List.length_pos_iff.mpr hfull)
  have hpos := List.length_pos_iff.mpr hne
  have hle : w.length ≤ n := by
    rw [List.length_append] at hn
    omega
  obtain ⟨c, rest, hcons⟩ := List.exists_cons_of_ne_nil hfull
  rw [read, tokensAt, hn, read, ← tokensFrom_eq hle]
  rw [hcons] at hlexeme ⊢
  obtain ⟨kind, text⟩ := x
  cases kind
  all_goals
    simp only [tokensFrom, hlexeme]
    rw [← hcons, List.take_left, List.drop_left]
    rfl

/-- **Pieces give their tokens**, whatever they stand in front of. -/
theorem read_append {u w : Text} {xs : List Piece} (h : Lexes w u xs) (s : Cursor) :
    s.read (u ++ w) = s.emit xs ++ (s.behindAll xs).read w := by
  induction h generalizing s with
  | nil => rfl
  | cons first _ ih =>
    rw [List.append_assoc, read_isLexeme s first, ih, emit_cons, behindAll_cons,
      List.append_assoc]

theorem read_eq {t : Text} {xs : List Piece} (h : Lexes [] t xs) (s : Cursor) :
    s.read t = s.emit xs := by
  have hread := read_append h s
  rw [List.append_nil] at hread
  rw [hread, read, tokensAt, tokensFrom_nil, List.append_nil]

theorem position_behindAll {u w : Text} {xs : List Piece} (h : Lexes w u xs)
    (s : Cursor) :
    (s.behindAll xs).position = s.position + u.length := by
  induction h generalizing s with
  | nil => rfl
  | cons _ _ ih =>
    rw [behindAll_cons, ih, behind, List.length_append, Nat.add_assoc]

/-- Tokens stand where their pieces do. -/
theorem bounds_of_mem_emit {s : Cursor} {xs : List Piece} {t : Token}
    (h : t ∈ s.emit xs) :
    s.position ≤ t.start ∧ t.stop ≤ (s.behindAll xs).position := by
  induction xs generalizing s with
  | nil => cases h
  | cons x xs ih =>
    have hle : ∀ (s : Cursor) (xs : List Piece),
        s.position ≤ (s.behindAll xs).position := by
      intro s xs
      induction xs generalizing s with
      | nil => exact Nat.le_refl _
      | cons x xs ih => exact Nat.le_trans (Nat.le_add_right _ _) (ih (s.behind x))
    rw [emit_cons, List.mem_append] at h
    rcases h with hfirst | hlater
    · unfold LexemeKind.tokens at hfirst
      split at hfirst
      · cases List.mem_singleton.mp hfirst
        exact ⟨Nat.le_refl _, hle (s.behind x) xs⟩
      · cases hfirst
    · obtain ⟨hstart, hstop⟩ := ih hlater
      exact ⟨Nat.le_trans (Nat.le_add_right _ _) hstart, hstop⟩

@[simp] theorem emit_blanks (s : Cursor) (w : Text) : s.emit (blanks w) = [] := by
  induction w generalizing s with
  | nil => rfl
  | cons c w ih => exact ih _

@[simp] theorem doc_behindAll_blanks (s : Cursor) (w : Text) :
    (s.behindAll (blanks w)).doc = s.doc := by
  induction w generalizing s with
  | nil => rfl
  | cons c w ih => exact ih _

/-! ## Behind pieces -/

/-- The place behind a text with no comment in front of it. -/
def past (s : Cursor) (u : Text) : Cursor :=
  ⟨s.position + u.length, s.line + u.count '\n', none⟩

theorem past_nil {s : Cursor} (h : s.doc = none) : s.past [] = s := by
  rw [past, ← h]
  rfl

theorem past_append (s : Cursor) (u v : Text) :
    s.past (u ++ v) = (s.past u).past v := by
  simp only [past, List.length_append, List.count_append, Nat.add_assoc]

theorem behindAll_eq {u w : Text} {xs : List Piece} (h : Lexes w u xs) (s : Cursor) :
    (s.behindAll xs).position = s.position + u.length ∧
    (s.behindAll xs).line = s.line + u.count '\n' := by
  refine ⟨position_behindAll h s, ?_⟩
  induction h generalizing s with
  | nil => rfl
  | cons _ _ ih =>
    rw [behindAll_cons, ih, behind, List.count_append, Nat.add_assoc]

theorem behindAll_eq_past {u w : Text} {xs : List Piece} (h : Lexes w u xs) {s : Cursor}
    (hdoc : (s.behindAll xs).doc = none) : s.behindAll xs = s.past u := by
  obtain ⟨hposition, hline⟩ := behindAll_eq h s
  rw [past, ← hposition, ← hline, ← hdoc]

/-- Whether a comment is left behind pieces does not depend on
where they stand. -/
theorem isSome_doc_behindAll {s s' : Cursor} (h : s.doc.isSome = s'.doc.isSome)
    (xs : List Piece) :
    (s.behindAll xs).doc.isSome = (s'.behindAll xs).doc.isSome := by
  induction xs generalizing s s' with
  | nil => exact h
  | cons x xs ih =>
    refine ih ?_
    obtain ⟨kind, text⟩ := x
    cases kind with
    | blank | lineComment => exact h
    | blockComment =>
      simp only [behind]
      split <;> rfl
    | token kind => rfl

theorem doc_behindAll {s s' : Cursor} (hs : s.doc = none) (hs' : s'.doc = none)
    {xs : List Piece} (h : (s.behindAll xs).doc = none) :
    (s'.behindAll xs).doc = none := by
  have hboth : s.doc.isSome = s'.doc.isSome := by rw [hs, hs']
  have hsame := isSome_doc_behindAll hboth xs
  rw [h] at hsame
  exact Option.isNone_iff_eq_none.mp (Option.isSome_eq_false_iff.mp hsame.symm)

/-- The pieces up to a token and with it. -/
theorem emit_concat_token {s : Cursor} {xs : List Piece} {t : Token}
    (h : s.behindAll xs = ⟨t.start, t.line, t.doc⟩) :
    s.emit (xs ++ [⟨.token t.kind, t.text⟩]) = s.emit xs ++ [t] ∧
      s.behindAll (xs ++ [⟨.token t.kind, t.text⟩]) =
        ⟨t.stop, t.line + t.text.count '\n', none⟩ := by
  rw [emit_append, behindAll_append, h]
  exact ⟨rfl, rfl⟩

/-! ## Places inside pieces -/

/-- A token begins where its piece does. -/
theorem exists_token_piece {s : Cursor} {xs : List Piece} {before after : List Token}
    {t : Token} (h : s.emit xs = before ++ t :: after) :
    ∃ ys zs, xs = ys ++ ⟨.token t.kind, t.text⟩ :: zs ∧
      s.emit ys = before ∧ s.behindAll ys = ⟨t.start, t.line, t.doc⟩ := by
  induction xs generalizing s before with
  | nil => simp at h
  | cons x xs ih =>
    obtain ⟨kind, text⟩ := x
    have hlater : ∀ before', (s.behind ⟨kind, text⟩).emit xs = before' ++ t :: after →
        kind.tokens text s.position s.line s.doc ++ before' = before →
        ∃ ys zs, ⟨kind, text⟩ :: xs = ys ++ ⟨.token t.kind, t.text⟩ :: zs ∧
          s.emit ys = before ∧ s.behindAll ys = ⟨t.start, t.line, t.doc⟩ := by
      intro before' hrest hbefore
      obtain ⟨ys, zs, rfl, hys, hcursor⟩ := ih hrest
      exact ⟨⟨kind, text⟩ :: ys, zs, rfl, by rw [emit_cons, hys, hbefore], hcursor⟩
    rw [emit_cons] at h
    cases kind with
    | blank | lineComment | blockComment => exact hlater before h rfl
    | token kind =>
      cases before with
      | nil =>
        obtain ⟨rfl, -⟩ := List.cons.inj h
        exact ⟨[], xs, rfl, rfl, rfl⟩
      | cons b before =>
        obtain ⟨rfl, hrest⟩ := List.cons.inj h
        exact hlater before hrest rfl

/-- A documentation comment begins where its piece does, and no token
stands behind it. -/
theorem exists_doc_piece {s : Cursor} {xs : List Piece} {doc : Span} (hs : s.doc = none)
    (h : (s.behindAll xs).doc = some doc) : ∃ ys x fs, xs = ys ++ x :: fs ∧
      x.kind = .blockComment ∧ (s.behindAll ys).position = doc.start ∧
      s.emit ys = s.emit xs ∧ (s.behindAll ys).emit (x :: fs) = [] := by
  -- from the last piece back: blanks and line comments keep the comment,
  -- anything else resets it
  induction xs using List.reverseRecOn with
  | nil =>
    rw [behindAll_nil, hs] at h
    cases h
  | append_singleton xs z ih =>
    obtain ⟨kind, text⟩ := z
    have hcursor : s.behindAll (xs ++ [⟨kind, text⟩]) =
        (s.behindAll xs).behind ⟨kind, text⟩ := by
      rw [behindAll_append, behindAll_cons, behindAll_nil]
    rw [hcursor] at h
    cases kind with
    | blank | lineComment =>
      obtain ⟨ys, x, fs, rfl, hkind, hposition, hemit, hnone⟩ := ih h
      refine ⟨ys, x, fs ++ [_], by simp; rfl, hkind, hposition, ?_, ?_⟩
      · rw [hemit, emit_append s (ys ++ x :: fs)]
        exact (List.append_nil _).symm
      · rw [← List.cons_append, emit_append, hnone]
        rfl
    | blockComment =>
      refine ⟨xs, _, [], rfl, rfl, ?_, ?_, rfl⟩
      · simp only [behind] at h
        split at h <;> cases h
        rfl
      · rw [emit_append]
        exact (List.append_nil _).symm
    | token kind => cases h

end Cursor

/-! ## Sources -/

/-- A source begins with a text that is read as pieces; a byte order mark
counts as a blank. -/
inductive Opens (behind : Text) : Text → List Piece → Prop
  | plain {u : Text} {xs : List Piece} (pieces : Lexes behind u xs) (nonempty : u ≠ [])
      (unmarked : u.head? ≠ some '\ufeff') : Opens behind u xs
  | marked {u : Text} {xs : List Piece} (pieces : Lexes behind u xs) :
      Opens behind ('\ufeff' :: u) (⟨.blank, ['\ufeff']⟩ :: xs)

/-- Where a file starts. -/
def Cursor.fileStart : Cursor := ⟨0, 1, none⟩

namespace Opens

variable {u v w behind : Text} {xs ys zs : List Piece}

theorem exists_whole {t : Text} (h : t ≠ []) : ∃ xs, Opens [] t xs := by
  obtain ⟨c, rest, rfl⟩ := List.exists_cons_of_ne_nil h
  by_cases hmark : c = '\ufeff'
  · subst hmark
    obtain ⟨xs, hxs⟩ := Lexes.exists_whole rest
    exact ⟨_, .marked hxs⟩
  · obtain ⟨xs, hxs⟩ := Lexes.exists_whole (c :: rest)
    exact ⟨xs, .plain hxs h (by simpa using hmark)⟩

theorem ne_nil (h : Opens behind u xs) : u ≠ [] := by
  cases h with
  | plain _ nonempty _ => exact nonempty
  | marked => exact List.cons_ne_nil _ _

theorem append (h : Opens (v ++ behind) u xs) (h' : Lexes behind v ys) :
    Opens behind (u ++ v) (xs ++ ys) := by
  cases h with
  | plain pieces nonempty unmarked =>
    refine .plain (pieces.append h') (List.append_ne_nil_of_left_ne_nil nonempty _) ?_
    obtain ⟨c, u, rfl⟩ := List.exists_cons_of_ne_nil nonempty
    exact unmarked
  | marked pieces => exact .marked (pieces.append h')

theorem of_append (h : Opens behind u (xs ++ ys)) (hne : xs ≠ []) :
    ∃ v w, u = v ++ w ∧ Opens (w ++ behind) v xs ∧ Lexes behind w ys := by
  obtain ⟨x, xs, rfl⟩ := List.exists_cons_of_ne_nil hne
  cases h with
  | plain pieces nonempty unmarked =>
    obtain ⟨v, w, rfl, hv, hw⟩ := pieces.of_append
    obtain ⟨more, rfl, first, -⟩ := Lexes.cons_iff.mp hv
    refine ⟨_, w, rfl, .plain hv (List.append_ne_nil_of_left_ne_nil first.1 _) ?_, hw⟩
    obtain ⟨c, text, htext⟩ := List.exists_cons_of_ne_nil first.1
    rw [htext] at unmarked ⊢
    exact unmarked
  | marked pieces =>
    obtain ⟨v, w, rfl, hv, hw⟩ := pieces.of_append
    exact ⟨_, w, rfl, .marked hv, hw⟩

theorem of_front (h : Opens (v ++ behind) u xs) (hwhole : Opens behind (u ++ v) zs) :
    ∃ ys, zs = xs ++ ys ∧ Lexes behind v ys := by
  cases h with
  | plain pieces nonempty unmarked =>
    obtain ⟨c, u, rfl⟩ := List.exists_cons_of_ne_nil nonempty
    generalize hwholeText : c :: u ++ v = t at hwhole
    cases hwhole with
    | plain whole _ _ => exact pieces.of_front (hwholeText ▸ whole)
    | marked => exact absurd (congrArg some (List.cons.inj hwholeText).1) unmarked
  | @marked u _ pieces =>
    generalize hwholeText : '\ufeff' :: u ++ v = t at hwhole
    cases hwhole with
    | plain _ _ unmarked =>
      rw [← hwholeText] at unmarked
      exact absurd rfl unmarked
    | marked whole =>
      obtain rfl := (List.cons.inj hwholeText).2
      obtain ⟨ys, rfl, hys⟩ := pieces.of_front whole
      exact ⟨ys, rfl, hys⟩

theorem of_firm (h : Opens v u xs) (firm : EndFirm xs) (w : Text) : Opens w u xs := by
  cases h with
  | plain pieces nonempty unmarked =>
    exact .plain (pieces.of_firm firm w) nonempty unmarked
  | marked pieces =>
    refine .marked ?_
    obtain ⟨ys, z, heq, hz⟩ := firm
    cases ys with
    | nil =>
      obtain ⟨-, rfl⟩ := List.cons.inj heq
      rw [Lexes.nil_iff] at pieces ⊢
      exact pieces
    | cons y ys =>
      obtain ⟨-, rfl⟩ := List.cons.inj heq
      exact pieces.of_firm ⟨ys, z, rfl, hz⟩ w

theorem of_border {c c' : Char} (h : Opens (c :: v) u xs) (hc : isBorder c = true)
    (hstand : MayStandFor c' c) (w : Text) : Opens (c' :: w) u xs := by
  cases h with
  | plain pieces nonempty unmarked =>
    exact .plain (pieces.of_border hc hstand w) nonempty unmarked
  | marked pieces => exact .marked (pieces.of_border hc hstand w)

theorem of_blanks {a : Text} (h : Opens behind (a ++ w) xs) (hw : Text.isBlank w = true)
    (hbehind : behind ≠ []) (ha : a.getLast? = some '\n') :
    ∃ ys, xs = ys ++ blanks w ∧ Opens (w ++ behind) a ys := by
  have hlast : ∀ c ∈ a.getLast?, c = '\n' := by
    intro c hc
    rw [ha] at hc
    exact (Option.some.inj hc).symm
  have hne : a ≠ [] := by
    rintro rfl
    cases ha
  generalize htext : a ++ w = t at h
  cases h with
  | plain pieces nonempty unmarked =>
    obtain ⟨ys, rfl, hys⟩ := (htext ▸ pieces).of_blanks hw hbehind hlast
    refine ⟨ys, rfl, .plain hys hne ?_⟩
    obtain ⟨c, a, rfl⟩ := List.exists_cons_of_ne_nil hne
    rw [← htext] at unmarked
    exact unmarked
  | marked pieces =>
    obtain ⟨c, a, rfl⟩ := List.exists_cons_of_ne_nil hne
    obtain ⟨rfl, rfl⟩ := List.cons.inj htext
    cases a with
    | nil => cases ha
    | cons d a =>
      obtain ⟨ys, rfl, hys⟩ := pieces.of_blanks hw hbehind hlast
      exact ⟨_ :: ys, rfl, .marked hys⟩

theorem exists_last {behind u : Text} {xs : List Piece} {z : Piece}
    (h : Opens behind u (xs ++ [z])) :
    ∃ front, u = front ++ z.text := by
  generalize hpieces : xs ++ [z] = ys at h
  cases h with
  | plain pieces _ _ => exact (hpieces ▸ pieces).exists_last
  | marked pieces =>
    cases xs with
    | nil =>
      obtain ⟨rfl, rfl⟩ := List.cons.inj hpieces
      rw [Lexes.nil_iff.mp pieces]
      exact ⟨[], rfl⟩
    | cons x xs =>
      obtain ⟨-, rfl⟩ := List.cons.inj hpieces
      obtain ⟨front, rfl⟩ := pieces.exists_last
      exact ⟨_ :: front, rfl⟩

/-- **The tokens of a source** are those of the pieces it opens with, and those
of what is left. -/
theorem tokens_eq (h : Opens behind u xs) : tokens (u ++ behind) =
    Cursor.fileStart.emit xs ++ (Cursor.fileStart.behindAll xs).read behind := by
  cases h with
  | plain pieces nonempty unmarked =>
    rw [← Cursor.read_append pieces]
    obtain ⟨c, u, rfl⟩ := List.exists_cons_of_ne_nil nonempty
    unfold tokens
    split
    · next heq => exact absurd (congrArg some (List.cons.inj heq).1) unmarked
    · rfl
  | marked pieces =>
    exact Cursor.read_append pieces (Cursor.fileStart.behind ⟨.blank, ['\ufeff']⟩)

theorem position_eq (h : Opens behind u xs) :
    (Cursor.fileStart.behindAll xs).position = u.length := by
  cases h with
  | plain pieces => exact (Cursor.position_behindAll pieces _).trans (Nat.zero_add _)
  | marked pieces =>
    exact (Cursor.position_behindAll pieces _).trans (Nat.add_comm _ _)

end Opens

/-! ## Places further behind -/

/-- How far a place lies behind another, in characters and in lines. -/
structure Offset where
  position : Nat
  line : Nat

/-- A span further behind. -/
def Span.moved (o : Offset) (s : Span) : Span :=
  ⟨s.start + o.position, s.stop + o.position, s.line + o.line⟩

/-- A token further behind. -/
def Token.moved (o : Offset) (t : Token) : Token :=
  { t with
    start := t.start + o.position, line := t.line + o.line,
    doc := t.doc.map (Span.moved o) }

/-- A place further behind. -/
def Cursor.moved (o : Offset) (s : Cursor) : Cursor :=
  ⟨s.position + o.position, s.line + o.line, s.doc.map (Span.moved o)⟩

/-- Where everything is counted from. -/
def Cursor.origin : Cursor := ⟨0, 0, none⟩

/-- How far a place lies behind the origin. -/
def Cursor.offset (s : Cursor) : Offset := ⟨s.position, s.line⟩

/-- Tokens are alike when nothing but their places differs. -/
def Token.Alike (t t' : Token) : Prop := t.kind = t'.kind ∧ t.text = t'.text

theorem Cursor.eq_moved {s : Cursor} (h : s.doc = none) :
    s = Cursor.origin.moved s.offset := by
  obtain ⟨position, line, doc⟩ := s
  cases h
  simp [moved, origin, offset]

namespace Cursor

theorem behind_moved (o : Offset) (s : Cursor) (x : Piece) :
    (s.moved o).behind x = (s.behind x).moved o := by
  obtain ⟨kind, text⟩ := x
  simp only [behind, moved, Cursor.mk.injEq]
  refine ⟨by omega, by omega, ?_⟩
  cases kind with
  | blank | lineComment | token => rfl
  | blockComment =>
    dsimp only
    split
    · simp only [Option.map_some, Span.moved, Option.some.injEq, Span.mk.injEq,
        true_and, and_true]
      omega
    · rfl

/-- **The tokens of pieces further behind** are the same, further behind. -/
theorem emit_moved (o : Offset) (s : Cursor) (xs : List Piece) :
    (s.moved o).emit xs = (s.emit xs).map (Token.moved o) := by
  induction xs generalizing s with
  | nil => rfl
  | cons x xs ih =>
    rw [emit_cons, emit_cons, behind_moved, ih, List.map_append]
    congr 1
    cases x.kind <;> rfl

/-- Wherever they stand, pieces give tokens that are alike. -/
theorem alike_emit (s s' : Cursor) (xs : List Piece) :
    List.Forall₂ Token.Alike (s.emit xs) (s'.emit xs) := by
  induction xs generalizing s s' with
  | nil => exact .nil
  | cons x xs ih =>
    obtain ⟨kind, text⟩ := x
    cases kind with
    | blank | lineComment | blockComment => exact ih _ _
    | token kind => exact .cons ⟨rfl, rfl⟩ (ih _ _)

/-- Behind its first token, what pieces give does not depend on the comment in
front of them. -/
theorem emit_eq_cons_moved {s s₀ : Cursor} {o : Offset} {xs : List Piece} {t : Token}
    {more : List Token} (hposition : s.position = s₀.position + o.position)
    (hline : s.line = s₀.line + o.line) (h : s.emit xs = t :: more) :
    ∃ t₀ more₀, s₀.emit xs = t₀ :: more₀ ∧ more = more₀.map (Token.moved o) ∧
      t₀.Alike t := by
  induction xs generalizing s s₀ with
  | nil => cases h
  | cons x xs ih =>
    obtain ⟨kind, text⟩ := x
    have hposition' : (s.behind ⟨kind, text⟩).position =
        (s₀.behind ⟨kind, text⟩).position + o.position := by
      simp only [behind]
      omega
    have hline' : (s.behind ⟨kind, text⟩).line =
        (s₀.behind ⟨kind, text⟩).line + o.line := by
      simp only [behind]
      omega
    cases kind with
    | blank | lineComment | blockComment => exact ih hposition' hline' h
    | token kind =>
      obtain ⟨rfl, rfl⟩ := List.cons.inj h
      have hcursor : s.behind ⟨.token kind, text⟩ =
          (s₀.behind ⟨.token kind, text⟩).moved o := by
        simp only [moved, ← hposition', ← hline']
        rfl
      refine ⟨_, _, rfl, ?_, rfl, rfl⟩
      rw [hcursor, emit_moved]
      rfl

/-- Behind other pieces, the same tokens stand further behind or less far, if
the first of them is no longer held against the comment in front of it. -/
theorem exists_moved_behind {s : Cursor} {ys zs : List Piece} {right : Token}
    {after : List Token} (h : (s.behindAll ys).emit zs = right :: after)
    (ys' : List Piece) :
    ∃ (right' : Token) (after₀ : List Token), right.Alike right' ∧
      after = after₀.map (Token.moved (s.behindAll ys).offset) ∧
      (s.behindAll ys').emit zs =
        right' :: after₀.map (Token.moved (s.behindAll ys').offset) := by
  have hplace : ∀ s : Cursor, s.position = origin.position + s.offset.position ∧
      s.line = origin.line + s.offset.line :=
        fun s => ⟨(Nat.zero_add _).symm, (Nat.zero_add _).symm⟩
  obtain ⟨right₀, after₀, horigin, hafter, halike⟩ :=
    emit_eq_cons_moved (hplace _).1 (hplace _).2 h
  have hrelated := alike_emit .origin (s.behindAll ys') zs
  generalize hemit : (s.behindAll ys').emit zs = tokens at hrelated
  rw [horigin] at hrelated
  obtain _ | ⟨hright, -⟩ := hrelated
  obtain ⟨_, _, horigin', hafter', -⟩ :=
    emit_eq_cons_moved (hplace _).1 (hplace _).2 hemit
  rw [horigin] at horigin'
  obtain ⟨-, rfl⟩ := List.cons.inj horigin'
  exact ⟨_, after₀, ⟨halike.1.symm.trans hright.1, halike.2.symm.trans hright.2⟩,
    hafter, by rw [hafter']⟩

end Cursor

end Graft.Java
