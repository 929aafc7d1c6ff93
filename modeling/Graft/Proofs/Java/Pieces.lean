import Mathlib.Data.List.Induction
import Graft.Proofs.Java.Borders

/-!
# Sources in pieces

A text is read as lexemes, one behind the other, in front of what follows it
(`Lexes`). What stands behind them is read on its own (`Lexes.of_front`), and
they do not change with it when the last of them ends by itself
(`Lexes.of_firm`): a blank, a block comment that is closed, a semicolon or a
bracket. Blanks are pieces of their own from the start of a line on
(`Lexes.of_blanks`).
-/

namespace Graft.Java

/-! ## The lengths of lexemes -/

theorem blockCommentLength_le (t : Text) : blockCommentLength t ≤ t.length := by
  induction t with
  | nil => exact Nat.le_refl _
  | cons x t ih =>
    rw [blockCommentLength_cons, List.length_cons]
    split
    · next h =>
      have hlength := (List.isPrefixOf_iff_prefix.mp h).length_le
      simpa using hlength
    · omega

theorem literalLength_le (quote : Char) (escaped : Bool) (t : Text) :
    literalLength quote escaped t ≤ t.length := by
  induction t generalizing escaped with
  | nil => cases escaped <;> exact Nat.le_refl _
  | cons x t ih =>
    cases escaped with
    | true => exact Nat.succ_le_succ (ih false)
    | false =>
      rw [literalLength, List.length_cons]
      split
      · omega
      · exact Nat.succ_le_succ (ih _)

theorem textBlockLength_le (escaped : Bool) (t : Text) :
    textBlockLength escaped t ≤ t.length := by
  induction t generalizing escaped with
  | nil => cases escaped <;> exact Nat.le_refl _
  | cons x t ih =>
    cases escaped with
    | true => exact Nat.succ_le_succ (ih false)
    | false =>
      rw [textBlockLength_cons, List.length_cons]
      split
      · next h =>
        have hlength := (List.isPrefixOf_iff_prefix.mp h).length_le
        simpa using hlength
      · exact Nat.succ_le_succ (ih _)

theorem numberLength_le (based atSign : Bool) (t : Text) :
    numberLength based atSign t ≤ t.length := by
  induction t generalizing atSign with
  | nil => cases atSign <;> exact Nat.le_refl _
  | cons x t ih =>
    rw [numberLength, List.length_cons]
    split
    · exact Nat.succ_le_succ (ih _)
    · split
      · exact Nat.succ_le_succ (ih _)
      · exact Nat.zero_le _

/-- A lexeme does not reach behind the text. -/
theorem lexeme_le (t : Text) : (lexeme t).2 ≤ t.length := by
  cases t with
  | nil => exact Nat.le_refl _
  | cons x rest =>
    unfold lexeme
    dsimp only
    -- a blank, and then the cases of the reader in their order
    split
    · simp
    · split
      case h_1 more _ =>
        have hline := (List.takeWhile_prefix (l := more) (· != '\n')).length_le
        simpa using hline
      case h_2 more _ => simpa using blockCommentLength_le more
      case h_3 more _ => simpa using textBlockLength_le false more
      case h_4 => simpa using literalLength_le '"' false rest
      case h_5 => simpa using literalLength_le '\'' false rest
      case h_6 =>
        split
        · simpa using numberLength_le _ false rest
        · split
          · have hword :=
              (List.takeWhile_prefix (l := rest) Char.continuesWord).length_le
            split
            · next h =>
              rw [Bool.and_eq_true] at h
              have hsealed := (List.isPrefixOf_iff_prefix.mp h.2).length_le
              have hlength : ("-sealed".toList).length = 7 := rfl
              rw [hlength, List.length_drop] at hsealed
              simp only [List.length_cons]
              omega
            · simpa using hword
          · split
            · next sign hfind =>
              have hsign := List.find?_some hfind
              exact (List.isPrefixOf_iff_prefix.mp hsign).length_le
            · simp


/-! ## Pieces -/

/-- A lexeme of a source: what it is, and how it is written. -/
structure Piece where
  kind : LexemeKind
  text : Text
  deriving DecidableEq, Repr

/-- In front of `behind`, a text is read as pieces. -/
inductive Lexes (behind : Text) : Text → List Piece → Prop
  | nil : Lexes behind [] []
  | cons {x : Piece} {more : Text} {xs : List Piece}
      (first : IsLexeme x.kind x.text (more ++ behind))
      (later : Lexes behind more xs) : Lexes behind (x.text ++ more) (x :: xs)

theorem IsLexeme.unique {x y : Piece} {behind behind' : Text}
    (h : IsLexeme x.kind x.text behind) (h' : IsLexeme y.kind y.text behind')
    (heq : x.text ++ behind = y.text ++ behind') :
    x = y ∧ behind = behind' := by
  obtain ⟨-, hx⟩ := h
  obtain ⟨-, hy⟩ := h'
  rw [heq, hy, Prod.mk.injEq] at hx
  obtain ⟨htext, hbehind⟩ := List.append_inj heq hx.2.symm
  obtain ⟨kind, text⟩ := x
  obtain ⟨kind', text'⟩ := y
  cases hx.1
  cases htext
  exact ⟨rfl, hbehind⟩

namespace Lexes

variable {u v w behind : Text} {x : Piece} {xs ys zs : List Piece}

@[simp] theorem nil_iff : Lexes behind u [] ↔ u = [] := by
  constructor
  · rintro ⟨⟩
    rfl
  · rintro rfl
    exact .nil

theorem cons_iff : Lexes behind u (x :: xs) ↔
    ∃ more, u = x.text ++ more ∧ IsLexeme x.kind x.text (more ++ behind) ∧
      Lexes behind more xs := by
  constructor
  · rintro ⟨⟩
    exact ⟨_, rfl, ‹_›, ‹_›⟩
  · rintro ⟨more, rfl, first, later⟩
    exact .cons first later

/-- Every text is read as pieces. -/
theorem exists_whole (t : Text) : ∃ xs, Lexes [] t xs := by
  induction hn : t.length using Nat.strongRecOn generalizing t with
  | ind n ih =>
    by_cases ht : t = []
    · subst ht
      exact ⟨[], .nil⟩
    · have hlength : (t.take (lexeme t).2).length = (lexeme t).2 := by
        rw [List.length_take, Nat.min_eq_left (lexeme_le t)]
      have hne : t.take (lexeme t).2 ≠ [] := by
        rw [← List.length_pos_iff, hlength]
        exact lexeme_pos ht
      obtain ⟨xs, hxs⟩ := ih _ (hn ▸ length_drop_lexeme_lt ht) _ rfl
      refine ⟨⟨(lexeme t).1, t.take (lexeme t).2⟩ :: xs, cons_iff.mpr
        ⟨_, (List.take_append_drop (lexeme t).2 t).symm, ⟨hne, ?_⟩, hxs⟩⟩
      simp only [List.append_nil, List.take_append_drop, hlength]

theorem append (h : Lexes (v ++ behind) u xs) (h' : Lexes behind v ys) :
    Lexes behind (u ++ v) (xs ++ ys) := by
  induction h with
  | nil => exact h'
  | cons first _ ih =>
    rw [List.append_assoc, List.cons_append]
    exact .cons (by rwa [List.append_assoc]) ih

theorem of_append (h : Lexes behind u (xs ++ ys)) :
    ∃ v w, u = v ++ w ∧ Lexes (w ++ behind) v xs ∧ Lexes behind w ys := by
  induction xs generalizing u with
  | nil => exact ⟨[], u, rfl, .nil, h⟩
  | cons x xs ih =>
    obtain ⟨more, rfl, first, later⟩ := cons_iff.mp h
    obtain ⟨v, w, rfl, hv, hw⟩ := ih later
    exact ⟨x.text ++ v, w, by simp, .cons (by simpa using first) hv, hw⟩

theorem exists_last {z : Piece} (h : Lexes behind u (xs ++ [z])) :
    ∃ front, u = front ++ z.text := by
  obtain ⟨v, w, rfl, -, hw⟩ := h.of_append
  obtain ⟨_, rfl, -, hnil⟩ := cons_iff.mp hw
  rw [nil_iff.mp hnil, List.append_nil]
  exact ⟨v, rfl⟩

/-- What stands behind pieces is read on its own. -/
theorem of_front (h : Lexes (v ++ behind) u xs) (hwhole : Lexes behind (u ++ v) zs) :
    ∃ ys, zs = xs ++ ys ∧ Lexes behind v ys := by
  induction h generalizing zs with
  | nil => exact ⟨zs, rfl, hwhole⟩
  | @cons x more xs first _ ih =>
    cases zs with
    | nil => simp [first.1] at hwhole
    | cons z zs =>
      obtain ⟨more', htext, first', later'⟩ := cons_iff.mp hwhole
      rw [List.append_assoc] at htext
      obtain ⟨rfl, hmore⟩ := first.unique first' (by
        rw [← List.append_assoc more, ← List.append_assoc, htext, List.append_assoc])
      obtain rfl : more ++ v = more' := by simpa using htext
      obtain ⟨ys, rfl, hys⟩ := ih later'
      exact ⟨ys, rfl, hys⟩

theorem unique (h : Lexes behind u xs) (h' : Lexes behind u ys) : xs = ys := by
  obtain ⟨zs, rfl, hzs⟩ := of_front (v := []) h (by simpa using h')
  cases zs with
  | nil => simp
  | cons z zs =>
    obtain ⟨more, htext, first, -⟩ := cons_iff.mp hzs
    simp [first.1] at htext

/-- Pieces that end in front of a border do not change with
what follows there. -/
theorem of_border {c c' : Char} (h : Lexes (c :: v) u xs) (hc : isBorder c = true)
    (hstand : MayStandFor c' c) (w : Text) : Lexes (c' :: w) u xs := by
  induction h with
  | nil => exact .nil
  | @cons x more xs first _ ih =>
    obtain ⟨hne, hlexeme⟩ := first
    refine .cons ⟨hne, ?_⟩ ih
    rw [← List.append_assoc] at hlexeme ⊢
    rw [← hlexeme]
    refine lexeme_of_border hc hstand (List.append_ne_nil_of_left_ne_nil hne _) ?_
    rw [hlexeme, List.length_append]
    exact Nat.le_add_right _ _

end Lexes

/-! ## Pieces that end by themselves -/

/-- Whatever stands around it, a piece ends what stands in front of it and is
read as it is. -/
def Piece.IsFirm (x : Piece) : Prop :=
  (∃ c more, x.text = c :: more ∧ isBorder c = true) ∧ ∀ behind,
    IsLexeme x.kind x.text behind

/-- The last of some pieces ends by itself. -/
def EndFirm (xs : List Piece) : Prop := ∃ ys z, xs = ys ++ [z] ∧ z.IsFirm

/-- **Pieces that end by themselves** are read whatever follows them. -/
theorem Lexes.of_firm {u v : Text} {xs : List Piece} (h : Lexes v u xs)
    (firm : EndFirm xs) (w : Text) :
    Lexes w u xs := by
  obtain ⟨ys, z, rfl, ⟨c, more, htext, hc⟩, hz⟩ := firm
  obtain ⟨u, t, rfl, hu, ht⟩ := h.of_append
  obtain ⟨_, rfl, -, hnil⟩ := Lexes.cons_iff.mp ht
  obtain rfl := Lexes.nil_iff.mp hnil
  have hlast : Lexes w (z.text ++ []) [z] := .cons (hz _) .nil
  rw [htext, List.append_nil, List.cons_append] at hu
  refine Lexes.append ?_ hlast
  rw [htext]
  exact hu.of_border hc (.inl rfl) _

theorem EndFirm.append {xs ys : List Piece} (h : EndFirm ys) : EndFirm (xs ++ ys) := by
  obtain ⟨zs, z, rfl, hz⟩ := h
  exact ⟨xs ++ zs, z, by rw [List.append_assoc], hz⟩

theorem isFirm_blank {c : Char} (hc : Char.isBlank c = true) :
    Piece.IsFirm ⟨.blank, [c]⟩ :=
  ⟨⟨c, [], rfl, by rw [isBorder, hc, Bool.true_or]⟩, fun behind =>
    ⟨List.cons_ne_nil c [], lexeme_blank hc behind⟩⟩

theorem isFirm_sign {c : Char} (hc : c = ';' ∨ isBracket [c] = true) :
    Piece.IsFirm ⟨.token .sign, [c]⟩ := by
  rcases hc with rfl | hc
  · exact ⟨⟨_, _, rfl, by decide⟩, fun behind => ⟨List.cons_ne_nil _ _, rfl⟩⟩
  · refine ⟨⟨_, _, rfl, ?_⟩, isLexeme_bracket hc⟩
    have hsign : c = '(' ∨ c = ')' ∨ c = '[' ∨ c = ']' ∨ c = '\x7b' ∨ c = '\x7d' := by
      simpa [isBracket, bracketPairs, or_assoc] using hc
    rcases hsign with rfl | rfl | rfl | rfl | rfl | rfl <;> decide

/-- A block comment in front of something is closed, and nothing further
behind changes it. -/
theorem blockCommentLength_of_closed {a b : Text} (hb : b ≠ [])
    (h : blockCommentLength (a ++ b) = a.length) :
    (∃ more, a = more ++ ['/']) ∧ ∀ w, blockCommentLength (a ++ w) = a.length := by
  induction a with
  | nil =>
    obtain ⟨x, b, rfl⟩ := List.exists_cons_of_ne_nil hb
    rw [List.nil_append, blockCommentLength_cons] at h
    split at h <;> simp at h
  | cons x a ih =>
    cases a with
    | nil =>
      obtain ⟨y, b, rfl⟩ := List.exists_cons_of_ne_nil hb
      simp only [List.cons_append, List.nil_append, blockCommentLength_cons,
        List.length_cons, List.length_nil] at h
      split at h
      · simp at h
      · split at h <;> simp at h
    | cons y a =>
      -- whether a comment ends here shows in two characters, both of which are
      -- in front of `t`
      have hprefix : ∀ t : Text, ['*', '/'].isPrefixOf (x :: y :: (a ++ t)) =
          ['*', '/'].isPrefixOf [x, y] := by
        intro t
        simp [List.isPrefixOf]
      simp only [List.cons_append] at h ih ⊢
      rw [blockCommentLength_cons x, hprefix] at h
      by_cases hclose : ['*', '/'].isPrefixOf [x, y] = true
      · rw [if_pos hclose] at h
        obtain rfl : a = [] := by simpa using h
        obtain ⟨rfl, rfl⟩ : '*' = x ∧ '/' = y := by simpa [List.isPrefixOf] using hclose
        exact ⟨⟨['*'], rfl⟩, fun _ => rfl⟩
      · rw [if_neg hclose] at h
        obtain ⟨⟨more, hmore⟩, hlater⟩ := ih (Nat.succ.inj h)
        refine ⟨⟨x :: more, by rw [hmore]; rfl⟩, fun w => ?_⟩
        rw [blockCommentLength_cons x, hprefix, if_neg hclose, hlater]
        rfl

/-! ## What pieces end with -/

theorem literalLength_of_closed {quote : Char} {escaped : Bool} {a b : Text}
    (hb : b ≠ []) (h : literalLength quote escaped (a ++ b) = a.length) :
    ∃ more, a = more ++ [quote] := by
  induction a generalizing escaped with
  | nil =>
    obtain ⟨x, b, rfl⟩ := List.exists_cons_of_ne_nil hb
    cases escaped with
    | true => simp [literalLength] at h
    | false =>
      rw [List.nil_append, literalLength] at h
      split at h <;> simp at h
  | cons x a ih =>
    have hlater : ∀ escaped', literalLength quote escaped' (a ++ b) = a.length →
        ∃ more, x :: a = more ++ [quote] := by
      intro escaped' hrest
      obtain ⟨more, rfl⟩ := ih hrest
      exact ⟨x :: more, rfl⟩
    cases escaped with
    | true => exact hlater false (Nat.succ.inj h)
    | false =>
      rw [List.cons_append, literalLength] at h
      split at h
      · next hquote =>
        obtain rfl : a = [] := List.length_eq_zero_iff.mp (Nat.succ.inj h.symm)
        exact ⟨[], by rw [eq_of_beq hquote]; rfl⟩
      · exact hlater _ (Nat.succ.inj h)

theorem textBlockLength_of_closed {escaped : Bool} {a b : Text} (hb : b ≠ [])
    (h : textBlockLength escaped (a ++ b) = a.length) : ∃ more, a = more ++ ['"'] := by
  -- the block ends within `a` only where its last three characters are quotes
  induction a generalizing escaped with
  | nil =>
    obtain ⟨x, b, rfl⟩ := List.exists_cons_of_ne_nil hb
    cases escaped with
    | true => simp [textBlockLength] at h
    | false =>
      rw [List.nil_append, textBlockLength_cons] at h
      split at h <;> simp at h
  | cons x a ih =>
    have hlater : ∀ escaped', textBlockLength escaped' (a ++ b) = a.length →
        ∃ more, x :: a = more ++ ['"'] := by
      intro escaped' hrest
      obtain ⟨more, rfl⟩ := ih hrest
      exact ⟨x :: more, rfl⟩
    cases escaped with
    | true => exact hlater false (Nat.succ.inj h)
    | false =>
      rw [List.cons_append, textBlockLength_cons] at h
      split at h
      · next hclose =>
        rcases a with _ | ⟨y, _ | ⟨z, _ | ⟨_, _⟩⟩⟩
        · simp at h
        · simp at h
        · simp only [List.cons_append, List.isPrefixOf, Bool.and_eq_true,
            beq_iff_eq] at hclose
          exact ⟨[x, y], by rw [hclose.2.2.1]; rfl⟩
        · simp at h
      · exact hlater _ (Nat.succ.inj h)

/-- No number goes on behind a border. -/
theorem not_isBorder_of_mem_number {based atSign : Bool} {t : Text} {d : Char}
    (h : d ∈ t.take (numberLength based atSign t)) : isBorder d = false := by
  induction t generalizing atSign with
  | nil => simp at h
  | cons x t ih =>
    have hstep : ∀ atSign', (isBorder x = false) →
        d ∈ (x :: t).take (numberLength based atSign' t + 1) → isBorder d = false := by
      intro atSign' hx hd
      rcases List.mem_cons.mp hd with rfl | hlater
      · exact hx
      · exact ih hlater
    rw [numberLength] at h
    split at h
    · next hx =>
      refine hstep _ (Bool.eq_false_iff.mpr fun hborder => ?_) h
      rw [(standsOutside_of_isBorder hborder).noNumber] at hx
      cases hx
    · split at h
      · next hx =>
        refine hstep _ (Bool.eq_false_iff.mpr fun hborder => ?_) h
        rw [(standsOutside_of_isBorder hborder).noExponent, Bool.and_false] at hx
        cases hx
      · simp at h

/-- A word holds no blanks. -/
theorem not_isBlank_of_mem_word {rest : Text} {d : Char}
    (hd : d ∈ rest.takeWhile Char.continuesWord) :
    Char.isBlank d = false := by
  have hcontinues : Char.continuesWord d = true :=
    List.all_eq_true.mp List.all_takeWhile d hd
  have hborder : isBorder d = false := by
    refine Bool.eq_false_iff.mpr fun h => ?_
    rw [continuesWord_of_isBorder h] at hcontinues
    cases hcontinues
  exact (Bool.or_eq_false_iff.mp hborder).1

/-- The sign in the middle of `non-sealed` stands between two words. -/
theorem eq_nonSealed {x : Char} {rest : Text}
    (hword : x :: rest.takeWhile Char.continuesWord = "non".toList)
    (hsealed : "-sealed".toList.isPrefixOf (rest.drop 2) = true) :
    ∃ more, x :: rest = "non-sealed".toList ++ more := by
  obtain ⟨more, hmore⟩ := List.isPrefixOf_iff_prefix.mp hsealed
  have hon : rest.takeWhile Char.continuesWord = ['o', 'n'] := (List.cons.inj hword).2
  obtain ⟨tail, htail⟩ := List.takeWhile_prefix (l := rest) Char.continuesWord
  rw [hon] at htail
  obtain rfl : x = 'n' := (List.cons.inj hword).1
  refine ⟨more, ?_⟩
  have hrest : rest = ['o', 'n'] ++ ("-sealed".toList ++ more) := by
    rw [hmore, ← htail]
    rfl
  rw [hrest]
  rfl

/-- A word, a number or a sign goes on behind its first character
without blanks. -/
theorem OpensNothing.not_isBlank_of_mem {x : Char} {rest : Text}
    (h : OpensNothing x rest) {d : Char}
    (hd : d ∈ (x :: rest).take (lexeme (x :: rest)).2) : Char.isBlank d = false := by
  have hfirst := h.noBlank
  rw [h.lexeme_eq] at hd
  -- a number, `non-sealed` or another word, and a sign of several characters or
  -- of one
  split at hd
  · rcases List.mem_cons.mp hd with rfl | hlater
    · exact hfirst
    · exact (Bool.or_eq_false_iff.mp (not_isBorder_of_mem_number hlater)).1
  · split at hd
    · split at hd
      · next hsealed =>
        rw [Bool.and_eq_true, decide_eq_true_eq] at hsealed
        obtain ⟨more, hmore⟩ := eq_nonSealed hsealed.1 hsealed.2
        have hall : "non-sealed".toList.all (!Char.isBlank ·) = true := by
          decide +kernel
        refine (Bool.not_eq_true' _).mp (List.all_eq_true.mp hall d ?_)
        rw [hmore] at hd
        exact hd
      · rcases List.mem_cons.mp hd with rfl | hlater
        · exact hfirst
        · have hword : d ∈ rest.takeWhile Char.continuesWord :=
            List.prefix_iff_eq_take.mp
              (List.takeWhile_prefix Char.continuesWord) ▸ hlater
          exact not_isBlank_of_mem_word hword
    · cases hfind : longSigns.find? (·.isPrefixOf (x :: rest)) with
      | none =>
        rw [hfind] at hd
        cases List.mem_singleton.mp hd
        exact hfirst
      | some sign =>
        rw [hfind] at hd
        have hsign := List.mem_of_find?_eq_some hfind
        have hprefix := List.find?_some hfind
        obtain ⟨more, hmore⟩ := List.isPrefixOf_iff_prefix.mp hprefix
        have hall : longSigns.all (·.all (!Char.isBlank ·)) = true := by decide +kernel
        refine (Bool.not_eq_true' _).mp
          (List.all_eq_true.mp (List.all_eq_true.mp hall sign hsign) d ?_)
        rw [← hmore] at hd
        simpa using hd

/-- What is no blank does not begin with a line break. -/
theorem IsLexeme.exists_first {kind : LexemeKind} {piece behind : Text}
    (h : IsLexeme kind piece behind) (hkind : kind ≠ .blank) :
    ∃ c more, piece = c :: more ∧ c ≠ '\n' := by
  obtain ⟨c, more, rfl⟩ := List.exists_cons_of_ne_nil h.1
  refine ⟨c, more, rfl, ?_⟩
  rintro rfl
  have hlexeme := h.2
  rw [List.cons_append, lexeme_blank (by decide)] at hlexeme
  exact hkind (congrArg Prod.fst hlexeme).symm

/-- In front of something, a token does not end with a blank. -/
theorem IsLexeme.exists_last {kind : TokenKind} {piece behind : Text}
    (h : IsLexeme (.token kind) piece behind) (hbehind : behind ≠ []) :
    ∃ more d, piece = more ++ [d] ∧ Char.isBlank d = false := by
  obtain ⟨hne, hlexeme⟩ := h
  obtain ⟨x, piece, rfl⟩ := List.exists_cons_of_ne_nil hne
  have hfront : ∀ {more d}, piece = more ++ [d] → Char.isBlank d = false →
      ∃ more d, x :: piece = more ++ [d] ∧ Char.isBlank d = false :=
    fun {more d} hpiece hd => ⟨x :: more, d, by rw [hpiece]; rfl, hd⟩
  rw [List.cons_append] at hlexeme
  -- by the first character: a blank, a quote, an apostrophe, or one that opens
  -- nothing
  by_cases hblank : Char.isBlank x = true
  · rw [lexeme_blank hblank] at hlexeme
    cases hlexeme
  by_cases hquote : x = '"'
  · subst hquote
    by_cases hblock : ∃ more, piece ++ behind = '"' :: '"' :: more
    · obtain ⟨more, hmore⟩ := hblock
      have htext : lexeme ('"' :: '"' :: '"' :: more) =
          (.token .string, textBlockLength false more + 3) := rfl
      rw [hmore, htext, Prod.mk.injEq] at hlexeme
      have hlength := hlexeme.2
      rcases piece with _ | ⟨y, _ | ⟨z, piece⟩⟩
      · simp at hlength
      · simp at hlength
      · obtain rfl : piece ++ behind = more := (List.cons.inj (List.cons.inj hmore).2).2
        obtain ⟨more, rfl⟩ :=
          textBlockLength_of_closed hbehind (Nat.add_right_cancel hlength)
        exact ⟨_ :: y :: z :: more, '"', rfl, by decide⟩
    · rw [lexeme_quote fun more hmore => hblock ⟨more, hmore⟩, Prod.mk.injEq] at hlexeme
      obtain ⟨more, hmore⟩ :=
        literalLength_of_closed hbehind (Nat.add_right_cancel hlexeme.2)
      exact hfront hmore (by decide)
  by_cases hapostrophe : x = '\''
  · subst hapostrophe
    have hliteral : lexeme ('\'' :: (piece ++ behind)) =
        (.token .character, literalLength '\'' false (piece ++ behind) + 1) := rfl
    rw [hliteral, Prod.mk.injEq] at hlexeme
    obtain ⟨more, hmore⟩ :=
      literalLength_of_closed hbehind (Nat.add_right_cancel hlexeme.2)
    exact hfront hmore (by decide)
  have hplain : OpensNothing x (piece ++ behind) := by
    refine ⟨Bool.not_eq_true _ ▸ hblank, ⟨hquote, hapostrophe⟩, ?_⟩
    rintro rfl
    constructor <;> intro hhead
    all_goals
      obtain ⟨rest, hrest⟩ := List.head?_eq_some_iff.mp hhead
      rw [hrest] at hlexeme
      cases (Prod.mk.inj hlexeme).1
  obtain ⟨more, d, hmore⟩ : ∃ more d, x :: piece = more ++ [d] :=
    ⟨_, _, (List.dropLast_concat_getLast (List.cons_ne_nil x piece)).symm⟩
  refine ⟨more, d, hmore, hplain.not_isBlank_of_mem ?_⟩
  rw [hlexeme, ← List.cons_append, List.take_left, hmore]
  simp

/-- What is no token is a blank or a comment. -/
theorem lexeme_cases (x : Char) (rest : Text) :
    (Char.isBlank x = true ∧ lexeme (x :: rest) = (.blank, 1)) ∨
    (∃ more, x :: rest = '/' :: '/' :: more ∧
      lexeme (x :: rest) = (.lineComment, (more.takeWhile (· != '\n')).length + 2)) ∨
    (∃ more, x :: rest = '/' :: '*' :: more ∧
      lexeme (x :: rest) = (.blockComment, blockCommentLength more + 2)) ∨
    ∃ kind, (lexeme (x :: rest)).1 = .token kind := by
  by_cases hblank : Char.isBlank x = true
  · exact .inl ⟨hblank, lexeme_blank hblank rest⟩
  -- only a slash can open a comment, with a slash or a star behind it
  by_cases hslash : x = '/'
  · subst hslash
    by_cases hline : ∃ more, rest = '/' :: more
    · obtain ⟨more, rfl⟩ := hline
      exact .inr (.inl ⟨more, rfl, rfl⟩)
    by_cases hblock : ∃ more, rest = '*' :: more
    · obtain ⟨more, rfl⟩ := hblock
      exact .inr (.inr (.inl ⟨more, rfl, rfl⟩))
    have hplain : OpensNothing '/' rest := by
      refine ⟨by decide, by decide,
        fun _ => ⟨fun hhead => hline ?_, fun hhead => hblock ?_⟩⟩ <;>
        exact List.head?_eq_some_iff.mp hhead
    refine .inr (.inr (.inr ?_))
    rw [hplain.lexeme_eq]
    split
    · exact ⟨_, rfl⟩
    · split
      · split <;> exact ⟨_, rfl⟩
      · exact ⟨_, rfl⟩
  · exact .inr (.inr (.inr (lexeme_solid (Bool.not_eq_true _ ▸ hblank) hslash rest)))

section

variable {piece behind : Text}

theorem IsLexeme.of_blank (h : IsLexeme .blank piece behind) :
    ∃ c, piece = [c] ∧ Char.isBlank c = true := by
  obtain ⟨hne, hlexeme⟩ := h
  obtain ⟨x, piece, rfl⟩ := List.exists_cons_of_ne_nil hne
  rcases lexeme_cases x (piece ++ behind) with
    ⟨hx, heq⟩ | ⟨more, -, heq⟩ | ⟨more, -, heq⟩ | ⟨kind, heq⟩
  · rw [List.cons_append, heq, Prod.mk.injEq, List.length_cons] at hlexeme
    obtain rfl : piece = [] :=
      List.length_eq_zero_iff.mp (Nat.add_right_cancel hlexeme.2.symm)
    exact ⟨x, rfl, hx⟩
  all_goals
    rw [List.cons_append] at hlexeme
    simp [hlexeme] at heq

theorem IsLexeme.of_lineComment (h : IsLexeme .lineComment piece behind) :
    ∃ more, piece ++ behind = '/' :: '/' :: more ∧
      piece.length = (more.takeWhile (· != '\n')).length + 2 := by
  obtain ⟨hne, hlexeme⟩ := h
  obtain ⟨x, piece, rfl⟩ := List.exists_cons_of_ne_nil hne
  rcases lexeme_cases x (piece ++ behind) with
    ⟨-, heq⟩ | ⟨more, htext, heq⟩ | ⟨more, -, heq⟩ | ⟨kind, heq⟩
  case inr.inl =>
    rw [List.cons_append, heq, Prod.mk.injEq] at hlexeme
    exact ⟨more, htext, hlexeme.2.symm⟩
  all_goals
    rw [List.cons_append] at hlexeme
    simp [hlexeme] at heq

theorem IsLexeme.of_blockComment (h : IsLexeme .blockComment piece behind) :
    ∃ more, piece ++ behind = '/' :: '*' :: more ∧
      piece.length = blockCommentLength more + 2 := by
  obtain ⟨hne, hlexeme⟩ := h
  obtain ⟨x, piece, rfl⟩ := List.exists_cons_of_ne_nil hne
  rcases lexeme_cases x (piece ++ behind) with
    ⟨-, heq⟩ | ⟨more, -, heq⟩ | ⟨more, htext, heq⟩ | ⟨kind, heq⟩
  case inr.inr.inl =>
    rw [List.cons_append, heq, Prod.mk.injEq] at hlexeme
    exact ⟨more, htext, hlexeme.2.symm⟩
  all_goals
    rw [List.cons_append] at hlexeme
    simp [hlexeme] at heq

/-- A line comment holds no line break, and in front of something
it ends at one. -/
theorem IsLexeme.line_ends (h : IsLexeme .lineComment piece behind) :
    '\n' ∉ piece ∧ behind.head?.getD '\n' = '\n' := by
  obtain ⟨more, htext, hlength⟩ := h.of_lineComment
  rcases piece with _ | ⟨x, _ | ⟨y, piece⟩⟩
  · simp at hlength
  · simp at hlength
  · obtain ⟨rfl, rfl, rfl⟩ : x = '/' ∧ y = '/' ∧ piece ++ behind = more := by
      simpa using htext
    have hline : (piece ++ behind).takeWhile (· != '\n') = piece := by
      have hprefix := List.prefix_iff_eq_take.mp
        (List.takeWhile_prefix (l := piece ++ behind) (· != '\n'))
      have hsame : piece.length =
          ((piece ++ behind).takeWhile (· != '\n')).length := by simpa using hlength
      rwa [← hsame, List.take_left] at hprefix
    have hbreak : ∀ c ∈ piece, (c != '\n') = true := by
      rw [← hline]
      exact fun c hc => List.all_eq_true.mp List.all_takeWhile c hc
    constructor
    · simpa using fun h => absurd (hbreak _ h) (by simp)
    · cases behind with
      | nil => rfl
      | cons c behind =>
        rw [List.takeWhile_append_of_pos hbreak, List.append_right_eq_self,
          List.takeWhile_cons] at hline
        simpa using hline

/-- In front of something, a block comment is closed. -/
theorem IsLexeme.blockComment_closes (h : IsLexeme .blockComment piece behind)
    (hbehind : behind ≠ []) :
    Piece.IsFirm ⟨.blockComment, piece⟩ ∧ ∃ more, piece = more ++ ['/'] := by
  obtain ⟨more, htext, hlength⟩ := h.of_blockComment
  rcases piece with _ | ⟨x, _ | ⟨y, piece⟩⟩
  · simp at hlength
  · simp at hlength
  · obtain ⟨rfl, rfl, rfl⟩ : x = '/' ∧ y = '*' ∧ piece ++ behind = more := by
      simpa using htext
    have hclosed : blockCommentLength (piece ++ behind) = piece.length := by
      simpa using hlength.symm
    constructor
    · refine ⟨⟨'/', _, rfl, by decide⟩, fun w => ⟨List.cons_ne_nil _ _, ?_⟩⟩
      have hlexeme : lexeme ('/' :: '*' :: (piece ++ w)) =
          (.blockComment, blockCommentLength (piece ++ w) + 2) := rfl
      rw [List.cons_append, List.cons_append, hlexeme,
        (blockCommentLength_of_closed hbehind hclosed).2]
      rfl
    · obtain ⟨more, rfl⟩ := (blockCommentLength_of_closed hbehind hclosed).1
      exact ⟨'/' :: '*' :: more, rfl⟩

end

/-- **Where something other than a line break begins**, a piece ends by itself,
if a token does. -/
theorem IsLexeme.isFirm {z : Piece} {c : Char} {behind : Text}
    (h : IsLexeme z.kind z.text (c :: behind)) (hc : c ≠ '\n')
    (htoken : ∀ kind, z.kind = .token kind → z.IsFirm) : z.IsFirm := by
  obtain ⟨kind, text⟩ := z
  cases kind with
  | blank =>
    obtain ⟨d, rfl, hd⟩ := h.of_blank
    exact isFirm_blank hd
  | lineComment => exact absurd h.line_ends.2 hc
  | blockComment => exact (h.blockComment_closes (List.cons_ne_nil c behind)).1
  | token kind => exact htoken kind rfl

/-- A line break at the end of a text is a piece of its own. -/
theorem Lexes.exists_break {behind u : Text} {xs : List Piece} (h : Lexes behind u xs)
    (hbehind : behind ≠ []) (hline : u.getLast? = some '\n') :
    ∃ ys, xs = ys ++ [⟨.blank, ['\n']⟩] := by
  rcases List.eq_nil_or_concat xs with rfl | ⟨ys, ⟨kind, text⟩, rfl⟩
  · rw [Lexes.nil_iff.mp h] at hline
    cases hline
  rw [List.concat_eq_append] at h ⊢
  obtain ⟨v, w, rfl, -, hw⟩ := h.of_append
  obtain ⟨_, rfl, hz, hnil⟩ := Lexes.cons_iff.mp hw
  obtain rfl := Lexes.nil_iff.mp hnil
  rw [List.nil_append] at hz
  -- the last piece ends in the line break, and only a blank does
  have hlast : ∀ more d, text = more ++ [d] → d = '\n' := by
    intro more d hmore
    rw [hmore, List.append_nil, ← List.append_assoc, List.getLast?_concat] at hline
    exact Option.some.inj hline
  refine ⟨ys, ?_⟩
  cases kind with
  | blank =>
    obtain ⟨d, rfl, -⟩ := hz.of_blank
    obtain rfl := hlast [] d rfl
    rfl
  | lineComment =>
    obtain ⟨more, d, hmore⟩ : ∃ more d, text = more ++ [d] :=
      ⟨_, _, (List.dropLast_concat_getLast hz.1).symm⟩
    obtain rfl := hlast more d hmore
    exact absurd (hmore ▸ List.mem_append_right _ List.mem_cons_self) hz.line_ends.1
  | blockComment =>
    obtain ⟨-, more, hmore⟩ := hz.blockComment_closes hbehind
    exact absurd (hlast more '/' hmore) (by decide)
  | token kind =>
    obtain ⟨more, d, hmore, hd⟩ := hz.exists_last hbehind
    obtain rfl := hlast more d hmore
    exact absurd hd (by decide)

/-- Pieces of whole lines end by themselves. -/
theorem Lexes.endFirm_of_line {behind u : Text} {xs : List Piece}
    (h : Lexes behind u xs) (hbehind : behind ≠ []) (hline : u.getLast? = some '\n') :
    EndFirm xs := by
  obtain ⟨ys, rfl⟩ := h.exists_break hbehind hline
  exact ⟨ys, _, rfl, isFirm_blank (by decide)⟩

/-- Whole lines are read as they are whatever follows. -/
theorem Lexes.of_lines {behind u : Text} {xs : List Piece} (h : Lexes behind u xs)
    (hbehind : behind ≠ []) (hline : ∀ c ∈ u.getLast?, c = '\n') (w : Text) :
    Lexes w u xs := by
  cases hlast : u.getLast? with
  | none =>
    obtain rfl := List.getLast?_eq_none_iff.mp hlast
    exact h.unique .nil ▸ .nil
  | some c =>
    obtain rfl := hline c hlast
    exact h.of_firm (h.endFirm_of_line hbehind hlast) w

/-! ## Blanks -/

/-- The pieces of blanks. -/
def blanks (w : Text) : List Piece := w.map fun c => ⟨.blank, [c]⟩

theorem Lexes.blanks {w : Text} (h : Text.isBlank w = true) (behind : Text) :
    Lexes behind w (blanks w) := by
  induction w with
  | nil => exact .nil
  | cons c w ih =>
    rw [Text.isBlank, List.all_cons, Bool.and_eq_true] at h
    exact .cons (x := ⟨.blank, [c]⟩)
      ⟨List.cons_ne_nil c [], lexeme_blank h.1 _⟩ (ih h.2)

/-- No comment begins among blanks. -/
theorem slash_notMem {w : Text} (h : Text.isBlank w = true) : '/' ∉ w :=
  fun hmem => absurd (List.all_eq_true.mp h '/' hmem) (by decide)

/-- What is read of blanks that begin a line ends with a blank. -/
theorem eq_blank_of_last {a w u behind : Text} {c : Char} {z : Piece}
    (htext : a ++ (w ++ [c]) = u ++ z.text) (hz : IsLexeme z.kind z.text behind)
    (hw : Text.isBlank (w ++ [c]) = true) (hbehind : behind ≠ [])
    (ha : ∀ d ∈ a.getLast?, d = '\n') :
    z = ⟨.blank, [c]⟩ := by
  have hlast : ∀ more d, z.text = more ++ [d] → d = c := by
    intro more d hmore
    rw [hmore, ← List.append_assoc, ← List.append_assoc] at htext
    exact (List.cons.inj (List.append_inj' htext rfl).2).1.symm
  have hc : Char.isBlank c = true := List.all_eq_true.mp hw c (by simp)
  obtain ⟨kind, text⟩ := z
  cases kind with
  | blank =>
    obtain ⟨d, rfl, -⟩ := hz.of_blank
    obtain rfl := hlast [] d rfl
    rfl
  | lineComment =>
    exfalso
    obtain ⟨more, hslash, -⟩ := hz.of_lineComment
    obtain ⟨x, text, rfl⟩ := List.exists_cons_of_ne_nil hz.1
    obtain rfl : x = '/' := (List.cons.inj hslash).1
    rcases List.append_eq_append_iff.mp htext with
      ⟨front, -, hfront⟩ | ⟨front, rfl, hfront⟩
    · exact slash_notMem hw (hfront ▸ List.mem_append_right _ List.mem_cons_self)
    · -- the comment would hold the line break in front of the blanks
      rcases List.eq_nil_or_concat front with rfl | ⟨front, d, rfl⟩
      · exact slash_notMem hw (hfront ▸ List.mem_cons_self)
      · obtain rfl := ha d (by simp)
        exact hz.line_ends.1 (by rw [hfront]; simp)
  | blockComment =>
    obtain ⟨-, more, hmore⟩ := hz.blockComment_closes hbehind
    obtain rfl := hlast more '/' hmore
    exact absurd hc (by decide)
  | token kind =>
    obtain ⟨more, d, hmore, hd⟩ := hz.exists_last hbehind
    obtain rfl := hlast more d hmore
    rw [hd] at hc
    cases hc

/-- **Blanks are pieces of their own** from the start of a line on: whatever
stands before it does not reach over the line break. -/
theorem Lexes.of_blanks {a w behind : Text} {xs : List Piece}
    (h : Lexes behind (a ++ w) xs) (hw : Text.isBlank w = true)
    (hbehind : behind ≠ []) (ha : ∀ c ∈ a.getLast?, c = '\n') :
    ∃ ys, xs = ys ++ Java.blanks w ∧ Lexes (w ++ behind) a ys := by
  induction w using List.reverseRecOn generalizing xs behind with
  | nil => exact ⟨xs, by simp [Java.blanks], by simpa using h⟩
  | append_singleton w c ih =>
    have hfront : Text.isBlank w = true :=
      (Bool.and_eq_true_iff.mp (Text.isBlank_append w [c] ▸ hw)).1
    rcases List.eq_nil_or_concat xs with rfl | ⟨xs, z, rfl⟩
    · simp at h
    rw [List.concat_eq_append] at h ⊢
    obtain ⟨u, v, htext, hu, hv⟩ := h.of_append
    obtain ⟨_, rfl, hz, hnil⟩ := Lexes.cons_iff.mp hv
    obtain rfl := Lexes.nil_iff.mp hnil
    rw [List.append_nil] at htext hu
    rw [List.nil_append] at hz
    obtain rfl := eq_blank_of_last htext hz hw hbehind ha
    rw [← List.append_assoc] at htext
    obtain ⟨rfl, -⟩ := List.append_inj' htext rfl
    obtain ⟨ys, rfl, hys⟩ := ih hu hfront (List.cons_ne_nil c behind)
    exact ⟨ys, by simp [Java.blanks], by simpa using hys⟩

end Graft.Java
