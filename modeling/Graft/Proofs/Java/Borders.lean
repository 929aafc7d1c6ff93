import Graft.Proofs.Java.Annotations
import Graft.Proofs.Java.Strings

/-!
# Where lexemes end

A blank, a bracket, a semicolon or a slash ends every word, number and sign in
front of it (`isBorder`). A lexeme that ends in front of such a character is
read from what stands up to there (`lexeme_of_border`), so that it does not
change with anything further behind.
-/

namespace Graft.Java

/-! ## Borders -/

/-- Whether a character ends every word, number and sign in front of it. -/
def isBorder (c : Char) : Bool :=
  Char.isBlank c || [';', '/', '(', ')', '[', ']', '\x7b', '\x7d'].contains c

/-- A character may stand in place of a border: it is the same, or it is a line
break in place of a closing brace. -/
def MayStandFor (c' c : Char) : Prop := c' = c ∨ (c' = '\n' ∧ c = '\x7d')

/-- The code points of the borders that are in ASCII. -/
def narrowBorders : List Nat :=
  [9, 10, 11, 12, 13, 32] ++
    [';', '/', '(', ')', '[', ']', '\x7b', '\x7d'].map Char.toNat

theorem isBorder_cases {c : Char} (h : isBorder c = true) :
    c.toNat ∈ narrowBorders ++ wideBlanks := by
  rw [isBorder, Bool.or_eq_true] at h
  rw [narrowBorders, List.mem_append, List.mem_append]
  rcases h with hblank | hsign
  · exact (isBlank_cases hblank).elim (fun h => .inl (.inl h)) .inr
  · exact .inl (.inr (List.mem_map_of_mem (List.contains_iff_mem.mp hsign)))

/-- No range of characters of words holds a blank. -/
theorem identifierPart_apart : (wideBlanks.all fun n =>
    Text.Table.identifierPart.toList.all fun r => !(r.1 ≤ n && n ≤ r.2)) = true := by
  decide +kernel

theorem continuesWord_of_wide {c : Char} (h : c.toNat ∈ wideBlanks) :
    Char.continuesWord c = false := by
  have hwide : ∀ n ∈ wideBlanks, ¬ n < 128 ∧ n ≠ 0xA2 := by decide
  obtain ⟨hlarge, hcent⟩ := hwide _ h
  rw [Char.continuesWord, Char.ofClass, if_neg hlarge, Char.inRanges,
    ← Array.any_toList, Bool.or_eq_false_iff, List.any_eq_false, beq_eq_false_iff_ne]
  refine ⟨hcent, fun r hr => ?_⟩
  have hapart := List.all_eq_true.mp (List.all_eq_true.mp identifierPart_apart _ h) r hr
  rw [Bool.not_eq_true'] at hapart
  exact Bool.eq_false_iff.mp hapart

theorem continuesWord_of_isBorder {c : Char} (h : isBorder c = true) :
    Char.continuesWord c = false := by
  rcases List.mem_append.mp (isBorder_cases h) with hnarrow | hwide
  · have hall : ∀ n ∈ narrowBorders, Char.continuesWord (Char.ofNat n) = false := by
      decide +kernel
    have hc := hall _ hnarrow
    rwa [Char.ofNat_toNat] at hc
  · exact continuesWord_of_wide hwide

/-- What belongs to no number and to no sign of several characters, and
opens no literal. -/
structure StandsOutside (c : Char) : Prop where
  noDigit : c.isDigit = false
  noNumber : (c.isAlphanum || c == '_' || c == '.') = false
  noExponent : (c == '+' || c == '-') = false
  noQuote : c ≠ '"'
  noStar : c ≠ '*'
  noSign : ∀ sign ∈ longSigns, c ∉ sign
  noSealed : c ∉ "-sealed".toList

theorem standsOutside_of_isBorder {c : Char} (h : isBorder c = true) :
    StandsOutside c := by
  have hall : ∀ n ∈ narrowBorders ++ wideBlanks, (Char.ofNat n).isDigit = false ∧
      ((Char.ofNat n).isAlphanum || Char.ofNat n == '_' || Char.ofNat n == '.') =
        false ∧
      (Char.ofNat n == '+' || Char.ofNat n == '-') = false ∧ Char.ofNat n ≠ '"' ∧
      Char.ofNat n ≠ '*' ∧
      (∀ sign ∈ longSigns, Char.ofNat n ∉ sign) ∧ Char.ofNat n ∉ "-sealed".toList := by
    decide +kernel
  have hc := hall _ (isBorder_cases h)
  rw [Char.ofNat_toNat] at hc
  obtain ⟨noDigit, noNumber, noExponent, noQuote, noStar, noSign, noSealed⟩ := hc
  exact { noDigit, noNumber, noExponent, noQuote, noStar, noSign, noSealed }

theorem MayStandFor.isBorder {c c' : Char} (h : MayStandFor c' c)
    (hc : isBorder c = true) :
    isBorder c' = true := by
  rcases h with rfl | ⟨rfl, -⟩
  · exact hc
  · decide

/-! ## Lengths in front of a border -/

section

variable {u v w : Text} {c c' : Char}

theorem isPrefixOf_of_border {sign : Text} (h : c ∉ sign) (h' : c' ∉ sign) :
    sign.isPrefixOf (u ++ c' :: w) = sign.isPrefixOf (u ++ c :: v) := by
  induction sign generalizing u with
  | nil => simp
  | cons s sign ih =>
    rw [List.mem_cons, not_or] at h h'
    cases u with
    | nil =>
      have hs : (s == c) = false := by simpa using Ne.symm h.1
      have hs' : (s == c') = false := by simpa using Ne.symm h'.1
      simp [List.isPrefixOf, hs, hs']
    | cons x u => simp only [List.cons_append, List.isPrefixOf, ih h.2 h'.2]

theorem find?_isPrefixOf_of_border {signs : List Text} (h : ∀ sign ∈ signs, c ∉ sign)
    (h' : ∀ sign ∈ signs, c' ∉ sign) : signs.find? (·.isPrefixOf (u ++ c' :: w)) =
      signs.find? (·.isPrefixOf (u ++ c :: v)) := by
  induction signs with
  | nil => rfl
  | cons sign signs ih =>
    obtain ⟨hsign, hsigns⟩ := List.forall_mem_cons.mp h
    obtain ⟨hsign', hsigns'⟩ := List.forall_mem_cons.mp h'
    rw [List.find?_cons, List.find?_cons, isPrefixOf_of_border hsign hsign',
      ih hsigns hsigns']

theorem blockCommentLength_cons (x : Char) (t : Text) : blockCommentLength (x :: t) =
    if ['*', '/'].isPrefixOf (x :: t) then 2 else blockCommentLength t + 1 := by
  split
  · next h =>
    obtain ⟨rest, hrest⟩ := List.isPrefixOf_iff_prefix.mp h
    rw [← hrest]
    rfl
  · next h =>
    rw [blockCommentLength]
    rintro rest rfl rfl
    exact h (by simp [List.isPrefixOf])

theorem textBlockLength_cons (x : Char) (t : Text) : textBlockLength false (x :: t) =
    if ['"', '"', '"'].isPrefixOf (x :: t) then 3
    else textBlockLength (x == '\\') t + 1 := by
  split
  · next h =>
    obtain ⟨rest, hrest⟩ := List.isPrefixOf_iff_prefix.mp h
    rw [← hrest]
    rfl
  · next h =>
    rw [textBlockLength]
    rintro rest rfl rfl
    exact h (by simp [List.isPrefixOf])

theorem blockCommentLength_of_border (hc : isBorder c = true) (h : MayStandFor c' c)
    (hle : blockCommentLength (u ++ c :: v) ≤ u.length) :
    blockCommentLength (u ++ c' :: w) = blockCommentLength (u ++ c :: v) := by
  induction u with
  | nil =>
    rw [List.nil_append, blockCommentLength_cons] at hle
    split at hle <;> simp at hle
  | cons x u ih =>
    -- the border is not what closes the comment
    have hopens : ['*', '/'].isPrefixOf (x :: u ++ c' :: w) =
        ['*', '/'].isPrefixOf (x :: u ++ c :: v) := by
      cases u with
      | cons y u => simp [List.isPrefixOf]
      | nil =>
        by_cases hx : x = '*'
        · have hslash : c ≠ '/' := by
            rintro rfl
            subst hx
            simp [blockCommentLength] at hle
          have hslash' : c' ≠ '/' := by
            rcases h with rfl | ⟨rfl, -⟩
            · exact hslash
            · decide
          simp [List.isPrefixOf, beq_false_of_ne (Ne.symm hslash),
            beq_false_of_ne (Ne.symm hslash')]
        · simp [List.isPrefixOf, beq_false_of_ne (Ne.symm hx)]
    simp only [List.cons_append, blockCommentLength_cons,
      List.length_cons] at hle hopens ⊢
    rw [hopens]
    split
    · rfl
    · next hopen =>
      rw [if_neg hopen, Nat.add_le_add_iff_right] at hle
      rw [ih hle]

theorem textBlockLength_of_border (hc : isBorder c = true) (h : MayStandFor c' c)
    (escaped : Bool) (hle : textBlockLength escaped (u ++ c :: v) ≤ u.length) :
    textBlockLength escaped (u ++ c' :: w) = textBlockLength escaped (u ++ c :: v) := by
  -- no border is a quote, so it neither ends a text block nor helps to end one
  have hquote : ∀ {c : Char}, isBorder c = true → c ∉ ['"', '"', '"'] := by
    intro c hc
    simp [(standsOutside_of_isBorder hc).noQuote]
  induction u generalizing escaped with
  | nil =>
    cases escaped with
    | true => simp [textBlockLength] at hle
    | false =>
      rw [List.nil_append, textBlockLength_cons] at hle
      split at hle <;> simp at hle
  | cons x u ih =>
    cases escaped with
    | true =>
      simp only [List.cons_append, textBlockLength, List.length_cons,
        Nat.add_le_add_iff_right] at hle ⊢
      rw [ih false hle]
    | false =>
      have hopens := isPrefixOf_of_border (u := x :: u) (v := v) (w := w) (hquote hc)
        (hquote (h.isBorder hc))
      simp only [List.cons_append, textBlockLength_cons,
        List.length_cons] at hle hopens ⊢
      rw [hopens]
      split
      · rfl
      · next hopen =>
        rw [if_neg hopen, Nat.add_le_add_iff_right] at hle
        rw [ih _ hle]

theorem literalLength_of_border (quote : Char) (escaped : Bool)
    (hle : literalLength quote escaped (u ++ c :: v) ≤ u.length) :
    literalLength quote escaped (u ++ c' :: w) =
      literalLength quote escaped (u ++ c :: v) := by
  induction u generalizing escaped with
  | nil =>
    cases escaped with
    | true => simp [literalLength] at hle
    | false =>
      rw [List.nil_append, literalLength] at hle
      split at hle <;> simp at hle
  | cons x u ih =>
    cases escaped with
    | true =>
      simp only [List.cons_append, literalLength, List.length_cons,
        Nat.add_le_add_iff_right] at hle ⊢
      rw [ih false hle]
    | false =>
      simp only [List.cons_append, literalLength, List.length_cons] at hle ⊢
      split
      · rfl
      · next hquote =>
        rw [if_neg hquote, Nat.add_le_add_iff_right] at hle
        rw [ih _ hle]

theorem numberLength_of_border (hc : isBorder c = true) (h : MayStandFor c' c)
    (based atSign : Bool) :
    numberLength based atSign (u ++ c' :: w) =
      numberLength based atSign (u ++ c :: v) := by
  have hzero : ∀ {c : Char} {v : Text} (atSign : Bool), isBorder c = true →
      numberLength based atSign (c :: v) = 0 := by
    intro c v atSign hc
    have outside := standsOutside_of_isBorder hc
    rw [numberLength, outside.noNumber, outside.noExponent, Bool.and_false]
    rfl
  induction u generalizing atSign with
  | nil => rw [List.nil_append, List.nil_append, hzero atSign hc,
      hzero atSign (h.isBorder hc)]
  | cons x u ih =>
    simp only [List.cons_append, numberLength, ih]

/-- A run that a character ends does not reach behind it. -/
theorem takeWhile_of_end {p : Char → Bool} (h : p c = false) :
    (u ++ c :: v).takeWhile p = u.takeWhile p := by
  induction u with
  | nil => simp [h]
  | cons x u ih => simp only [List.cons_append, List.takeWhile_cons, ih]

/-- A run that ends in front of a border, unless that is a line break, ends
further in front. -/
theorem lineLength_of_border (h : MayStandFor c' c)
    (hle : ((u ++ c :: v).takeWhile (· != '\n')).length ≤ u.length) :
    (u ++ c' :: w).takeWhile (· != '\n') = (u ++ c :: v).takeWhile (· != '\n') := by
  induction u with
  | nil =>
    by_cases hbreak : c = '\n'
    · subst hbreak
      rcases h with rfl | ⟨rfl, -⟩ <;>
        rw [takeWhile_of_end (by simp), takeWhile_of_end (by simp)]
    · simp [hbreak] at hle
  | cons x u ih =>
    simp only [List.cons_append, List.takeWhile_cons] at hle ⊢
    split
    · next hx =>
      rw [if_pos hx, List.length_cons, List.length_cons,
        Nat.add_le_add_iff_right] at hle
      rw [ih hle]
    · rfl

/-! ## Lexemes in front of a border -/

theorem hasBaseMark_of_border (hc : isBorder c = true)
    (h : MayStandFor c' c) (x : Char) :
    hasBaseMark (x :: (u ++ c' :: w)) = hasBaseMark (x :: (u ++ c :: v)) := by
  have hcons : ∀ (x y : Char) (t : Text), hasBaseMark (x :: y :: t) =
      (x == '0' && (y == 'x' || y == 'X' || y == 'b' || y == 'B')) := by
    intro x y t
    by_cases hx : x = '0'
    · subst hx
      rfl
    · rw [hasBaseMark]
      · simp [hx]
      · intro y t heq
        exact hx (List.cons.inj heq).1
  cases u with
  | cons y u => rw [List.cons_append, List.cons_append, hcons, hcons]
  | nil =>
    have hnone : ∀ {c : Char}, isBorder c = true →
        (c == 'x' || c == 'X' || c == 'b' || c == 'B') = false := by
      intro c hc
      have hword := continuesWord_of_isBorder hc
      simp only [Bool.or_eq_false_iff, beq_eq_false_iff_ne]
      refine ⟨⟨⟨?_, ?_⟩, ?_⟩, ?_⟩ <;> rintro rfl <;>
        exact absurd hword (by decide +kernel)
    rw [List.nil_append, List.nil_append, hcons, hcons, hnone hc, hnone (h.isBorder hc)]

/-- What opens neither a comment nor a literal. -/
structure OpensNothing (x : Char) (rest : Text) : Prop where
  noBlank : Char.isBlank x = false
  noQuote : x ≠ '"' ∧ x ≠ '\''
  noComment : x = '/' → rest.head? ≠ some '/' ∧ rest.head? ≠ some '*'

theorem OpensNothing.lexeme_eq {x : Char} {rest : Text} (h : OpensNothing x rest) :
    lexeme (x :: rest) =
    if x.isDigit || (x == '.' && rest.head?.any Char.isDigit) then
      (.token
        (if isIntegerText
          ((x :: rest).take (numberLength (hasBaseMark (x :: rest)) false rest + 1))
        then .integer else .floating),
        numberLength (hasBaseMark (x :: rest)) false rest + 1)
    else if Char.startsWord x then
      if x :: rest.takeWhile Char.continuesWord = "non" &&
        ("-sealed".toList).isPrefixOf (rest.drop 2) then
        (.token .word, 10)
      else (.token .word, (x :: rest.takeWhile Char.continuesWord).length)
    else (.token .sign,
      ((longSigns.find? (·.isPrefixOf (x :: rest))).map List.length).getD 1) := by
  obtain ⟨hblank, ⟨hquote, hapostrophe⟩, hcomment⟩ := h
  unfold lexeme
  dsimp only
  rw [if_neg (by simp [hblank])]
  split
  case h_1 => exact absurd rfl (hcomment rfl).1
  case h_2 => exact absurd rfl (hcomment rfl).2
  case h_3 | h_4 => exact absurd rfl hquote
  case h_5 => exact absurd rfl hapostrophe
  case h_6 =>
    split
    · rfl
    · split
      · rfl
      · cases longSigns.find? (·.isPrefixOf (x :: rest)) <;> rfl

theorem lexeme_plain_of_border (hc : isBorder c = true) (h : MayStandFor c' c)
    {x : Char} (hx : OpensNothing x (u ++ c :: v))
    (hx' : OpensNothing x (u ++ c' :: w))
    (hle : (lexeme (x :: (u ++ c :: v))).2 ≤ u.length + 1) :
    lexeme (x :: (u ++ c' :: w)) = lexeme (x :: (u ++ c :: v)) := by
  have outside := standsOutside_of_isBorder hc
  have outside' := standsOutside_of_isBorder (h.isBorder hc)
  have hhead : (u ++ c' :: w).head?.any Char.isDigit =
      (u ++ c :: v).head?.any Char.isDigit := by
    cases u with
    | nil => simp [outside.noDigit, outside'.noDigit]
    | cons y u => rfl
  have hfind : longSigns.find? (·.isPrefixOf (x :: (u ++ c' :: w))) =
      longSigns.find? (·.isPrefixOf (x :: (u ++ c :: v))) :=
    find?_isPrefixOf_of_border (u := x :: u) outside.noSign outside'.noSign
  have hword := takeWhile_of_end (u := u) (v := v) (continuesWord_of_isBorder hc)
  have hword' :=
    takeWhile_of_end (u := u) (v := w) (continuesWord_of_isBorder (h.isBorder hc))
  have hnumber := numberLength_of_border (u := u) (v := v) (w := w) hc h
    (hasBaseMark (x :: (u ++ c :: v))) false
  rw [hx.lexeme_eq] at hle ⊢
  rw [hx'.lexeme_eq, hhead, hasBaseMark_of_border hc h (v := v), hnumber, hword,
    hword', hfind]
  -- a number, a word or a sign: each of them ends at the border or before it
  by_cases hstarts :
    (x.isDigit || (x == '.' && (u ++ c :: v).head?.any Char.isDigit)) = true
  · rw [if_pos hstarts] at hle
    rw [if_pos hstarts, if_pos hstarts]
    have htake : ∀ {n : Nat} (t : Text), n ≤ u.length + 1 →
        (x :: (u ++ t)).take n = (x :: u).take n := by
      intro n t hn
      rw [← List.cons_append, List.take_append_of_le_length hn]
    rw [htake _ hle, htake _ hle]
  · rw [if_neg hstarts, if_neg hstarts]
    split
    · by_cases hnon : x :: u.takeWhile Char.continuesWord = ("non" : Text)
      · have hlength : 2 ≤ u.length := by
          have htwo : (u.takeWhile Char.continuesWord).length = 2 := by
            simpa using congrArg List.length hnon
          have hwithin := (List.takeWhile_prefix (l := u) Char.continuesWord).length_le
          omega
        rw [List.drop_append_of_le_length hlength,
          List.drop_append_of_le_length hlength,
          isPrefixOf_of_border outside.noSealed outside'.noSealed]
      · rw [decide_eq_false hnon, Bool.false_and, Bool.false_and]
    · rfl

theorem lexeme_quote_of_border (hc : isBorder c = true) (h : MayStandFor c' c)
    (hle : (lexeme ('"' :: (u ++ c :: v))).2 ≤ u.length + 1) :
    lexeme ('"' :: (u ++ c' :: w)) = lexeme ('"' :: (u ++ c :: v)) := by
  have hquote : ∀ {c : Char}, isBorder c = true → c ≠ '"' :=
    fun hc => (standsOutside_of_isBorder hc).noQuote
  by_cases hblock : ∃ more, u = '"' :: '"' :: more
  · obtain ⟨more, rfl⟩ := hblock
    have hlexeme : ∀ t : Text, lexeme ('"' :: ('"' :: '"' :: more ++ t)) =
        (.token .string, textBlockLength false (more ++ t) + 3) := fun _ => rfl
    rw [hlexeme] at hle
    rw [hlexeme, hlexeme, textBlockLength_of_border hc h]
    simpa using hle
  · have hnone : ∀ {c : Char} {t : Text}, isBorder c = true →
        ∀ more, u ++ c :: t ≠ '"' :: '"' :: more := by
      intro c t hc more heq
      rcases u with _ | ⟨y, _ | ⟨z, u⟩⟩
      · exact hquote hc (List.cons.inj heq).1
      · exact hquote hc (List.cons.inj (List.cons.inj heq).2).1
      · obtain ⟨hy, htail⟩ := List.cons.inj heq
        exact hblock ⟨u, by rw [hy, (List.cons.inj htail).1]⟩
    rw [lexeme_quote (hnone hc), Nat.add_le_add_iff_right] at hle
    rw [lexeme_quote (hnone hc), lexeme_quote (hnone (h.isBorder hc)),
      literalLength_of_border _ _ hle]

theorem lexeme_comment_of_border (hc : isBorder c = true) (h : MayStandFor c' c)
    (hcomment : (u ++ c :: v).head? = some '/' ∨ (u ++ c :: v).head? = some '*')
    (hle : (lexeme ('/' :: (u ++ c :: v))).2 ≤ u.length + 1) :
    lexeme ('/' :: (u ++ c' :: w)) = lexeme ('/' :: (u ++ c :: v)) := by
  have hline : ∀ t : Text, lexeme ('/' :: '/' :: t) =
      (.lineComment, (t.takeWhile (· != '\n')).length + 2) := fun _ => rfl
  have hblock : ∀ t : Text,
      lexeme ('/' :: '*' :: t) = (.blockComment, blockCommentLength t + 2) :=
    fun _ => rfl
  cases u with
  | nil =>
    simp only [List.nil_append, List.head?_cons, Option.some.injEq] at hcomment
    rcases hcomment with rfl | rfl
    · rw [List.nil_append, hline] at hle
      simp at hle
    · exact absurd rfl (standsOutside_of_isBorder hc).noStar
  | cons y u =>
    simp only [List.cons_append, List.head?_cons, Option.some.injEq,
      List.length_cons] at hcomment hle ⊢
    rcases hcomment with rfl | rfl
    · rw [hline] at hle
      rw [hline, hline, lineLength_of_border h (by simpa using hle)]
    · rw [hblock] at hle
      rw [hblock, hblock, blockCommentLength_of_border hc h (by simpa using hle)]

/-- **A lexeme that ends in front of a border** does not change with what
follows there. -/
theorem lexeme_of_border (hc : isBorder c = true) (h : MayStandFor c' c)
    (hne : u ≠ []) (hle : (lexeme (u ++ c :: v)).2 ≤ u.length) :
    lexeme (u ++ c' :: w) = lexeme (u ++ c :: v) := by
  obtain ⟨x, u, rfl⟩ := List.exists_cons_of_ne_nil hne
  simp only [List.cons_append, List.length_cons] at hle ⊢
  -- by the first character, as the reader goes
  by_cases hblank : Char.isBlank x = true
  · rw [lexeme_blank hblank, lexeme_blank hblank]
  by_cases hquote : x = '"'
  · exact hquote ▸ lexeme_quote_of_border hc h (hquote ▸ hle)
  by_cases hapostrophe : x = '\''
  · subst hapostrophe
    have hlexeme : ∀ t : Text,
        lexeme ('\'' :: t) = (.token .character, literalLength '\'' false t + 1) :=
      fun _ => rfl
    rw [hlexeme, Nat.add_le_add_iff_right] at hle
    rw [hlexeme, hlexeme, literalLength_of_border _ _ hle]
  by_cases hcomment : x = '/' ∧
    ((u ++ c :: v).head? = some '/' ∨ (u ++ c :: v).head? = some '*')
  · obtain ⟨rfl, hcomment⟩ := hcomment
    exact lexeme_comment_of_border hc h hcomment hle
  · have hplain : OpensNothing x (u ++ c :: v) := by
      refine ⟨Bool.not_eq_true _ ▸ hblank, ⟨hquote, hapostrophe⟩, fun hslash => ?_⟩
      rw [← not_or]
      exact fun hopens => hcomment ⟨hslash, hopens⟩
    have hplain' : OpensNothing x (u ++ c' :: w) := by
      refine ⟨hplain.noBlank, hplain.noQuote, fun hslash => ?_⟩
      have hnone := hplain.noComment hslash
      cases u with
      | cons y u => exact hnone
      | nil =>
        simp only [List.nil_append, List.head?_cons, ne_eq,
          Option.some.injEq] at hnone ⊢
        rcases h with rfl | ⟨rfl, -⟩
        · exact hnone
        · decide
    exact lexeme_plain_of_border hc h hplain hplain' hle

end

end Graft.Java
