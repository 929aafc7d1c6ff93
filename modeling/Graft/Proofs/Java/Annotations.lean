import Graft.Code.Stamp
import Graft.Java.Phrase
import Graft.Proofs.Code.Literals
import Graft.Proofs.Java.Brackets
import Graft.Proofs.Java.Lexemes
import Graft.Proofs.Text.Slice
import Graft.Proofs.Text.Trim

/-!
# Annotations in front of a declaration

A run of annotations with nothing but blanks between and behind them
(`Annotations`), as a text in front of what follows it. Names are dotted words,
and arguments hold their brackets in pairs (`Balanced`), with quotes and
parentheses only where both a reader of tokens and one of characters take them
alike (`Inert`). Its tokens become trees from which the modifiers of a
declaration are read: first the annotations of the run, one by one, then what
follows (`Annotations.gives`).
-/

namespace Graft.Java

open Code (inAnnotationName fitsBetween)

/-! ## The texts -/

/-- A text whose quotes enclose literals, with parentheses nowhere else. -/
inductive Inert : Text → Prop
  | nil : Inert []
  | char {c : Char} {rest : Text} (plain : c ≠ '"' ∧ c ≠ '\'' ∧ c ≠ '(' ∧ c ≠ ')')
      (more : Inert rest) : Inert (c :: rest)
  | literal {quote : Char} {body rest : Text} (quotes : quote = '"' ∨ quote = '\'')
      (fits : fitsBetween quote false body = true) (more : Inert rest) :
      Inert (quote :: (body ++ quote :: rest))

/-- The brackets, in pairs. -/
def bracketPairs : List (Char × Char) := [('(', ')'), ('[', ']'), ('\x7b', '\x7d')]

/-- Whether a text is a bracket. -/
def isBracket (t : Text) : Bool :=
  bracketPairs.any fun (left, right) => t = [left] || t = [right]

/-- What stands between brackets, in front of what follows it: lexemes, and
brackets in pairs. -/
inductive Balanced : (inside behind : Text) → Prop
  | nil (behind : Text) : Balanced [] behind
  | piece {kind : LexemeKind} {piece more behind : Text}
      (read : IsLexeme kind piece (more ++ behind))
      (noBracket : isBracket piece = false) (inert : Inert piece)
      (rest : Balanced more behind) : Balanced (piece ++ more) behind
  | group {left right : Char} {inside more behind : Text}
      (pair : (left, right) ∈ bracketPairs)
      (within : Balanced inside (right :: (more ++ behind)))
      (rest : Balanced more behind) :
      Balanced (left :: (inside ++ right :: more)) behind

/-- The name of an annotation, in front of what follows it: words with dots
between them. -/
inductive AnnotationName : (name behind : Text) → Prop
  | word {word behind : Text} (read : IsLexeme (.token .word) word behind)
      (inName : word.all inAnnotationName = true) : AnnotationName word behind
  | dotted {word name behind : Text}
      (read : IsLexeme (.token .word) word ('.' :: (name ++ behind)))
      (inName : word.all inAnnotationName = true)
      (dot : IsLexeme (.token .sign) ['.'] (name ++ behind))
      (more : AnnotationName name behind) :
      AnnotationName (word ++ '.' :: name) behind

/-- A run of annotations in front of what follows it, with blanks between them
and behind the last one, and the last parts of their names. -/
inductive Annotations (behind : Text) : Text → List Text → Prop
  | nil : Annotations behind [] []
  | bare {name blanks more : Text} {names : List Text}
      (sign : IsLexeme (.token .sign) ['@'] (name ++ (blanks ++ (more ++ behind))))
      (named : AnnotationName name (blanks ++ (more ++ behind)))
      (ends : ∀ c ∈ (blanks ++ (more ++ behind)).head?, inAnnotationName c = false)
      (blank : Text.isBlank blanks = true) (rest : Annotations behind more names) :
      Annotations behind ('@' :: (name ++ (blanks ++ more)))
        (Text.lastSegment name :: names)
  | withArguments {name before inside blanks more : Text} {names : List Text}
      (sign : IsLexeme (.token .sign) ['@']
        (name ++ (before ++ '(' :: (inside ++ ')' :: (blanks ++ (more ++ behind))))))
      (named : AnnotationName name
        (before ++ '(' :: (inside ++ ')' :: (blanks ++ (more ++ behind)))))
      (blankBefore : Text.isBlank before = true)
      (arguments : Balanced inside (')' :: (blanks ++ (more ++ behind))))
      (blank : Text.isBlank blanks = true) (rest : Annotations behind more names) :
      Annotations behind
        ('@' :: (name ++ (before ++ '(' :: (inside ++ ')' :: (blanks ++ more)))))
        (Text.lastSegment name :: names)

theorem Annotations.length_le {behind front : Text} {names : List Text}
    (h : Annotations behind front names) : names.length ≤ front.length := by
  induction h with
  | nil => exact Nat.le_refl _
  | bare _ _ _ _ _ ih | withArguments _ _ _ _ _ _ ih =>
    simp only [List.length_cons, List.length_append]
    omega

/-! ## Tokens and brackets -/

theorem isLexeme_bracket {c : Char} (h : isBracket [c] = true) (behind : Text) :
    IsLexeme (.token .sign) [c] behind := by
  refine ⟨List.cons_ne_nil c [], ?_⟩
  have hc : c = '(' ∨ c = ')' ∨ c = '[' ∨ c = ']' ∨ c = '\x7b' ∨ c = '\x7d' := by
    simpa [isBracket, bracketPairs, or_assoc] using h
  rcases hc with rfl | rfl | rfl | rfl | rfl | rfl <;> rfl

/-- A bracket stands alone. -/
theorem isBracket_cons {c : Char} (h : isBracket [c] = false) (rest : Text) :
    isBracket (c :: rest) = false := by
  have hc : c ≠ '(' ∧ c ≠ ')' ∧ c ≠ '[' ∧ c ≠ ']' ∧ c ≠ '\x7b' ∧ c ≠ '\x7d' := by
    simpa [isBracket, bracketPairs, and_assoc] using h
  simp [isBracket, bracketPairs, hc]

/-- What is no bracket groups nothing. -/
theorem plain_of_not_isBracket {t : Token} (h : isBracket t.text = false) :
    closingOf? t = none ∧ isClosing t = false := by
  have htext : t.text ≠ ['('] ∧ t.text ≠ [')'] ∧ t.text ≠ ['['] ∧ t.text ≠ [']'] ∧
      t.text ≠ ['\x7b'] ∧ t.text ≠ ['\x7d'] := by
    simpa [isBracket, bracketPairs, and_assoc] using h
  simp [closingOf?, isClosing, Token.isSign, htext]

theorem not_isSign {t : Token} {a b : Text} (h : t.isSign a = true) (hne : a ≠ b) :
    t.isSign b = false := by
  rw [Token.isSign, Bool.and_eq_true, beq_iff_eq, beq_iff_eq] at h
  simp [Token.isSign, h.2, hne]

theorem plain_of_word {t : Token} (h : t.kind = .word) :
    closingOf? t = none ∧ isClosing t = false := by
  simp [closingOf?, isClosing, Token.isSign, h]

/-- The tokens of a pair of brackets fit each other. -/
theorem fits_of_pair {left right : Char} (h : (left, right) ∈ bracketPairs)
    {l r : Token} (hl : l.kind = .sign ∧ l.text = [left])
    (hr : r.kind = .sign ∧ r.text = [right]) :
    closingOf? l = some r.text ∧ closingOf? r = none ∧ isClosing r = true := by
  simp only [bracketPairs, List.mem_cons, Prod.mk.injEq, List.not_mem_nil,
    or_false] at h
  simp only [closingOf?, isClosing, Token.isSign, hl, hr]
  rcases h with ⟨rfl, rfl⟩ | ⟨rfl, rfl⟩ | ⟨rfl, rfl⟩ <;> decide

theorem isBracket_of_pair {left right : Char} (h : (left, right) ∈ bracketPairs) :
    isBracket [left] = true ∧ isBracket [right] = true := by
  simp only [bracketPairs, List.mem_cons, Prod.mk.injEq, List.not_mem_nil,
    or_false] at h
  rcases h with ⟨rfl, rfl⟩ | ⟨rfl, rfl⟩ | ⟨rfl, rfl⟩ <;> decide

/-- Whether a character is neither a quote nor a bracket. -/
def isPlainChar (c : Char) : Bool := c != '"' && c != '\'' && !isBracket [c]

theorem inert_of_plain {t : Text} (h : t.all isPlainChar = true) : Inert t := by
  induction t with
  | nil => exact .nil
  | cons c t ih =>
    rw [List.all_cons, Bool.and_eq_true] at h
    obtain ⟨hc, hmore⟩ := h
    rw [isPlainChar, Bool.and_eq_true, Bool.and_eq_true, bne_iff_ne, bne_iff_ne] at hc
    refine .char ⟨hc.1.1, hc.1.2, ?_, ?_⟩ (ih hmore) <;> rintro rfl <;> cases hc.2

/-- A lexeme without quotes and brackets stands between brackets as it is. -/
theorem Balanced.plain {kind : LexemeKind} {piece more behind : Text}
    (read : IsLexeme kind piece (more ++ behind))
    (hplain : piece.all isPlainChar = true) (rest : Balanced more behind) :
    Balanced (piece ++ more) behind := by
  have hbracket : isBracket piece = false := by
    obtain ⟨c, u, rfl⟩ := List.exists_cons_of_ne_nil read.1
    rw [List.all_cons, isPlainChar, Bool.and_eq_true, Bool.and_eq_true,
      Bool.not_eq_true'] at hplain
    exact isBracket_cons hplain.1.2 u
  exact .piece read hbracket (inert_of_plain hplain) rest

/-- One bracketed token, or none. -/
theorem LexemeKind.bracketed_tokens {kind : LexemeKind} {piece : Text}
    (h : isBracket piece = false) (position line : Nat) (doc : Option Span) :
    ∃ trees, Bracketed (kind.tokens piece position line doc) trees := by
  cases kind with
  | blank | lineComment | blockComment => exact ⟨[], .nil⟩
  | token kind =>
    have hplain := plain_of_not_isBracket (t := ⟨kind, piece, position, line, doc⟩) h
    exact ⟨_, .leaf hplain.1 hplain.2 .nil⟩

/-- A text in brackets becomes one group, around the trees that
the text becomes. -/
theorem gives_group_holding {left right : Char} (pair : (left, right) ∈ bracketPairs)
    {position : Nat} {inside behind : Text} {holds : List Tree → Prop}
    (h : Gives (position + 1) inside (right :: behind) fun tokens =>
      ∃ trees, Bracketed tokens trees ∧ holds trees) :
    Gives position (left :: (inside ++ [right])) behind fun tokens =>
      ∃ l inner r, Bracketed tokens [.group l inner r] ∧ l.kind = .sign ∧
        l.text = [left] ∧ holds inner := by
  obtain ⟨hleft, hright⟩ := isBracket_of_pair pair
  have hopen : IsLexeme (.token .sign) [left] (inside ++ [right] ++ behind) :=
    isLexeme_bracket hleft _
  have hclose : IsLexeme (.token .sign) [right] behind := isLexeme_bracket hright _
  have hinside : Gives (position + 1) (inside ++ [right]) behind fun tokens =>
      ∃ within trees r, tokens = within ++ [r] ∧ Bracketed within trees ∧ holds trees ∧
        r.kind = .sign ∧ r.text = [right] := by
    refine Gives.append h (.lexeme hclose _) ?_
    rintro tokens _ ⟨trees, htrees, hholds⟩ ⟨line, doc, rfl⟩
    exact ⟨tokens, trees, _, rfl, htrees, hholds, rfl, rfl⟩
  show Gives position ([left] ++ (inside ++ [right])) behind _
  refine Gives.append (.lexeme hopen position) hinside ?_
  rintro _ _ ⟨line, doc, rfl⟩ ⟨within, trees, r, rfl, htrees, hholds, hkind, htext⟩
  obtain ⟨hfits, hopensNone, hcloses⟩ := fits_of_pair pair
    (l := ⟨.sign, [left], position, line, doc⟩) ⟨rfl, rfl⟩ ⟨hkind, htext⟩
  exact ⟨_, trees, r, .group hfits hopensNone hcloses htrees .nil, rfl, rfl, hholds⟩

theorem gives_group {left right : Char} (pair : (left, right) ∈ bracketPairs)
    {position : Nat} {inside behind : Text}
    (h : Gives (position + 1) inside (right :: behind) fun tokens =>
      ∃ trees, Bracketed tokens trees) :
    Gives position (left :: (inside ++ [right])) behind fun tokens =>
      ∃ l inner r, Bracketed tokens [.group l inner r] ∧ l.kind = .sign ∧
        l.text = [left] := by
  have htrees : Gives (position + 1) inside (right :: behind) fun tokens =>
      ∃ trees, Bracketed tokens trees ∧ True :=
    h.mono fun _ ⟨trees, htrees⟩ => ⟨trees, htrees, trivial⟩
  refine (gives_group_holding pair htrees).mono ?_
  rintro tokens ⟨l, inner, r, hgroup, hkind, htext, -⟩
  exact ⟨l, inner, r, hgroup, hkind, htext⟩

/-- What stands between brackets is grouped. -/
theorem Balanced.gives {inside behind : Text} (h : Balanced inside behind)
    (position : Nat) :
    Gives position inside behind fun tokens => ∃ trees, Bracketed tokens trees := by
  induction h generalizing position with
  | nil behind => exact .nil position behind ⟨[], .nil⟩
  | piece read noBracket _ _ ih =>
    refine Gives.append (.lexeme read position) (ih _) ?_
    rintro _ tokens ⟨line, doc, rfl⟩ ⟨trees, htrees⟩
    obtain ⟨first, hfirst⟩ := LexemeKind.bracketed_tokens noBracket position line doc
    exact ⟨first ++ trees, hfirst.append htrees⟩
  | @group left right inside more behind pair _ _ ihWithin ihRest =>
    have hparts : left :: (inside ++ right :: more) =
        left :: (inside ++ [right]) ++ more := by simp
    rw [hparts]
    refine Gives.append (gives_group pair (ihWithin _)) (ihRest _) ?_
    rintro tokens tokens' ⟨l, inner, r, hgroup, -, -⟩ ⟨trees, htrees⟩
    exact ⟨_, hgroup.append htrees⟩

/-! ## Names -/

/-- The trees do not go on with a dotted name. -/
def EndName (trees : List Tree) : Prop :=
  ∀ t rest, trees = .leaf t :: rest → t.isSign "." = false

theorem dottedTail_of_endName {trees : List Tree} (h : EndName trees) (last : Token) :
    dottedTail last trees = (last, trees) := by
  rw [dottedTail.eq_def]
  split
  · next dot w rest =>
    rw [h dot (.leaf w :: rest) rfl]
    rfl
  · rfl

/-- A tree that belongs to the item of what follows it. -/
def Tree.Passes (t : Tree) : Prop :=
  t.isSign ";" = false ∧ t.isBlock = false ∧ t.isStray = false

theorem passes_leaf {t : Token} (h : t.isSign ";" = false) :
    (Tree.leaf t).Passes := ⟨h, rfl, rfl⟩

/-- The trees of a dotted name are passed over to its end. -/
structure AreName (position : Nat) (name : Text) (w : Token)
    (tail : List Tree) : Prop where
  word : w.kind = .word
  start : w.start = position
  passes : ∀ t ∈ tail, t.Passes
  ends : ∃ last : Token, last.stop = position + name.length ∧
    ∀ rest, EndName rest → dottedTail w (tail ++ rest) = (last, rest)

theorem AnnotationName.gives {name behind : Text} (h : AnnotationName name behind)
    (position : Nat) :
    Gives position name behind fun tokens =>
      ∃ w tail, Bracketed tokens (.leaf w :: tail) ∧ AreName position name w tail := by
  -- a word, or a word, a dot and what the rest of the name gives
  induction h generalizing position with
  | @word word behind read _ =>
    refine (Gives.lexeme read position).mono ?_
    rintro _ ⟨line, doc, rfl⟩
    have hplain := plain_of_word (t := ⟨.word, word, position, line, doc⟩) rfl
    refine ⟨_, [], .leaf hplain.1 hplain.2 .nil, rfl, rfl, List.forall_mem_nil _, ?_⟩
    exact ⟨⟨.word, word, position, line, doc⟩, rfl,
      fun rest hrest => dottedTail_of_endName hrest _⟩
  | @dotted word name behind read _ dot _ ih =>
    have hmore := (Gives.lexeme dot (position + word.length)).followed (ih _)
    refine Gives.append (.lexeme read position) hmore ?_
    rintro _ _ ⟨line, doc, rfl⟩
      ⟨_, tokens, rfl, ⟨line', doc', rfl⟩, w, tail, htrees, hname⟩
    have hfirst := plain_of_word (t := ⟨.word, word, position, line, doc⟩) rfl
    have hdot := plain_of_not_isBracket
      (t := ⟨.sign, ['.'], position + word.length, line', doc'⟩)
      rfl
    obtain ⟨last, hlast, hends⟩ := hname.ends
    have hpasses : ∀ t ∈ Tree.leaf w :: tail, t.Passes :=
      List.forall_mem_cons.mpr
        ⟨passes_leaf (by simp [Token.isSign, hname.word]), hname.passes⟩
    refine ⟨_, _, .leaf hfirst.1 hfirst.2 (.leaf hdot.1 hdot.2 htrees), rfl, rfl,
      List.forall_mem_cons.mpr
        ⟨passes_leaf (by simp [Token.isSign]), hpasses⟩, last, ?_, ?_⟩
    · simp only [List.length_append, List.length_cons, List.length_nil] at hlast ⊢
      omega
    · intro rest hrest
      rw [List.cons_append, List.cons_append, dottedTail]
      simp [Token.isSign, hname.word, hends rest hrest]

/-! ## Names hold no blanks -/

/-- The code points of the blanks above ASCII. -/
def wideBlanks : List Nat :=
  [0x85, 0xA0, 0x1680, 0x2000, 0x2001, 0x2002, 0x2003, 0x2004, 0x2005, 0x2006, 0x2007,
    0x2008, 0x2009, 0x200A, 0x2028, 0x2029, 0x202F, 0x205F, 0x3000]

theorem isBlank_cases {c : Char} (h : Char.isBlank c = true) :
    c.toNat ∈ [9, 10, 11, 12, 13, 32] ∨ c.toNat ∈ wideBlanks := by
  simp only [Char.isBlank, Bool.or_eq_true, Bool.and_eq_true, decide_eq_true_eq,
    beq_iff_eq] at h
  simp only [wideBlanks, List.mem_cons, List.not_mem_nil, or_false]
  omega

/-- No range of letters and numbers holds a blank. -/
theorem wideBlanks_are_apart : (wideBlanks.all fun n =>
    (Text.Table.alphabetic.toList ++ Text.Table.numeric.toList).all fun r =>
      !(r.1 ≤ n && n ≤ r.2)) = true := by
  decide +kernel

theorem isLetterOrNumber_of_wide {c : Char} (h : c.toNat ∈ wideBlanks) :
    Char.isLetterOrNumber c = false := by
  have hwide : ∀ n ∈ wideBlanks, ¬ n < 128 := by decide
  rw [Char.isLetterOrNumber, Char.ofClass, if_neg (hwide _ h), Char.inRanges,
    ← Array.any_toList, Array.toList_append, List.any_eq_false]
  intro r hr
  have hapart := List.all_eq_true.mp (List.all_eq_true.mp wideBlanks_are_apart _ h) r hr
  rw [Bool.not_eq_true'] at hapart
  exact Bool.eq_false_iff.mp hapart

theorem not_isBlank_of_inAnnotationName {c : Char} (h : inAnnotationName c = true) :
    Char.isBlank c = false := by
  rw [← Bool.not_eq_true]
  intro hblank
  rcases isBlank_cases hblank with hascii | hwide
  · have hnone : ∀ n ∈ [9, 10, 11, 12, 13, 32],
        inAnnotationName (Char.ofNat n) = false := by
      decide +kernel
    have hc := hnone _ hascii
    rw [Char.ofNat_toNat, h] at hc
    cases hc
  · have hsigns : ∀ n ∈ wideBlanks,
        n ≠ '_'.toNat ∧ n ≠ '$'.toNat ∧ n ≠ '.'.toNat := by decide
    obtain ⟨hunderscore, hdollar, hdot⟩ := hsigns _ hwide
    rw [inAnnotationName, isLetterOrNumber_of_wide hwide] at h
    simp only [Bool.false_or, Bool.or_eq_true, beq_iff_eq] at h
    rcases h with (rfl | rfl) | rfl <;> contradiction

theorem AnnotationName.inName {name behind : Text} (h : AnnotationName name behind) :
    ∀ c ∈ name, inAnnotationName c = true := by
  have hdot : inAnnotationName '.' = true := by decide
  induction h with
  | word _ inName => exact List.all_eq_true.mp inName
  | dotted _ inName _ _ ih =>
    exact List.forall_mem_append.mpr
      ⟨List.all_eq_true.mp inName, List.forall_mem_cons.mpr ⟨hdot, ih⟩⟩

theorem AnnotationName.compact_eq {name behind : Text}
    (h : AnnotationName name behind) :
    Text.compact name = name := by
  rw [Text.compact, List.filter_eq_self]
  intro c hc
  rw [not_isBlank_of_inAnnotationName (h.inName c hc)]
  rfl

/-! ## Reading the annotations -/

theorem isPrefix_drop_append {a b source : Text} {position : Nat}
    (h : a ++ b <+: source.drop position) :
    a <+: source.drop position ∧ b <+: source.drop (position + a.length) := by
  obtain ⟨c, hc⟩ := h
  refine ⟨⟨b ++ c, by rw [← List.append_assoc, hc]⟩, c, ?_⟩
  rw [← List.drop_drop, ← hc, List.append_assoc, List.drop_left]

theorem slice_of_isPrefix_drop {t source : Text} {position : Nat}
    (h : t <+: source.drop position) :
    source.slice position (position + t.length) = t := by
  rw [Text.slice, List.drop_take, Nat.add_sub_cancel_left]
  exact (List.prefix_iff_eq_take.mp h).symm

/-- What may follow annotations among the trees: something that does not go on
with the name of the last one, and is no arguments of it. -/
def EndAnnotations (trees : List Tree) : Prop :=
  ∃ t rest, trees = .leaf t :: rest ∧ t.isSign "." = false

/-- The trees of annotations are read one by one, and what follows them is read
as it stands. -/
structure AreAnnotations (position : Nat) (text : Text) (names : List Text)
    (trees : List Tree) :
    Prop where
  passes : ∀ t ∈ trees, t.Passes
  length : names.length ≤ trees.length
  ends : ∀ rest, EndAnnotations rest → EndAnnotations (trees ++ rest)
  read : ∀ (source : Text) (n : Nat) (rest : List Tree), text <+: source.drop position →
    EndAnnotations rest →
    ∃ annotations, annotations.map AnnotationUse.simpleName = names ∧
      (readModifiers source (names.length + (n + 1)) (trees ++ rest)).1.annotations =
        annotations ++ (readModifiers source (n + 1) rest).1.annotations

/-- Arguments of an annotation among the trees, or none. -/
def AreArguments (trees : List Tree) : Prop :=
  trees = [] ∨ ∃ left inner right, trees = [.group left inner right] ∧
    left.isSign "(" = true

/-- An annotation is read up to its arguments, under its name. -/
theorem exists_readAnnotationUse? {name : Text} {position : Nat} {sign w : Token}
    {tail arguments rest : List Tree} (hsign : sign.isSign "@" = true)
    (hname : AreName position name w tail) (harguments : AreArguments arguments)
    (hrest : EndAnnotations rest) (source : Text) (n : Nat) :
    ∃ a, readAnnotationUse? source (n + 1)
        (.leaf sign :: .leaf w :: (tail ++ (arguments ++ rest))) = some (a, rest) ∧
      a.name = Text.compact (source.slice position (position + name.length)) := by
  obtain ⟨last, hlast, hends⟩ := hname.ends
  obtain ⟨t, more, rfl, ht⟩ := hrest
  have hspelled : spelled source w last =
      source.slice position (position + name.length) := by
    rw [← hlast, ← hname.start]
    rfl
  -- without arguments the name must end there, with arguments their parenthesis
  -- ends it
  rcases harguments with rfl | ⟨left, inner, right, rfl, hleft⟩
  · have hend : EndName (.leaf t :: more) := by
      rintro _ _ heq
      cases heq
      exact ht
    refine ⟨.mk (Text.compact (spelled source w last)) .marker
      (Span.between sign last), ?_, congrArg Text.compact hspelled⟩
    rw [List.nil_append, readAnnotationUse?, hsign, hends _ hend]
    simp [hname.word]
  · have hend : EndName (.group left inner right :: .leaf t :: more) := by
      rintro _ _ heq
      cases heq
    refine ⟨.mk (Text.compact (spelled source w last)) (readArguments source n inner)
      (Span.between sign right), ?_, congrArg Text.compact hspelled⟩
    rw [List.singleton_append, readAnnotationUse?, hsign, hends _ hend]
    simpa [hname.word] using hleft

theorem readModifiers_annotation {source : Text} {n : Nat} {sign : Token}
    {a : AnnotationUse} {trees rest : List Tree} (hsign : sign.isSign "@" = true)
    (h : readAnnotationUse? source n (.leaf sign :: trees) = some (a, rest)) :
    (readModifiers source (n + 1) (.leaf sign :: trees)).1.annotations =
      a :: (readModifiers source n rest).1.annotations := by
  have hkind : sign.kind = .sign := by
    rw [Token.isSign, Bool.and_eq_true] at hsign
    exact eq_of_beq hsign.1
  rw [readModifiers, hkind, h]
  rfl

namespace AreAnnotations

theorem nil (position : Nat) : AreAnnotations position [] [] [] where
  passes := List.forall_mem_nil _
  length := Nat.le_refl _
  ends := fun _ h => h
  read := fun _ n rest _ _ =>
    ⟨[], rfl, by rw [List.nil_append, List.nil_append, List.length_nil, Nat.zero_add]⟩

/-- One more annotation in front of the others. -/
theorem cons {position : Nat} {name between more : Text} {names : List Text}
    {sign w : Token} {tail arguments trees : List Tree}
    (hsign : sign.isSign "@" = true) (hname : AreName (position + 1) name w tail)
    (hcompact : Text.compact name = name) (harguments : AreArguments arguments)
    (h : AreAnnotations (position + 1 + name.length + between.length) more
      names trees) :
    AreAnnotations position ('@' :: (name ++ (between ++ more)))
      (Text.lastSegment name :: names)
      (.leaf sign :: .leaf w :: (tail ++ (arguments ++ trees))) where
  passes := by
    have hsign' : (Tree.leaf sign).Passes := passes_leaf (not_isSign hsign (by decide))
    have hword : (Tree.leaf w).Passes :=
      passes_leaf (by simp [Token.isSign, hname.word])
    refine List.forall_mem_cons.mpr ⟨hsign', List.forall_mem_cons.mpr ⟨hword, ?_⟩⟩
    refine List.forall_mem_append.mpr
      ⟨hname.passes, List.forall_mem_append.mpr ⟨?_, h.passes⟩⟩
    rcases harguments with rfl | ⟨left, inner, right, rfl, hleft⟩
    · exact List.forall_mem_nil _
    · exact List.forall_mem_singleton.mpr ⟨rfl, not_isSign hleft (by decide), rfl⟩
  length := by
    have := h.length
    simp only [List.length_cons, List.length_append]
    omega
  ends := fun rest _ => ⟨sign, _, rfl, not_isSign hsign (by decide)⟩
  read := by
    intro source n rest htext hrest
    have htext' := isPrefix_drop_append (a := ['@']) htext
    have hrestText := isPrefix_drop_append htext'.2
    have hmore := (isPrefix_drop_append hrestText.2).2
    obtain ⟨annotations, hnames, hread⟩ := h.read source n rest hmore hrest
    obtain ⟨a, ha, hname'⟩ :=
      exists_readAnnotationUse? hsign hname harguments (h.ends rest hrest) source
        (names.length + n)
    have hslice : source.slice (position + 1) (position + 1 + name.length) = name :=
      slice_of_isPrefix_drop hrestText.1
    refine ⟨a :: annotations, ?_, ?_⟩
    · rw [List.map_cons, hnames, AnnotationUse.simpleName, hname', hslice, hcompact]
    -- one step of the reader is for the annotation, the others are for the rest
    · have hfuel : (Text.lastSegment name :: names).length + (n + 1) =
          names.length + n + 1 + 1 := by
        simp only [List.length_cons]
        omega
      have htrees : .leaf sign :: .leaf w :: (tail ++ (arguments ++ trees)) ++ rest =
          .leaf sign :: .leaf w :: (tail ++ (arguments ++ (trees ++ rest))) := by simp
      rw [hfuel, htrees, readModifiers_annotation hsign ha, Nat.add_assoc, hread]
      rfl

end AreAnnotations

/-- **Annotations are read one by one.** -/
theorem Annotations.gives {behind text : Text} {names : List Text}
    (h : Annotations behind text names) (position : Nat) :
    Gives position text behind fun tokens =>
      ∃ trees, Bracketed tokens trees ∧ AreAnnotations position text names trees := by
  -- the tokens of the first annotation, and behind its blanks those of the
  -- others
  induction h generalizing position with
  | nil => exact .nil position behind ⟨[], .nil, .nil position⟩
  | @bare name blanks more names sign named _ blank _ ih =>
    have hmore := Gives.skip (Code.filler_of_blank blank)
      (ih (position + 1 + name.length + blanks.length))
    have hnamed : Gives (position + 1) name (blanks ++ more ++ behind) fun tokens =>
        ∃ w tail, Bracketed tokens (.leaf w :: tail) ∧
          AreName (position + 1) name w tail := by
      rw [List.append_assoc]
      exact named.gives _
    have hsign : IsLexeme (.token .sign) ['@']
        (name ++ (blanks ++ more) ++ behind) := by
      simpa using sign
    show Gives position (['@'] ++ (name ++ (blanks ++ more))) behind _
    refine Gives.append (.lexeme hsign position) (hnamed.followed hmore) ?_
    rintro _ _ ⟨line, doc, rfl⟩ ⟨_, _, rfl, ⟨w, tail, hw, hname⟩, trees, htrees, hread⟩
    have hplain := plain_of_not_isBracket (t := ⟨.sign, ['@'], position, line, doc⟩) rfl
    exact ⟨_, .leaf hplain.1 hplain.2 (hw.append htrees),
      hread.cons rfl hname named.compact_eq (.inl rfl)⟩
  | @withArguments name before inside blanks more names sign named blankBefore
      arguments blank _ ih =>
    let group : Text := '(' :: (inside ++ [')'])
    let between : Text := before ++ (group ++ blanks)
    have htext : '@' ::
        (name ++ (before ++ '(' :: (inside ++ ')' :: (blanks ++ more)))) =
        ['@'] ++ (name ++ (before ++ (group ++ (blanks ++ more)))) := by
      simp [group]
    have hbetween : before ++ (group ++ (blanks ++ more)) = between ++ more := by
      simp [between]
    have hmore := Gives.skip (Code.filler_of_blank blank)
      (ih (position + 1 + name.length + before.length + group.length + blanks.length))
    have hgroup : Gives (position + 1 + name.length + before.length) group
        (blanks ++ more ++ behind) fun tokens =>
          ∃ l inner r, Bracketed tokens [.group l inner r] ∧ l.kind = .sign ∧
            l.text = ['('] := by
      refine gives_group (by decide) ?_
      rw [List.append_assoc]
      exact arguments.gives _
    have hbehind :=
      Gives.skip (Code.filler_of_blank blankBefore) (hgroup.followed hmore)
    have hnamed : Gives (position + 1) name
        (before ++ (group ++ (blanks ++ more)) ++ behind)
        fun tokens =>
          ∃ w tail, Bracketed tokens (.leaf w :: tail) ∧
            AreName (position + 1) name w tail := by
      simpa [group] using named.gives (position + 1)
    have hsign : IsLexeme (.token .sign) ['@']
        (name ++ (before ++ (group ++ (blanks ++ more))) ++ behind) := by
      simpa [group] using sign
    rw [htext]
    refine Gives.append (.lexeme hsign position) (hnamed.followed hbehind) ?_
    rintro _ _ ⟨line, doc, rfl⟩
      ⟨_, _, rfl, ⟨w, tail, hw, hname⟩, _, _, rfl, ⟨l, inner, r, hl, hkind, hopen⟩,
        trees, htrees, hread⟩
    have hplain := plain_of_not_isBracket (t := ⟨.sign, ['@'], position, line, doc⟩) rfl
    have hleft : l.isSign "(" = true := by simp [Token.isSign, hkind, hopen]
    have hposition :
        position + 1 + name.length + before.length + group.length + blanks.length =
        position + 1 + name.length + between.length := by
      simp only [between, List.length_append]
      omega
    rw [hposition] at hread
    rw [hbetween]
    exact ⟨_, .leaf hplain.1 hplain.2 (hw.append (hl.append htrees)),
      hread.cons rfl hname named.compact_eq (.inr ⟨l, inner, r, rfl, hleft⟩)⟩

end Graft.Java
