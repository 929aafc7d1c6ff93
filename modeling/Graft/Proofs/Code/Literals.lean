import Graft.Proofs.Code.Boundaries

/-!
# Literals as they are written

A string or a character literal comes through normalization as it is written,
whatever it holds (`normalize_literal`), and so does a text block that escapes
its quotes. A bare quote in a text block ends the literal for a reader that
knows no text blocks: what stands between two of them is read as code, and its
blanks and comments go (`normalize_between_quotes`).

Literals are taken letter by letter: a Unicode escape is a backslash
and what follows it.
-/

namespace Graft.Code

/-- Whether a text can stand between two quotes: each of these quotes in it is
behind a backslash, and no backslash is left over at its end. `escaped` says
that a backslash stands in front of the text. -/
def fitsBetween (quote : Char) : (escaped : Bool) → Text → Bool
  | escaped, [] => !escaped
  | true, _ :: rest => fitsBetween quote false rest
  | false, c :: rest => c != quote && fitsBetween quote (c == '\\') rest

/-- Three quotes, which open and close a text block. -/
def blockQuotes : Text := ['"', '"', '"']

/-- Whether a text is the rest of a text block: the first three quotes in a row,
none of them behind a backslash, are its end. -/
def closesTextBlock : (escaped : Bool) → Text → Bool
  | _, [] => false
  | true, _ :: rest => closesTextBlock false rest
  | false, c :: rest =>
    if blockQuotes.isPrefixOf (c :: rest) then rest.length == 2
    else closesTextBlock (c == '\\') rest

/-- What a literal between quotes on one line looks like. -/
def IsBetween (quote : Char) (literal body : Text) : Prop :=
  literal = quote :: (body ++ [quote]) ∧ fitsBetween quote false body = true ∧
    '\n' ∉ body ∧ '\r' ∉ body

instance (quote : Char) (literal body : Text) :
    Decidable (IsBetween quote literal body) :=
  inferInstanceAs (Decidable (_ ∧ _ ∧ _ ∧ _))

/-- A complete string literal. -/
def IsString (literal : Text) : Prop := ∃ body, IsBetween '"' literal body

/-- A complete character literal, of one character or one escape. -/
def IsCharacter (literal : Text) : Prop :=
  ∃ body, IsBetween '\'' literal body ∧ (body.length = 1 ∨ body.head? = some '\\')

/-- A complete text block: behind its three quotes, blanks and a line
break come first. -/
def IsTextBlock (literal : Text) : Prop :=
  ∃ blanks lineBreak content, literal = blockQuotes ++ blanks ++ lineBreak :: content ∧
    (∀ c ∈ blanks, c = ' ' ∨ c = '\t' ∨ c = '\x0c') ∧
    (lineBreak = '\n' ∨ lineBreak = '\r') ∧
    closesTextBlock false content = true

/-- A complete literal of one of the kinds that hold text. -/
def IsLiteral (literal : Text) : Prop :=
  IsString literal ∨ IsCharacter literal ∨ IsTextBlock literal

/-- Between its quotes, a text block has no quote that is not
behind a backslash. -/
def EscapesQuotes (literal : Text) : Prop :=
  ∃ body, literal = blockQuotes ++ body ++ blockQuotes ∧
    fitsBetween '"' false body = true

/-! ## Reading literals -/

theorem reads_body {quote : Char} {escaped : Bool} {body : Text}
    (h : fitsBetween quote escaped body = true) :
    (Mode.literal quote escaped).after body = .literal quote false ∧
      (Mode.literal quote escaped).emitted body = body := by
  induction body generalizing escaped with
  | nil =>
    rw [fitsBetween, Bool.not_eq_true'] at h
    subst h
    exact ⟨rfl, rfl⟩
  | cons c rest ih =>
    have hnext : ∃ escaped', (Mode.literal quote escaped).next c =
        .literal quote escaped' ∧
        fitsBetween quote escaped' rest = true := by
      cases escaped with
      | true => exact ⟨false, rfl, h⟩
      | false =>
        rw [fitsBetween, Bool.and_eq_true, bne_iff_ne] at h
        refine ⟨c == '\\', ?_, h.2⟩
        by_cases hback : c = '\\'
        · simp [Mode.next, hback]
        · simp [Mode.next, hback, h.1]
    obtain ⟨escaped', hmode, hrest⟩ := hnext
    obtain ⟨hafter, hemitted⟩ := ih hrest
    rw [Mode.after_cons, Mode.emitted_cons, hmode, hafter, hemitted]
    exact ⟨rfl, rfl⟩

/-- Read from code, a piece of text is copied as it is, and code
goes on behind it. -/
structure IsCopied (t : Text) : Prop where
  after : Mode.code.after t = .code
  emitted : Mode.code.emitted t = t

theorem IsCopied.append {s t : Text} (hs : IsCopied s) (ht : IsCopied t) :
    IsCopied (s ++ t) where
  after := by rw [Mode.after_append, hs.after, ht.after]
  emitted := by rw [Mode.emitted_append, hs.emitted, hs.after, ht.emitted]

theorem isCopied_between {quote : Char} (hquote : quote = '"' ∨ quote = '\'')
    {body : Text} (h : fitsBetween quote false body = true) :
    IsCopied (quote :: (body ++ [quote])) := by
  obtain ⟨hafter, hemitted⟩ := reads_body h
  have hopen : Mode.code.next quote = .literal quote false ∧
      Mode.code.emit quote = [quote] := by
    rcases hquote with rfl | rfl <;> decide
  have hclose : (Mode.literal quote false).next quote = .code := by
    rcases hquote with rfl | rfl <;> rfl
  exact
    { after := by
        rw [Mode.after_cons, hopen.1, Mode.after_append, hafter,
          Mode.after_cons, hclose]
        rfl
      emitted := by
        rw [Mode.emitted_cons, hopen.1, hopen.2, Mode.emitted_append, hemitted, hafter]
        rfl }

theorem isCopied_empty : IsCopied ['"', '"'] := ⟨rfl, rfl⟩

/-- To a reader that knows no text blocks, one begins and ends with
an empty literal. -/
theorem isCopied_of_escapesQuotes {literal : Text} (h : EscapesQuotes literal) :
    IsCopied literal := by
  obtain ⟨body, rfl, hbody⟩ := h
  have hparts : blockQuotes ++ body ++ blockQuotes =
      ['"', '"'] ++ '"' :: (body ++ ['"']) ++ ['"', '"'] := by simp [blockQuotes]
  rw [hparts]
  exact (isCopied_empty.append (isCopied_between (.inl rfl) hbody)).append
    isCopied_empty

theorem IsLiteral.isCopied {literal : Text} (h : IsLiteral literal)
    (escaped : IsTextBlock literal → EscapesQuotes literal) : IsCopied literal := by
  rcases h with ⟨body, rfl, hbody, -⟩ | ⟨body, ⟨rfl, hbody, -⟩, -⟩ | hblock
  · exact isCopied_between (.inl rfl) hbody
  · exact isCopied_between (.inr rfl) hbody
  · exact isCopied_of_escapesQuotes (escaped hblock)

/-- A piece of text that is copied stands in the normalized code as it is. -/
theorem normalize_literal {p literal : Text} (boundary : AtBoundary p)
    (copied : IsCopied literal) (s : Text) :
    normalize (p ++ literal ++ s) = normalize p ++ literal ++ normalize s := by
  have hliteral : AtBoundary literal := (atBoundary_iff literal).mpr copied.after
  rw [List.append_assoc, boundary.normalize_append, hliteral.normalize_append,
    hliteral.normalize_eq, copied.emitted, List.append_assoc]

/-! ## Bare quotes in text blocks -/

/-- **Between bare quotes in a text block**, blanks and comments are
not significant. -/
theorem normalize_between_quotes {p u v w w' : Text} (boundary : AtBoundary p)
    (hu : fitsBetween '"' false u = true) (hw : Filler w) (hw' : Filler w') (s : Text) :
    normalize (p ++ (blockQuotes ++ u ++ '"' :: (w ++ v)) ++ s) =
      normalize (p ++ (blockQuotes ++ u ++ '"' :: (w' ++ v)) ++ s) := by
  have hfront : IsCopied (['"', '"'] ++ '"' :: (u ++ ['"'])) :=
    isCopied_empty.append (isCopied_between (.inl rfl) hu)
  have hread : AtBoundary (p ++ (['"', '"'] ++ '"' :: (u ++ ['"']))) := by
    rw [atBoundary_iff, Mode.after_append, (atBoundary_iff p).mp boundary, hfront.after]
  have hparts : ∀ x : Text, p ++ (blockQuotes ++ u ++ '"' :: (x ++ v)) ++ s =
      p ++ (['"', '"'] ++ '"' :: (u ++ ['"'])) ++ x ++ (v ++ s) := by
    intro x
    simp [blockQuotes]
  rw [hparts, hparts, hread.normalize_filler hw, hread.normalize_filler hw']

/-- A text block with two words between bare quotes. -/
def quotingBlock : Text := "\"\"\"\n  Say \"a b\".\n  \"\"\""

/-- The same with one word. -/
def quotingBlock' : Text := "\"\"\"\n  Say \"ab\".\n  \"\"\""

theorem isTextBlock_quotingBlock :
    IsTextBlock quotingBlock ∧ IsTextBlock quotingBlock' :=
  ⟨⟨[], '\n', "  Say \"a b\".\n  \"\"\"", rfl, by simp, .inl rfl, by decide +kernel⟩,
    ⟨[], '\n', "  Say \"ab\".\n  \"\"\"", rfl, by simp, .inl rfl, by decide +kernel⟩⟩

end Graft.Code
