import Graft.Proofs.Java.Lexemes

/-!
# Numbers

A number is read as long as letters, digits, underscores and dots follow, and
behind the mark of an exponent also a sign. A number without such a mark is one
lexeme in front of anything else (`isLexeme_number`), and a minus stands alone
in front of a digit (`isLexeme_minus`).
-/

namespace Graft.Java

/-! ## Digits -/

/-- The signs that a digit is told from. -/
def numberSigns : Text :=
  ['/', '"', '\'', 'p', 'P', 'e', 'E', '>', '-', '(', ')', '[', ']', '\x7b', '\x7d']

/-- A digit is no blank, and none of the signs that numbers are told from. -/
theorem digit_laws {c : Char} (h : c.isDigit = true) :
    Char.isBlank c = false ∧ c.isAlphanum = true ∧
    ∀ sign ∈ numberSigns, (c == sign) = false := by
  have hall : ((List.range' 48 10).all fun n =>
      !Char.isBlank (Char.ofNat n) && (Char.ofNat n).isAlphanum &&
        numberSigns.all fun sign =>
          !(Char.ofNat n == sign)) = true := by
    decide +kernel
  have hmem : c.toNat ∈ List.range' 48 10 := by
    have hrange : 48 ≤ c.toNat ∧ c.toNat ≤ 57 := by
      simpa [Char.isDigit, UInt32.le_iff_toNat_le] using h
    rw [List.mem_range'_1]
    omega
  have hdigit := List.all_eq_true.mp hall _ hmem
  rw [Char.ofNat_toNat, Bool.and_eq_true, Bool.and_eq_true, Bool.not_eq_true'] at hdigit
  refine ⟨hdigit.1.1, hdigit.1.2, fun sign hsign => ?_⟩
  simpa using List.all_eq_true.mp hdigit.2 sign hsign

/-- A plus or a minus stands alone in front of something else, unless it
begins an arrow. -/
theorem isLexeme_plusMinus {c : Char} (hc : c = '+' ∨ c = '-') {behind : Text}
    (h : ∀ d ∈ behind.head?, d ≠ c ∧ d ≠ '>') : IsLexeme (.token .sign) [c] behind := by
  have hnone : longSigns.find? (·.isPrefixOf (c :: behind)) = none := by
    rw [List.find?_eq_none]
    cases behind with
    | nil => rcases hc with rfl | rfl <;> decide
    | cons d rest =>
      obtain ⟨hsame, harrow⟩ := h d rfl
      rcases hc with rfl | rfl
      · simpa [longSigns] using Ne.symm hsame
      · simpa [longSigns] using ⟨Ne.symm harrow, Ne.symm hsame⟩
  refine ⟨List.cons_ne_nil _ _, ?_⟩
  rw [List.singleton_append]
  unfold lexeme
  rcases hc with rfl | rfl
  · dsimp only
    rw [hnone]
    rfl
  · dsimp only
    rw [hnone]
    rfl

theorem isLexeme_minus {c : Char} (h : c.isDigit = true) (rest : Text) :
    IsLexeme (.token .sign) ['-'] (c :: rest) := by
  obtain ⟨-, -, hsigns⟩ := digit_laws h
  simp only [numberSigns, List.forall_mem_cons, beq_eq_false_iff_ne] at hsigns
  refine isLexeme_plusMinus (.inr rfl) ?_
  rintro _ ⟨⟩
  exact ⟨hsigns.2.2.2.2.2.2.2.2.1, hsigns.2.2.2.2.2.2.2.1⟩

/-! ## How far a number goes -/

/-- Whether a number with or without a mark of its base goes on with a
character, with no exponent behind it. -/
def goesOn (based : Bool) (c : Char) : Bool :=
  (c.isAlphanum || c == '_') && c != 'p' && c != 'P' &&
    (based || (c != 'e' && c != 'E'))

/-- A number in front of this text goes no further. -/
def EndsNumber (behind : Text) : Prop :=
  ∀ c ∈ behind.head?, (c.isAlphanum || c == '_' || c == '.') = false

theorem numberLength_append {based : Bool} {t behind : Text}
    (h : ∀ c ∈ t, goesOn based c = true) (hends : EndsNumber behind) :
    numberLength based false (t ++ behind) = t.length := by
  induction t with
  | nil =>
    cases behind with
    | nil => rfl
    | cons c rest =>
      have hc := hends c rfl
      rw [List.nil_append, numberLength, hc]
      rfl
  | cons c t ih =>
    obtain ⟨hc, ht⟩ := List.forall_mem_cons.mp h
    rw [List.cons_append, numberLength, List.length_cons]
    simp only [goesOn, Bool.and_eq_true, bne_iff_ne, Bool.or_eq_true, beq_iff_eq] at hc
    obtain ⟨⟨⟨hword, hp⟩, hP⟩, hexponent⟩ := hc
    have hmarks :
        (c == 'p' || c == 'P' || (!based && (c == 'e' || c == 'E'))) = false := by
      cases based with
      | true => simp [hp, hP]
      | false => simpa [hp, hP] using hexponent
    have hgoes : (c.isAlphanum || c == '_' || c == '.') = true := by simp [hword]
    rw [if_pos hgoes]
    dsimp only
    rw [hmarks, ih ht]

/-- Whether a character behind a zero marks a base. -/
def marksBase (c : Char) : Bool := c == 'x' || c == 'X' || c == 'b' || c == 'B'

theorem hasBaseMark_append {c : Char} {t behind : Text}
    (h : ∀ d ∈ behind.head?, marksBase d = false) :
    hasBaseMark (c :: (t ++ behind)) = hasBaseMark (c :: t) := by
  by_cases hc : c = '0'
  · rw [hc]
    cases t with
    | cons d t => rfl
    | nil =>
      cases behind with
      | nil => rfl
      | cons d rest => exact h d rfl
  · rw [hasBaseMark, hasBaseMark] <;> simp [hc]

theorem EndsNumber.no_mark {behind : Text} (h : EndsNumber behind) :
    ∀ d ∈ behind.head?, marksBase d = false := by
  intro d hd
  have hends := h d hd
  rw [← Bool.not_eq_true]
  intro hmark
  simp only [marksBase, Bool.or_eq_true, beq_iff_eq] at hmark
  rcases hmark with ((rfl | rfl) | rfl) | rfl <;> cases hends

/-- What a digit begins is a number. -/
theorem lexeme_digit {c : Char} (hc : c.isDigit = true) (rest : Text) :
    lexeme (c :: rest) =
      (.token
        (if isIntegerText
          ((c :: rest).take (numberLength (hasBaseMark (c :: rest)) false rest + 1))
        then .integer else .floating),
        numberLength (hasBaseMark (c :: rest)) false rest + 1) := by
  unfold lexeme
  dsimp only
  rw [if_neg (by simp [(digit_laws hc).1])]
  split
  case h_6 => rw [if_pos (by simp [hc])]
  all_goals exact absurd hc (by decide)

/-- **A number is one lexeme** in front of what it does not go on with. -/
theorem isLexeme_number {c : Char} {t behind : Text} (hc : c.isDigit = true)
    (h : ∀ d ∈ t, goesOn (hasBaseMark (c :: t)) d = true) (hends : EndsNumber behind) :
    IsLexeme (.token (if isIntegerText (c :: t) then .integer else .floating))
      (c :: t) behind := by
  have htake : (c :: (t ++ behind)).take (t.length + 1) = c :: t := by simp
  refine ⟨List.cons_ne_nil c t, ?_⟩
  rw [List.cons_append, lexeme_digit hc, hasBaseMark_append hends.no_mark,
    numberLength_append h hends, htake, List.length_cons]

end Graft.Java
