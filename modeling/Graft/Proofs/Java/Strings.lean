import Graft.Proofs.Code.Literals
import Graft.Proofs.Java.Annotations
import Graft.Proofs.Text.Cutting
import Graft.Proofs.Text.Units

/-!
# Strings in annotations

The body of a string literal is made of characters that stand for themselves and
of escapes (`StringPiece`), and denotes UTF-16 units (`denoted`). The reader
takes a backslash for the sign that the character behind it has another meaning,
which it has for few characters; all others stay as they are.

* `IsBody.isLexeme`: a literal is one token, wherever it stands.
* `IsBody.unescape`: what the reader makes of a body, piece by piece.
* `strings_denote_iff_understood`: a literal is read as the string that
  it denotes exactly when all its escapes are of the kinds that the
  reader understands.
* `escapes_are_lost`: literals that are read as other strings.
-/

namespace Graft.Java

open Code (fitsBetween)

/-! ## The literals -/

/-- A piece of the body of a string literal. -/
inductive StringPiece where
  /-- A character that stands for itself. -/
  | plain (c : Char)
  /-- A backslash and a character that stands for another one behind it. -/
  | letter (c : Char)
  /-- A backslash and digits of base 8. -/
  | octal (digits : List (Fin 8))
  /-- A backslash, `u` and digits of base 16, each of them small or capital. -/
  | unicode (digits : List (Fin 16 × Bool))

/-- The characters with a meaning of their own behind a backslash, and the units
that they stand for. -/
def letterUnits : List (Char × Nat) :=
  [('b', 8), ('t', 9), ('n', 10), ('f', 12), ('r', 13), ('s', 32), ('"', 34),
    ('\'', 39), ('\\', 92)]

/-- A digit of base 8. -/
def octalDigit (d : Fin 8) : Char := "01234567".toList[d]

/-- A digit of base 16. -/
def hexDigit (d : Fin 16 × Bool) : Char :=
  if d.2 then "0123456789ABCDEF".toList[d.1] else "0123456789abcdef".toList[d.1]

namespace StringPiece

/-- How a piece is written. -/
def spelled : StringPiece → Text
  | plain c => [c]
  | letter c => ['\\', c]
  | octal digits => '\\' :: digits.map octalDigit
  | unicode digits => '\\' :: 'u' :: digits.map hexDigit

/-- The UTF-16 units that a piece denotes. -/
def denoted : StringPiece → List Nat
  | plain c => Text.unitsOfChar c
  | letter c => [(letterUnits.lookup c).getD 0]
  | octal digits => [digits.foldl (fun n (d : Fin 8) => n * 8 + d.val) 0]
  | unicode digits => [digits.foldl (fun n (d : Fin 16 × Bool) => n * 16 + d.1.val) 0]

/-- A piece may stand in a body: quotes, backslashes and line breaks are written
as escapes, and an escape has the digits that it needs. A Unicode escape stands
for no quote, backslash or line break either, since that would close the
literal, begin another escape or end the line. -/
def IsValid : StringPiece → Prop
  | plain c => c ∉ ['"', '\\', '\n', '\r']
  | letter c => (letterUnits.lookup c).isSome
  | octal digits => digits ≠ [] ∧
      (digits.length ≤ 2 ∨ digits.length = 3 ∧ ∀ d ∈ digits.head?, d ≤ 3)
  | unicode digits =>
    digits.length = 4 ∧ ∀ u ∈ denoted (unicode digits), u ∉ [10, 13, 34, 92]

/-- Another digit of base 8 behind the piece would belong to it. -/
def MayGoOn : StringPiece → Prop
  | octal digits => digits.length < 2 ∨ digits.length = 2 ∧ ∀ d ∈ digits.head?, d ≤ 3
  | _ => False

/-- The piece is a digit of base 8, as itself or by a Unicode escape. -/
def IsOctalDigit : StringPiece → Prop
  | plain c => 48 ≤ c.toNat ∧ c.toNat ≤ 55
  | unicode digits => ∀ u ∈ denoted (unicode digits), 48 ≤ u ∧ u ≤ 55
  | _ => False

/-- The reader understands a piece: it is no escape, or one of a few. -/
def IsUnderstood : StringPiece → Prop
  | plain _ => True
  | letter c => c ∈ ['n', 't', 'r', '"', '\'', '\\']
  | octal digits => digits = [0]
  | unicode _ => False

instance : DecidablePred IsValid
  | plain c => inferInstanceAs (Decidable (c ∉ _))
  | letter _ => inferInstanceAs (Decidable (_ = true))
  | octal _ => inferInstanceAs (Decidable (_ ∧ _))
  | unicode _ => inferInstanceAs (Decidable (_ ∧ _))

instance : DecidablePred MayGoOn
  | octal _ => inferInstanceAs (Decidable (_ ∨ _))
  | plain _ | letter _ | unicode _ => inferInstanceAs (Decidable False)

instance : DecidablePred IsOctalDigit
  | plain _ => inferInstanceAs (Decidable (_ ∧ _))
  | unicode digits => inferInstanceAs (Decidable (∀ u ∈ denoted (unicode digits), _))
  | letter _ | octal _ => inferInstanceAs (Decidable False)

instance : DecidablePred IsUnderstood
  | plain _ => inferInstanceAs (Decidable True)
  | letter c => inferInstanceAs (Decidable (c ∈ _))
  | octal digits => inferInstanceAs (Decidable (digits = _))
  | unicode _ => inferInstanceAs (Decidable False)

/-- What the reader makes of a piece. -/
def read : StringPiece → Text
  | plain c => [c]
  | letter c => [escapedChar c]
  | octal [] => []
  | octal (d :: digits) => escapedChar (octalDigit d) :: digits.map octalDigit
  | unicode digits => 'u' :: digits.map hexDigit

end StringPiece

/-- The body of a string literal. An octal escape is as long as it may be. -/
inductive IsBody : List StringPiece → Prop
  | nil : IsBody []
  | cons {p : StringPiece} {rest : List StringPiece} (valid : p.IsValid)
      (longest : p.MayGoOn → ∀ q ∈ rest.head?, ¬ q.IsOctalDigit)
      (more : IsBody rest) : IsBody (p :: rest)

/-- A string literal. -/
def quoted (pieces : List StringPiece) : Text :=
  '"' :: (pieces.flatMap StringPiece.spelled ++ ['"'])

/-- The UTF-16 units that a literal denotes. -/
def denotedUnits (pieces : List StringPiece) : List Nat :=
  pieces.flatMap StringPiece.denoted

/-! ## Scanning a literal -/

theorem octalDigit_laws : ∀ d, octalDigit d ≠ '"' ∧ octalDigit d ≠ '\\' := by decide

theorem hexDigit_laws (d : Fin 16 × Bool) : hexDigit d ≠ '"' ∧ hexDigit d ≠ '\\' := by
  have hall : ∀ (n : Fin 16) (capital : Bool),
      hexDigit (n, capital) ≠ '"' ∧ hexDigit (n, capital) ≠ '\\' := by decide
  exact hall d.1 d.2

/-- What begins with neither quote nor backslash is passed over. -/
theorem fitsBetween_plain {t : Text} (h : ∀ c ∈ t, c ≠ '"' ∧ c ≠ '\\') (rest : Text) :
    fitsBetween '"' false (t ++ rest) = fitsBetween '"' false rest := by
  induction t with
  | nil => rfl
  | cons c t ih =>
    obtain ⟨⟨hquote, hback⟩, ht⟩ := List.forall_mem_cons.mp h
    rw [List.cons_append, fitsBetween, beq_eq_false_iff_ne.mpr hback, ih ht]
    simp [hquote]

theorem StringPiece.IsValid.fitsBetween {p : StringPiece} (h : p.IsValid)
    (rest : Text) :
    fitsBetween '"' false (p.spelled ++ rest) = fitsBetween '"' false rest := by
  have hescape : ∀ (c : Char) (t : Text), Code.fitsBetween '"' false ('\\' :: c :: t) =
      Code.fitsBetween '"' false t := fun _ _ => rfl
  have hoctal : ∀ digits : List (Fin 8), ∀ c ∈ digits.map octalDigit,
      c ≠ '"' ∧ c ≠ '\\' :=
    fun digits => List.forall_mem_map.mpr fun d _ => octalDigit_laws d
  have hhex : ∀ digits : List (Fin 16 × Bool), ∀ c ∈ digits.map hexDigit,
      c ≠ '"' ∧ c ≠ '\\' :=
    fun digits => List.forall_mem_map.mpr fun d _ => hexDigit_laws d
  cases p with
  | plain c =>
    simp only [IsValid, List.mem_cons, not_or] at h
    exact fitsBetween_plain (List.forall_mem_singleton.mpr ⟨h.1, h.2.1⟩) rest
  | letter c => exact hescape c rest
  | octal digits =>
    cases digits with
    | nil => exact absurd rfl h.1
    | cons d digits =>
      exact (hescape _ _).trans (fitsBetween_plain (hoctal digits) rest)
  | unicode digits => exact (hescape _ _).trans (fitsBetween_plain (hhex digits) rest)

theorem StringPiece.spelled_ne_nil (p : StringPiece) : p.spelled ≠ [] := by
  cases p <;> exact List.cons_ne_nil _ _

theorem IsBody.fitsBetween {pieces : List StringPiece} (h : IsBody pieces) :
    fitsBetween '"' false (pieces.flatMap StringPiece.spelled) = true := by
  induction h with
  | nil => rfl
  | cons valid _ _ ih => rw [List.flatMap_cons, valid.fitsBetween, ih]

theorem literalLength_append {quote : Char} {escaped : Bool} {body : Text}
    (h : fitsBetween quote escaped body = true) (rest : Text) :
    literalLength quote escaped (body ++ quote :: rest) = body.length + 1 := by
  induction body generalizing escaped with
  | nil =>
    rw [Code.fitsBetween, Bool.not_eq_true'] at h
    rw [h, List.nil_append, literalLength, beq_self_eq_true]
    rfl
  | cons c body ih =>
    rw [List.cons_append]
    cases escaped with
    | true => rw [literalLength, ih h, List.length_cons]
    | false =>
      rw [Code.fitsBetween, Bool.and_eq_true, bne_iff_ne] at h
      rw [literalLength, if_neg (by simpa using h.1), ih h.2, List.length_cons]

theorem lexeme_quote {t : Text} (h : ∀ more, t ≠ '"' :: '"' :: more) :
    lexeme ('"' :: t) = (.token .string, literalLength '"' false t + 1) := by
  unfold lexeme
  dsimp only
  rw [if_neg (by decide)]
  split
  case h_3 => exact absurd rfl (h _)
  case h_4 => rfl
  all_goals simp_all

/-- A literal is not taken for the beginning of a text block. -/
theorem IsBody.opens_no_block {pieces : List StringPiece} (h : IsBody pieces)
    {behind : Text} (hbehind : pieces = [] → behind.head? ≠ some '"') (more : Text) :
    pieces.flatMap StringPiece.spelled ++ '"' :: behind ≠ '"' :: '"' :: more := by
  intro heq
  have hfits := h.fitsBetween
  cases hbody : pieces.flatMap StringPiece.spelled with
  | nil =>
    have hnone : pieces = [] := by
      rw [List.eq_nil_iff_forall_not_mem]
      exact fun p hp => p.spelled_ne_nil (List.flatMap_eq_nil_iff.mp hbody p hp)
    rw [hbody] at heq
    have hquote : behind = '"' :: more := (List.cons.inj heq).2
    exact hbehind hnone (by rw [hquote]; rfl)
  | cons c body =>
    rw [hbody] at hfits heq
    obtain ⟨rfl, -⟩ := List.cons.inj heq
    rw [Code.fitsBetween] at hfits
    cases hfits

theorem IsBody.isLexeme {pieces : List StringPiece} (h : IsBody pieces) {behind : Text}
    (hbehind : pieces = [] → behind.head? ≠ some '"') :
    IsLexeme (.token .string) (quoted pieces) behind := by
  have hliteral : quoted pieces ++ behind =
      '"' :: (pieces.flatMap StringPiece.spelled ++ '"' :: behind) := by simp [quoted]
  refine ⟨List.cons_ne_nil _ _, ?_⟩
  rw [hliteral, lexeme_quote (h.opens_no_block hbehind),
    literalLength_append h.fitsBetween]
  simp [quoted]

/-! ## Reading a literal -/

theorem unescape_cons {c : Char} (h : c ≠ '\\') (rest : Text) :
    unescape (c :: rest) = c :: unescape rest := by
  rw [unescape]
  rintro _ _ rfl
  exact absurd rfl h

theorem unescape_plain {t : Text} (h : ∀ c ∈ t, c ≠ '\\') (rest : Text) :
    unescape (t ++ rest) = t ++ unescape rest := by
  induction t with
  | nil => rfl
  | cons c t ih =>
    obtain ⟨hc, ht⟩ := List.forall_mem_cons.mp h
    rw [List.cons_append, unescape_cons hc, ih ht, List.cons_append]

theorem StringPiece.IsValid.unescape {p : StringPiece} (h : p.IsValid) (rest : Text) :
    unescape (p.spelled ++ rest) = p.read ++ unescape rest := by
  cases p with
  | plain c =>
    simp only [IsValid, List.mem_cons, not_or] at h
    exact unescape_cons h.2.1 rest
  | letter c => rw [spelled, List.cons_append, List.cons_append, List.nil_append,
      Java.unescape]; rfl
  | octal digits =>
    cases digits with
    | nil => exact absurd rfl h.1
    | cons d digits =>
      show escapedChar (octalDigit d) :: Java.unescape
        (digits.map octalDigit ++ rest) = _
      rw [unescape_plain (List.forall_mem_map.mpr fun d _ => (octalDigit_laws d).2)]
      rfl
  | unicode digits =>
    show escapedChar 'u' :: Java.unescape (digits.map hexDigit ++ rest) = _
    rw [unescape_plain (List.forall_mem_map.mpr fun d _ => (hexDigit_laws d).2)]
    rfl

/-- What the reader makes of a body, piece by piece. -/
theorem IsBody.unescape {pieces : List StringPiece} (h : IsBody pieces) :
    unescape (pieces.flatMap StringPiece.spelled) =
      pieces.flatMap StringPiece.read := by
  induction h with
  | nil => rfl
  | cons valid _ _ ih => rw [List.flatMap_cons, List.flatMap_cons, valid.unescape, ih]

theorem IsBody.stringValue {pieces : List StringPiece} (h : IsBody pieces) :
    stringValue (quoted pieces) = pieces.flatMap StringPiece.read := by
  have hblock : unwrap? "\"\"\"" (quoted pieces) = none := by
    cases hcut : Text.afterHead? "\"\"\"" (quoted pieces) with
    | none =>
      rw [unwrap?, hcut]
      rfl
    | some rest =>
      have hopens : pieces.flatMap StringPiece.spelled ++ ['"'] ≠ '"' :: '"' :: rest :=
        h.opens_no_block (fun _ => by decide) rest
      exact absurd (List.cons.inj (Text.afterHead?_eq_some_iff.mp hcut)).2 hopens
  have hplain : unwrap? "\"" (quoted pieces) =
      some (pieces.flatMap StringPiece.spelled) := by
    show Text.beforeTail? "\"" (pieces.flatMap StringPiece.spelled ++ ['"']) = _
    exact Text.beforeTail?_append _ _
  rw [Java.stringValue, hblock, hplain, ← h.unescape]

/-! ## What is understood -/

namespace StringPiece

variable {p : StringPiece}

/-- What the reader makes of a piece is no shorter than what it denotes. -/
theorem IsValid.length_le (h : p.IsValid) :
    p.denoted.length ≤ (Text.units p.read).length := by
  cases p with
  | plain c => exact Nat.le_of_eq (by simp [read, denoted])
  | letter c => exact Text.length_le_length_units (read (letter c))
  | octal digits =>
    cases digits with
    | nil => exact absurd rfl h.1
    | cons d digits =>
      exact Nat.le_trans (Nat.le_add_left _ _)
        (Text.length_le_length_units (read (octal (d :: digits))))
  | unicode digits =>
    exact Nat.le_trans (Nat.le_add_left _ _)
      (Text.length_le_length_units (read (unicode digits)))

theorem IsValid.units_read_iff (h : p.IsValid) :
    Text.units p.read = p.denoted ↔ p.IsUnderstood := by
  cases p with
  | plain c => exact iff_of_true (by simp [read, denoted]) trivial
  | letter c =>
    have hmem : c ∈ letterUnits.map Prod.fst := by
      obtain ⟨u, hu, hc⟩ := List.lookup_isSome_iff.mp h
      rw [eq_of_beq hc]
      exact List.mem_map_of_mem hu
    have hall : ((letterUnits.map Prod.fst).all fun c =>
        Text.units (read (letter c)) = denoted (letter c) ↔
          c ∈ ['n', 't', 'r', '"', '\'', '\\']) = true := by decide
    exact of_decide_eq_true (List.all_eq_true.mp hall c hmem)
  | octal digits =>
    match digits, h.1 with
    | [d], _ =>
      have hall : ∀ d : Fin 8,
          (Text.units (read (octal [d])) = denoted (octal [d]) ↔ [d] = [0]) := by
        decide
      exact hall d
    | d :: e :: digits, _ =>
      -- Every digit behind the first stays a character of its own.
      refine iff_of_false (fun heq => ?_) (by simp [IsUnderstood])
      have hlength := Text.length_le_length_units (read (octal (d :: e :: digits)))
      rw [heq] at hlength
      simp [read, denoted] at hlength
  | unicode digits =>
    refine iff_of_false (fun heq => ?_) id
    have hlength := Text.length_le_length_units (read (unicode digits))
    rw [heq] at hlength
    have hfour : digits.length = 4 := h.1
    simp [read, denoted, hfour] at hlength

end StringPiece

theorem IsBody.length_le {pieces : List StringPiece} (h : IsBody pieces) :
    (denotedUnits pieces).length ≤
      (Text.units (pieces.flatMap StringPiece.read)).length := by
  induction h with
  | nil => exact Nat.le_refl _
  | cons valid _ _ ih =>
    rw [List.flatMap_cons, Text.units_append, denotedUnits, List.flatMap_cons,
      List.length_append, List.length_append]
    exact Nat.add_le_add valid.length_le ih

/-- **A body is read as what it denotes exactly when all its pieces are**: none
of them can be made up for by another, since no piece becomes shorter. -/
theorem IsBody.units_read_iff {pieces : List StringPiece} (h : IsBody pieces) :
    Text.units (pieces.flatMap StringPiece.read) = denotedUnits pieces ↔
      ∀ p ∈ pieces, p.IsUnderstood := by
  induction h with
  | nil => simp [denotedUnits]
  | @cons p rest valid _ more ih =>
    have hdenoted : denotedUnits (p :: rest) = p.denoted ++ denotedUnits rest := rfl
    rw [List.flatMap_cons, Text.units_append, hdenoted, List.forall_mem_cons, ← ih,
      ← valid.units_read_iff]
    constructor
    · intro heq
      -- Neither part is shorter than what it stands for, so equal wholes fall
      -- into equal parts.
      have hfirst := valid.length_le
      have hrest := more.length_le
      have htotal := congrArg List.length heq
      rw [List.length_append, List.length_append] at htotal
      exact List.append_inj heq (by omega)
    · rintro ⟨hfirst, hrest⟩
      rw [hfirst, hrest]

/-- **A string literal is read as the string that it denotes exactly when the
reader understands all its escapes.** Wherever it stands, it is one value of an
annotation; its text has the units that the literal denotes, and so is every
string with these units, just when each escape is one of `\n`, `\t`, `\r`, `\"`,
`\'` and `\\` or a single `\0`. -/
theorem strings_denote_iff_understood (pieces : List StringPiece) (h : IsBody pieces) :
    (∀ position behind, (pieces = [] → behind.head? ≠ some '"') →
        Gives position (quoted pieces) behind fun tokens =>
          ∃ trees, Bracketed tokens trees ∧
          ∀ source n, readValue source (n + 1) trees =
            .string (stringValue (quoted pieces))) ∧
      (Text.units (stringValue (quoted pieces)) = denotedUnits pieces ↔
        ∀ p ∈ pieces, p.IsUnderstood) ∧
      ∀ s, Text.units s = denotedUnits pieces →
        (stringValue (quoted pieces) = s ↔ ∀ p ∈ pieces, p.IsUnderstood) := by
  have hunits : Text.units (stringValue (quoted pieces)) = denotedUnits pieces ↔
      ∀ p ∈ pieces, p.IsUnderstood := by
    rw [h.stringValue]
    exact h.units_read_iff
  refine ⟨fun position behind hbehind => ?_, hunits, fun s hs => ?_⟩
  · refine (Gives.lexeme (h.isLexeme hbehind) position).mono ?_
    rintro _ ⟨line, doc, rfl⟩
    have hplain :=
      plain_of_not_isBracket (t := ⟨.string, quoted pieces, position, line, doc⟩)
        (isBracket_cons (by decide) _)
    refine ⟨_, .leaf hplain.1 hplain.2 .nil, fun source n => ?_⟩
    rw [readValue]
  · rw [← hunits, ← hs]
    exact ⟨congrArg Text.units, Text.units_injective⟩

/-- The literal `"a\n\"\0b"`, whose escapes are all understood. -/
theorem strings_denote_iff_understood_sample :
    IsBody [.plain 'a', .letter 'n', .letter '"', .octal [0], .plain 'b'] ∧
      stringValue "\"a\\n\\\"\\0b\"" = "a\n\"\x00b".toList := by
  have hbody : IsBody [.plain 'a', .letter 'n', .letter '"', .octal [0], .plain 'b'] :=
    .cons (by decide) (by decide)
      (.cons (by decide) (by decide) (.cons (by decide) (by decide)
      (.cons (by decide) (by decide) (.cons (by decide) (by decide) .nil))))
  have hread := (strings_denote_iff_understood _ hbody).2.2 "a\n\"\x00b" (by decide)
  exact ⟨hbody, hread.mpr (by decide)⟩

/-- The literals `"\b"`, `"\101"` and `"\u0041"` denote a backspace, `A` and
`A`, and are read as other strings. -/
theorem escapes_are_lost :
    (¬ ∀ pieces, IsBody pieces →
      Text.units (stringValue (quoted pieces)) = denotedUnits pieces) ∧
      (denotedUnits [.letter 'b'] = [8] ∧
        readValue [] 1 (Tree.ofTokens (tokens "\"\\b\"")) = .string "b") ∧
      (denotedUnits [.octal [1, 0, 1]] = Text.units "A" ∧
        readValue [] 1 (Tree.ofTokens (tokens "\"\\101\"")) = .string "101") ∧
      denotedUnits [.unicode [(0, false), (0, false), (4, false), (1, false)]] =
        Text.units "A" ∧
      readValue [] 1 (Tree.ofTokens (tokens "\"\\u0041\"")) = .string "u0041" := by
  have hbackspace : IsBody [.letter 'b'] := .cons (by decide) (by decide) .nil
  refine ⟨fun h => ?_, ⟨by decide, rfl⟩, ⟨by decide, rfl⟩, by decide, rfl⟩
  exact absurd (h _ hbackspace) (by decide)

end Graft.Java
