import Graft.Proofs.Java.Annotations
import Graft.Proofs.Java.Numbers
import Mathlib.Data.List.Basic

/-!
# Integers in annotations

An integer literal has the value that its digits write in its base
(`IntegerLiteral`); signs and parentheses around it, with blanks and comments
anywhere between them, change no more than its sign (`SignedInteger`).

* `IntegerLiteral.integerValue?_eq`: the value of a literal is read just when it
  is not too great.
* `IntegerLiteral.isLexeme`: a literal is one token, wherever it stands.
* `SignedInteger.gives`: what is built around a literal is read
  as its signed value.
* `readValue_integer_le`: no value that is read is too great to be negated.
* `integers_read_exactly`: all of this together.
-/

namespace Graft.Java

/-! ## The literals -/

/-- A digit of a base up to 16, and its value. -/
def IsDigit (base : Nat) (c : Char) (value : Nat) : Prop :=
  value < base ∧
    ("0123456789abcdef".toList[value]? = some c ∨
      "0123456789ABCDEF".toList[value]? = some c)

/-- Digits of a base with underscores between them, and the number
that they write. -/
inductive Numeral (base : Nat) : Text → Nat → Prop
  | digit {c : Char} {d : Nat} (last : IsDigit base c d) : Numeral base [c] d
  | more {t : Text} {m : Nat} {c : Char} {d : Nat} (first : Numeral base t m)
      (underscores : Nat) (last : IsDigit base c d) :
      Numeral base (t ++ (List.replicate underscores '_' ++ [c])) (m * base + d)

/-- An integer literal without a suffix, and its value: zero, or digits of a
base with what tells the base in front of them. -/
inductive Magnitude : Text → Nat → Prop
  | zero : Magnitude ['0'] 0
  | decimal {t : Text} {m : Nat} (digits : Numeral 10 t m)
      (first : t.head? ≠ some '0') : Magnitude t m
  | octal {t : Text} {m : Nat} (underscores : Nat) (digits : Numeral 8 t m) :
      Magnitude ('0' :: (List.replicate underscores '_' ++ t)) m
  | hexadecimal {t : Text} {m : Nat} {mark : Char} (marks : mark = 'x' ∨ mark = 'X')
      (digits : Numeral 16 t m) : Magnitude ('0' :: mark :: t) m
  | binary {t : Text} {m : Nat} {mark : Char} (marks : mark = 'b' ∨ mark = 'B')
      (digits : Numeral 2 t m) : Magnitude ('0' :: mark :: t) m

/-- An integer literal with or without the suffix of long
numbers, and its value. -/
inductive IntegerLiteral : Text → Nat → Prop
  | plain {t : Text} {m : Nat} (magnitude : Magnitude t m) : IntegerLiteral t m
  | long {t : Text} {m : Nat} {suffix : Char} (magnitude : Magnitude t m)
      (suffixes : suffix = 'l' ∨ suffix = 'L') : IntegerLiteral (t ++ [suffix]) m

/-! ## Digits -/

/-- The digits of all bases. -/
def allDigits : Text := "0123456789abcdefABCDEF".toList

namespace IsDigit

variable {base d : Nat} {c : Char}

theorem mem (h : IsDigit base c d) : c ∈ allDigits := by
  rcases h.2 with h | h
  · exact (by decide : "0123456789abcdef".toList ⊆ allDigits) (List.mem_of_getElem? h)
  · exact (by decide : "0123456789ABCDEF".toList ⊆ allDigits) (List.mem_of_getElem? h)

/-- Small bases have the first digits only, which are no letters. -/
theorem mem_take (h : IsDigit base c d) (hbase : base ≤ 10) :
    c ∈ allDigits.take base := by
  have hsmall : ("0123456789abcdef".toList.take base)[d]? = some c ∨
      ("0123456789ABCDEF".toList.take base)[d]? = some c := by
    simpa only [List.getElem?_take_of_lt h.1] using h.2
  have htake : ∀ b ≤ 10, "0123456789abcdef".toList.take b = allDigits.take b ∧
      "0123456789ABCDEF".toList.take b = allDigits.take b := by decide
  rw [(htake base hbase).1, (htake base hbase).2, or_self] at hsmall
  exact List.mem_of_getElem? hsmall

theorem isDigit (h : IsDigit base c d) (hbase : base ≤ 10) : c.isDigit = true := by
  have hall : (allDigits.take 10).all Char.isDigit = true := rfl
  exact List.all_eq_true.mp hall c
    (List.take_subset_take_left _ hbase (h.mem_take hbase))

/-- A digit is read as its value. -/
theorem digitValue?_eq (h : IsDigit base c d) (hbase : base ∈ [2, 8, 10, 16]) :
    digitValue? base c = some d := by
  have hall : ∀ b ∈ [2, 8, 10, 16], ∀ n < b,
      "0123456789abcdef".toList[n]?.bind (digitValue? b) = some n ∧
        "0123456789ABCDEF".toList[n]?.bind (digitValue? b) = some n := by decide
  obtain ⟨hsmall, hcapital⟩ := hall base hbase d h.1
  rcases h.2 with h | h
  · rwa [h] at hsmall
  · rwa [h] at hcapital

theorem filter_cons (h : IsDigit base c d) (t : Text) :
    (c :: t).filter (· != '_') = c :: t.filter (· != '_') := by
  have hall : allDigits.all (· != '_') = true := rfl
  exact List.filter_cons_of_pos (List.all_eq_true.mp hall c h.mem)

end IsDigit

/-! ## Numerals -/

theorem digitsValue?_append (base before : Nat) (s t : Text) :
    digitsValue? base before (s ++ t) =
      (digitsValue? base before s).bind fun v => digitsValue? base v t := by
  induction s generalizing before with
  | nil => rfl
  | cons c s ih =>
    rw [List.cons_append, digitsValue?, digitsValue?]
    cases digitValue? base c with
    | none => rfl
    | some d => exact ih _

theorem filter_underscores (n : Nat) (t : Text) :
    (List.replicate n '_' ++ t).filter (· != '_') = t.filter (· != '_') := by
  rw [List.filter_append, List.filter_replicate_of_neg (by decide), List.nil_append]

namespace Numeral

variable {base m : Nat} {t : Text}

theorem chars (h : Numeral base t m) : ∀ c ∈ t, c = '_' ∨ ∃ d, IsDigit base c d := by
  induction h with
  | digit last => exact List.forall_mem_singleton.mpr (.inr ⟨_, last⟩)
  | more _ underscores last ih =>
    refine List.forall_mem_append.mpr ⟨ih, List.forall_mem_append.mpr ⟨?_, ?_⟩⟩
    · exact fun c hc => .inl (List.eq_of_mem_replicate hc)
    · exact List.forall_mem_singleton.mpr (.inr ⟨_, last⟩)

/-- What holds of underscores and of all digits holds of the
characters of a numeral. -/
theorem all_chars {p : Char → Bool} (h : Numeral base t m)
    (hp : ('_' :: allDigits).all p = true) :
    t.all p = true := by
  rw [List.all_eq_true] at hp ⊢
  intro c hc
  rcases h.chars c hc with rfl | ⟨d, hd⟩
  · exact hp _ List.mem_cons_self
  · exact hp c (List.mem_cons_of_mem _ hd.mem)

/-- In small bases it need not hold of letters. -/
theorem all_digits {p : Char → Bool} (h : Numeral base t m) (hbase : base ≤ 10)
    (hp : ('_' :: allDigits.take base).all p = true) : t.all p = true := by
  rw [List.all_eq_true] at hp ⊢
  intro c hc
  rcases h.chars c hc with rfl | ⟨d, hd⟩
  · exact hp _ List.mem_cons_self
  · exact hp c (List.mem_cons_of_mem _ (hd.mem_take hbase))

/-- A numeral begins with a digit. -/
theorem head (h : Numeral base t m) : ∃ c rest d, t = c :: rest ∧ IsDigit base c d := by
  induction h with
  | digit last => exact ⟨_, [], _, rfl, last⟩
  | more _ underscores _ ih =>
    obtain ⟨c, rest, d, rfl, hc⟩ := ih
    exact ⟨c, _, d, rfl, hc⟩

/-- Digits are read as the number that they write. -/
theorem digitsValue?_eq (h : Numeral base t m) (hbase : base ∈ [2, 8, 10, 16]) :
    digitsValue? base 0 (t.filter (· != '_')) = some m := by
  induction h with
  | @digit c d last =>
    rw [last.filter_cons, List.filter_nil, digitsValue?, last.digitValue?_eq hbase]
    exact congrArg some (by rw [Nat.zero_mul, Nat.zero_add])
  | @more t m c d _ underscores last ih =>
    rw [List.filter_append, filter_underscores, last.filter_cons, List.filter_nil,
      digitsValue?_append, ih, Option.bind_some, digitsValue?,
      last.digitValue?_eq hbase]
    rfl

/-- The number that digits write is the value that is read, unless
it is too great. -/
theorem boundedValue?_eq (h : Numeral base t m) (hbase : base ∈ [2, 8, 10, 16]) :
    boundedValue? base (t.filter (· != '_')) =
      if m ≤ greatestInteger then some (m : Int) else none := by
  obtain ⟨c, rest, d, rfl, hc⟩ := h.head
  have hne : ((c :: rest).filter (· != '_')).isEmpty = false := by
    rw [hc.filter_cons]
    rfl
  rw [boundedValue?, hne, h.digitsValue?_eq hbase]
  by_cases hm : m ≤ greatestInteger <;> simp [hm, Option.filter]

end Numeral

/-! ## The value of a literal -/

namespace Magnitude

variable {t : Text} {m : Nat}

/-- What holds of underscores, digits and the marks of bases holds of the
characters of a literal without a suffix. -/
theorem all_chars {p : Char → Bool} (h : Magnitude t m)
    (hp : ('x' :: 'X' :: '_' :: allDigits).all p = true) : t.all p = true := by
  obtain ⟨hsmall, hp⟩ := Bool.and_eq_true_iff.mp hp
  obtain ⟨hcapital, hp⟩ := Bool.and_eq_true_iff.mp hp
  have hdigit : ∀ c ∈ allDigits, p c = true :=
    fun c hc => List.all_eq_true.mp hp c (List.mem_cons_of_mem _ hc)
  have hzero : p '0' = true := hdigit _ List.mem_cons_self
  cases h with
  | zero => rw [List.all_cons, hzero, List.all_nil, Bool.and_self]
  | decimal digits _ => exact digits.all_chars hp
  | octal underscores digits =>
    rw [List.all_cons, hzero, List.all_append, digits.all_chars hp, Bool.true_and,
      Bool.and_true, List.all_eq_true]
    intro c hc
    rw [List.eq_of_mem_replicate hc]
    exact List.all_eq_true.mp hp _ List.mem_cons_self
  | hexadecimal marks digits =>
    rw [List.all_cons, List.all_cons, hzero, digits.all_chars hp]
    rcases marks with rfl | rfl
    · rw [hsmall]
      rfl
    · rw [hcapital]
      rfl
  | binary marks digits =>
    rw [List.all_cons, List.all_cons, hzero, digits.all_chars hp]
    rcases marks with rfl | rfl
    · rw [hdigit 'b' (by decide)]
      rfl
    · rw [hdigit 'B' (by decide)]
      rfl

/-- A literal begins with a digit. -/
theorem head (h : Magnitude t m) : ∃ c rest, t = c :: rest ∧ c.isDigit = true := by
  cases h with
  | zero | octal | hexadecimal | binary => exact ⟨'0', _, rfl, rfl⟩
  | decimal digits _ =>
    obtain ⟨c, rest, d, rfl, hc⟩ := digits.head
    exact ⟨c, rest, rfl, hc.isDigit (Nat.le_refl _)⟩

/-- A suffix is told from the digits. -/
theorem not_suffix (h : Magnitude t m) : ∀ c ∈ t, (c == 'l' || c == 'L') = false := by
  have hall : (t.all fun c => !(c == 'l' || c == 'L')) = true := h.all_chars rfl
  exact fun c hc => Bool.not_eq_true' _ ▸ List.all_eq_true.mp hall c hc

end Magnitude

/-- Whatever stands behind it as a suffix, the value of a literal is read
from its digits. -/
theorem Magnitude.integerValue?_eq {t literal : Text} {m : Nat} (h : Magnitude t m)
    (hbody : (literal.reverse.dropWhile fun c => c == 'l' || c == 'L').reverse = t) :
    integerValue? literal = if m ≤ greatestInteger then some (m : Int) else none := by
  unfold integerValue?
  dsimp only
  rw [hbody]
  cases h with
  | zero => decide
  | decimal digits first =>
    obtain ⟨c, rest, d, rfl, hc⟩ := digits.head
    have hne : c ≠ '0' := fun heq => first (congrArg some heq)
    rw [← digits.boundedValue?_eq (by decide), hc.filter_cons]
    split
    case h_6 => rfl
    all_goals
      next heq =>
        injection heq with heq
        exact absurd heq hne
  | @octal t m underscores digits =>
    have hfilter : ('0' :: (List.replicate underscores '_' ++ t)).filter (· != '_') =
        '0' :: t.filter (· != '_') := by
      rw [List.filter_cons_of_pos (by decide), filter_underscores]
    obtain ⟨c, rest, d, rfl, hc⟩ := digits.head
    have hdigit : c.isDigit = true := hc.isDigit (by decide)
    rw [hfilter, ← digits.boundedValue?_eq (by decide), hc.filter_cons]
    -- A digit is no mark of a base, so only the case of octal numbers is left.
    split
    case h_5 heq =>
      injection heq with _ heq
      rw [heq]
    case h_6 hne => exact absurd rfl (hne _ _)
    all_goals
      next heq =>
        injection heq with _ heq
        injection heq with heq
        rw [heq] at hdigit
        exact absurd hdigit (by decide)
  | hexadecimal marks digits | binary marks digits =>
    rcases marks with rfl | rfl <;>
      rw [← digits.boundedValue?_eq (by decide), List.filter_cons_of_pos (by decide),
        List.filter_cons_of_pos (by decide)] <;>
      rfl

/-- **The value of a literal is read just when it is not too great.** -/
theorem IntegerLiteral.integerValue?_eq {t : Text} {m : Nat} (h : IntegerLiteral t m) :
    integerValue? t = if m ≤ greatestInteger then some (m : Int) else none := by
  have hkeep : ∀ {t}, Magnitude t m →
      t.reverse.dropWhile (fun c => c == 'l' || c == 'L') = t.reverse := by
    intro t magnitude
    cases hlast : t.reverse with
    | nil => rfl
    | cons c rest =>
      have hc :=
        magnitude.not_suffix c (List.mem_reverse.mp (hlast ▸ List.mem_cons_self))
      exact List.dropWhile_cons_of_neg (by simp [hc])
  cases h with
  | plain magnitude =>
    refine magnitude.integerValue?_eq ?_
    rw [hkeep magnitude, List.reverse_reverse]
  | @long t m suffix magnitude suffixes =>
    refine magnitude.integerValue?_eq ?_
    have hsuffix : (suffix == 'l' || suffix == 'L') = true := by
      rcases suffixes with rfl | rfl <;> rfl
    rw [List.reverse_append, List.reverse_singleton, List.singleton_append,
      List.dropWhile_cons, if_pos hsuffix, hkeep magnitude, List.reverse_reverse]

/-! ## A literal is a token -/

/-- What is an integer with a suffix is one without it. -/
theorem isIntegerText_of_long {t : Text} (h : ∀ c ∈ t, (c == 'l' || c == 'L') = false)
    (hlong : isIntegerText (t ++ ['L']) = true) : isIntegerText t = true := by
  have hlast : (t ++ ['L']).reverse = 'L' :: t.reverse := by simp
  have hnone : ∀ c rest, t.reverse = c :: rest → (c == 'l' || c == 'L') = false :=
    fun c rest hreverse => h c (List.mem_reverse.mp (hreverse ▸ List.mem_cons_self))
  unfold isIntegerText at hlong ⊢
  simp only [hlast, List.reverse_reverse] at hlong
  -- The suffix that is looked for is not there, so all of the text is looked
  -- at.
  split
  · next hreverse => exact absurd (hnone _ _ hreverse) (by decide)
  · next hreverse => exact absurd (hnone _ _ hreverse) (by decide)
  · exact hlong

/-- The digits of a literal are those of an integer, here with a
suffix behind them. -/
theorem Magnitude.isIntegerText_long {t : Text} {m : Nat} (h : Magnitude t m) :
    isIntegerText (t ++ ['L']) = true := by
  have hlast : (t ++ ['L']).reverse = 'L' :: t.reverse := by simp
  unfold isIntegerText
  simp only [hlast, List.reverse_reverse]
  cases h with
  | zero => rfl
  | decimal digits first =>
    obtain ⟨c, rest, d, rfl, hc⟩ := digits.head
    have hne : c ≠ '0' := fun heq => first (congrArg some heq)
    split
    · next heq =>
      injection heq with heq
      exact absurd heq hne
    · exact digits.all_digits (Nat.le_refl _) rfl
  | @octal t m underscores digits =>
    have hall :
        ((List.replicate underscores '_' ++ t).all fun c => c.isDigit || c == '_') =
          true := by
      rw [List.all_append, digits.all_digits (by decide) rfl, Bool.and_true,
        List.all_eq_true]
      intro c hc
      rw [List.eq_of_mem_replicate hc]
      rfl
    cases hcons : List.replicate underscores '_' ++ t with
    | nil => rfl
    | cons c rest =>
      rw [hcons] at hall
      have hc : (c.isDigit || c == '_') = true := (Bool.and_eq_true_iff.mp hall).1
      -- neither a digit nor an underscore is a letter that tells the base
      have hmarks : ∀ mark ∈ ['x', 'X', 'b', 'B', 'o', 'O'], (c == mark) = false := by
        have hnone : (['x', 'X', 'b', 'B', 'o', 'O'].all fun mark =>
            !(mark.isDigit || mark == '_')) = true := rfl
        intro mark hmark
        rw [beq_eq_false_iff_ne]
        rintro rfl
        have hmark' := List.all_eq_true.mp hnone _ hmark
        rw [hc] at hmark'
        cases hmark'
      simp only [List.forall_mem_cons] at hmarks
      simp only [hmarks, hall]
      rfl
  | hexadecimal marks digits =>
    have hall := digits.all_chars
      (p := fun c => c.isDigit || ('a' ≤ c && c ≤ 'f') ||
        ('A' ≤ c && c ≤ 'F') || c == '_') rfl
    rcases marks with rfl | rfl <;> exact hall
  | binary marks digits =>
    have hall := digits.all_digits (by decide)
      (p := fun c => c == '0' || c == '1' || c == '_') rfl
    rcases marks with rfl | rfl <;> exact hall

theorem IntegerLiteral.isIntegerText_eq {t : Text} {m : Nat} (h : IntegerLiteral t m) :
    isIntegerText t = true := by
  cases h with
  | plain magnitude =>
    exact isIntegerText_of_long magnitude.not_suffix magnitude.isIntegerText_long
  | @long t m suffix magnitude suffixes =>
    have hsuffix : isIntegerText (t ++ [suffix]) = isIntegerText (t ++ ['L']) := by
      rcases suffixes with rfl | rfl
      · have hlast : ∀ c, (t ++ [c]).reverse = c :: t.reverse := by simp
        unfold isIntegerText
        simp only [hlast]
      · rfl
    rw [hsuffix, magnitude.isIntegerText_long]

theorem goesOn_of_false {c : Char} (h : goesOn false c = true) (based : Bool) :
    goesOn based c = true := by
  cases based with
  | false => exact h
  | true =>
    simp only [goesOn, Bool.and_eq_true] at h ⊢
    exact ⟨h.1, rfl⟩

theorem Magnitude.goesOn {t : Text} {m : Nat} (h : Magnitude t m) :
    ∀ c ∈ t, goesOn (hasBaseMark t) c = true := by
  have hbased : t.all (Java.goesOn true) = true := h.all_chars rfl
  cases h with
  | zero => exact List.forall_mem_singleton.mpr rfl
  | decimal digits _ =>
    have hall := List.all_eq_true.mp
      (digits.all_digits (p := Java.goesOn false) (Nat.le_refl _) rfl)
    exact fun c hc => goesOn_of_false (hall c hc) _
  | octal underscores digits =>
    have hall :=
      List.all_eq_true.mp (digits.all_digits (p := Java.goesOn false) (by decide) rfl)
    refine fun c hc => goesOn_of_false ?_ _
    rcases List.mem_cons.mp hc with rfl | hc
    · rfl
    · rcases List.mem_append.mp hc with hc | hc
      · rw [List.eq_of_mem_replicate hc]
        rfl
      · exact hall c hc
  | hexadecimal marks _ | binary marks _ =>
    rcases marks with rfl | rfl <;> exact List.all_eq_true.mp hbased

theorem IntegerLiteral.head {t : Text} {m : Nat} (h : IntegerLiteral t m) :
    ∃ c rest, t = c :: rest ∧ c.isDigit = true := by
  cases h with
  | plain magnitude => exact magnitude.head
  | long magnitude _ =>
    obtain ⟨c, rest, rfl, hc⟩ := magnitude.head
    exact ⟨c, _, rfl, hc⟩

theorem IntegerLiteral.goesOn {t : Text} {m : Nat} (h : IntegerLiteral t m) :
    ∀ c ∈ t, goesOn (hasBaseMark t) c = true := by
  cases h with
  | plain magnitude => exact magnitude.goesOn
  | @long t m suffix magnitude suffixes =>
    obtain ⟨c, rest, rfl, hc⟩ := magnitude.head
    have hmark : hasBaseMark (c :: (rest ++ [suffix])) = hasBaseMark (c :: rest) := by
      refine hasBaseMark_append ?_
      rintro _ ⟨⟩
      rcases suffixes with rfl | rfl <;> rfl
    rw [List.cons_append, hmark, ← List.cons_append]
    refine List.forall_mem_append.mpr
      ⟨magnitude.goesOn, List.forall_mem_singleton.mpr ?_⟩
    refine goesOn_of_false ?_ _
    rcases suffixes with rfl | rfl <;> rfl

/-- **A literal is one token** in front of what a number does not go on with. -/
theorem IntegerLiteral.isLexeme {t behind : Text} {m : Nat} (h : IntegerLiteral t m)
    (hends : EndsNumber behind) : IsLexeme (.token .integer) t behind := by
  have hliteral := h.isIntegerText_eq
  have hgoes := h.goesOn
  obtain ⟨c, rest, rfl, hc⟩ := h.head
  have hlexeme := isLexeme_number hc (List.forall_mem_cons.mp hgoes).2 hends
  rwa [hliteral] at hlexeme

/-! ## Values are bounded -/

section

variable {source : Text} {n : Nat}

theorem boundedValue?_le {base : Nat} {digits : Text} {v : Int}
    (h : boundedValue? base digits = some v) : v.natAbs ≤ greatestInteger := by
  rw [boundedValue?] at h
  split at h
  · cases h
  · obtain ⟨m, hm, rfl⟩ := Option.map_eq_some_iff.mp h
    exact of_decide_eq_true (Option.filter_eq_some_iff.mp hm).2

theorem integerValue?_le {literal : Text} {v : Int}
    (h : integerValue? literal = some v) :
    v.natAbs ≤ greatestInteger := by
  unfold integerValue? at h
  dsimp only at h
  split at h <;> exact boundedValue?_le h

/-- A sign keeps the bound of a value. -/
theorem natAbs_le_of_signed {value : ElementValue} {sign : Int → Int} {written : Text}
    {v : Int} (hsign : ∀ w, (sign w).natAbs = w.natAbs)
    (h : (match value with
      | .integer w => .integer (sign w)
      | _ => .expression written) = ElementValue.integer v)
    (hvalue : ∀ w, value = .integer w → w.natAbs ≤ greatestInteger) : v.natAbs ≤
      greatestInteger := by
  split at h
  · cases h
    rw [hsign]
    exact hvalue _ rfl
  · cases h

/-- **No value that is read is too great to be negated.** -/
theorem readValue_integer_le {n : Nat} {trees : List Tree} {v : Int}
    (h : readValue source n trees = .integer v) : v.natAbs ≤ greatestInteger := by
  -- only a literal is read to an integer, and signs and parentheses keep its
  -- size
  induction n generalizing trees v with
  | zero =>
    rw [readValue] at h
    cases h
  | succ n ih =>
    unfold readValue at h
    dsimp only at h
    split at h
    · split at h
      · cases h
      · split at h
        · next hliteral =>
          cases h
          exact integerValue?_le hliteral
        · cases h
      · split at h
        · cases h
        · split at h <;> cases h
      · cases h
    · split at h
      · cases h
      · split at h
        · exact ih h
        · cases h
    · split at h
      · split at h <;> cases h
      · split at h
        · exact natAbs_le_of_signed Int.natAbs_neg h fun _ => ih
        · split at h
          · exact natAbs_le_of_signed
              (fun w => congrArg Int.natAbs (id_eq w)) h fun _ => ih
          · split at h <;> cases h
    · cases h
end

/-! ## Signs and parentheses -/

/-- Signs and parentheses around an integer literal, with blanks and comments
between them: the text, the value of the literal and the value with all signs. A
sign does not stand right in front of itself. -/
inductive SignedInteger : (t : Text) → (magnitude : Nat) → (value : Int) → Prop
  | literal {t : Text} {m : Nat} (written : IntegerLiteral t m) : SignedInteger t m m
  | plus {between t : Text} {m : Nat} {v : Int} (filler : Code.Filler between)
      (operand : SignedInteger t m v) (apart : (between ++ t).head? ≠ some '+') :
      SignedInteger ('+' :: (between ++ t)) m v
  | minus {between t : Text} {m : Nat} {v : Int} (filler : Code.Filler between)
      (operand : SignedInteger t m v) (apart : (between ++ t).head? ≠ some '-') :
      SignedInteger ('-' :: (between ++ t)) m (-v)
  | parenthesized {before t after : Text} {m : Nat} {v : Int}
      (fillerBefore : Code.Filler before) (inside : SignedInteger t m v)
      (fillerAfter : Code.Filler after) :
      SignedInteger ('(' :: (before ++ (t ++ after) ++ [')'])) m v

/-- Trees are read as an integer if a bound is kept, and as no
value otherwise. -/
def ReadsInteger (m : Nat) (v : Int) (trees : List Tree) : Prop :=
  trees ≠ [] ∧ ∀ source n, Tree.sizes trees < n →
    if m ≤ greatestInteger then readValue source n trees = .integer v
    else ∃ text, readValue source n trees = .expression text

/-! ## Reading signs and parentheses -/

section

variable {source : Text} {n : Nat} {t : Token}

theorem readValue_integer (h : t.kind = .integer) : readValue source (n + 1) [.leaf t] =
    match integerValue? t.text with
    | some v => .integer v
    | none => .expression (spelledTrees source [.leaf t]) := by
  cases hvalue : integerValue? t.text <;> simp only [readValue, h, hvalue]

theorem readValue_minus (h : t.isSign "-" = true) (u : Tree) (rest : List Tree) :
    readValue source (n + 1) (.leaf t :: u :: rest) =
    match readValue source n (u :: rest) with
    | .integer v => .integer (-v)
    | _ => .expression (spelledTrees source (.leaf t :: u :: rest)) := by
  have hat := not_isSign h (b := "@") (by decide)
  rw [readValue.eq_def]
  dsimp only
  rw [if_neg (Bool.eq_false_iff.mp hat)]
  exact if_pos h

theorem readValue_plus (h : t.isSign "+" = true) (u : Tree) (rest : List Tree) :
    readValue source (n + 1) (.leaf t :: u :: rest) =
    match readValue source n (u :: rest) with
    | .integer v => .integer v
    | _ => .expression (spelledTrees source (.leaf t :: u :: rest)) := by
  have hat := not_isSign h (b := "@") (by decide)
  have hminus := not_isSign h (b := "-") (by decide)
  rw [readValue.eq_def]
  dsimp only
  rw [if_neg (Bool.eq_false_iff.mp hat), if_neg (Bool.eq_false_iff.mp hminus)]
  exact if_pos h

theorem readValue_group {l r : Token} (h : l.isSign "(" = true) {inner : List Tree}
    (hne : inner ≠ []) :
    readValue source (n + 1) [.group l inner r] = readValue source n inner := by
  have hbrace := not_isSign h (b := ['\x7b']) (by decide)
  have hsome : (!inner.isEmpty) = true := by simp [hne]
  rw [readValue, if_neg (Bool.eq_false_iff.mp hbrace),
    if_pos (Bool.and_eq_true_iff.mpr ⟨h, hsome⟩)]

end

namespace ReadsInteger

variable {m : Nat} {v : Int} {trees : List Tree} {t : Token}

theorem literal (hkind : t.kind = .integer) (written : IntegerLiteral t.text m) :
    ReadsInteger m m [.leaf t] := by
  refine ⟨List.cons_ne_nil _ _, fun source n hn => ?_⟩
  obtain ⟨n, rfl⟩ : ∃ k, n = k + 1 := Nat.exists_eq_add_one.mpr (Nat.zero_lt_of_lt hn)
  rw [readValue_integer hkind, written.integerValue?_eq]
  by_cases hm : m ≤ greatestInteger
  · simp only [if_pos hm]
  · simp only [if_neg hm]
    exact ⟨_, rfl⟩

/-- A sign changes a value that is read, and nothing else. -/
theorem signed {sign : Int → Int} (h : ReadsInteger m v trees)
    (hsign : ∀ source n u rest,
      ∃ written, readValue source (n + 1) (.leaf t :: u :: rest) =
      match readValue source n (u :: rest) with
      | .integer w => .integer (sign w)
      | _ => .expression written) : ReadsInteger m (sign v) (.leaf t :: trees) := by
  obtain ⟨hne, hread⟩ := h
  obtain ⟨u, rest, rfl⟩ := List.exists_cons_of_ne_nil hne
  refine ⟨List.cons_ne_nil _ _, fun source n hn => ?_⟩
  obtain ⟨n, rfl⟩ : ∃ k, n = k + 1 := Nat.exists_eq_add_one.mpr (Nat.zero_lt_of_lt hn)
  obtain ⟨written, hsigned⟩ := hsign source n u rest
  have hsize : Tree.sizes (.leaf t :: u :: rest) = 1 + Tree.sizes (u :: rest) := rfl
  have hinner := hread source n (by omega)
  rw [hsigned]
  by_cases hm : m ≤ greatestInteger
  · rw [if_pos hm] at hinner ⊢
    rw [hinner]
  · rw [if_neg hm] at hinner ⊢
    obtain ⟨text, htext⟩ := hinner
    rw [htext]
    exact ⟨written, rfl⟩

theorem plus (h : ReadsInteger m v trees) (ht : t.isSign "+" = true) :
    ReadsInteger m v (.leaf t :: trees) :=
  h.signed fun _ _ u rest => ⟨_, readValue_plus ht u rest⟩

theorem minus (h : ReadsInteger m v trees) (ht : t.isSign "-" = true) :
    ReadsInteger m (-v) (.leaf t :: trees) :=
  h.signed fun _ _ u rest => ⟨_, readValue_minus ht u rest⟩

theorem parenthesized (h : ReadsInteger m v trees) {left right : Token}
    (hleft : left.isSign "(" = true) : ReadsInteger m v [.group left trees right] := by
  refine ⟨List.cons_ne_nil _ _, fun source n hn => ?_⟩
  obtain ⟨n, rfl⟩ : ∃ k, n = k + 1 := Nat.exists_eq_add_one.mpr (Nat.zero_lt_of_lt hn)
  rw [readValue_group hleft h.1]
  refine h.2 source n ?_
  rw [Tree.sizes, Tree.size] at hn
  omega

end ReadsInteger

/-! ## What follows a literal or a sign -/

theorem endsNumber_of_blank {c : Char} (h : Char.isBlank c = true) :
    (c.isAlphanum || c == '_' || c == '.') = false := by
  have hall : ∀ n ∈ [9, 10, 11, 12, 13, 32] ++ wideBlanks, ((Char.ofNat n).isAlphanum ||
      Char.ofNat n == '_' || Char.ofNat n == '.') = false := by
    decide +kernel
  have hc := hall c.toNat (List.mem_append.mpr (isBlank_cases h))
  rwa [Char.ofNat_toNat] at hc

/-- A number goes no further where blanks, comments or a closing
parenthesis follow. -/
theorem endsNumber_filler {filler behind : Text} (h : Code.Filler filler) :
    EndsNumber (filler ++ ')' :: behind) := by
  intro c hc
  cases h with
  | nil | lineComment | blockComment =>
    cases hc
    rfl
  | blank blank _ =>
    cases hc
    exact endsNumber_of_blank blank

namespace SignedInteger

variable {t : Text} {m : Nat} {v : Int}

theorem head (h : SignedInteger t m v) : ∃ c rest, t = c :: rest ∧ c ≠ '>' := by
  cases h with
  | plus | minus | parenthesized => exact ⟨_, _, rfl, by decide⟩
  | literal written =>
    obtain ⟨c, rest, heq, hc⟩ := written.head
    refine ⟨c, rest, heq, ?_⟩
    rintro rfl
    cases hc

/-- A sign stands alone, unless what it stands in front of begins with it. -/
theorem isLexeme_sign {between behind : Text} {c : Char} (h : SignedInteger t m v)
    (filler : Code.Filler between) (hc : c = '+' ∨ c = '-')
    (apart : (between ++ t).head? ≠ some c) :
    IsLexeme (.token .sign) [c] (between ++ t ++ behind) := by
  obtain ⟨d, rest, rfl, hd⟩ := h.head
  refine isLexeme_plusMinus hc fun e he => ?_
  have hhead : (between ++ d :: rest ++ behind).head? = (between ++ d :: rest).head? :=
    by rw [List.head?_append_of_ne_nil _ (by simp)]
  rw [hhead] at he
  refine ⟨fun heq => apart (heq ▸ he), ?_⟩
  rintro rfl
  cases filler with
  | nil =>
    cases he
    exact hd rfl
  | lineComment | blockComment => cases he
  | blank blank _ =>
    cases he
    cases blank

theorem gives_sign {between behind : Text} {v' : Int} {c : Char} {position : Nat}
    (filler : Code.Filler between) (hc : c = '+' ∨ c = '-')
    (hsign : IsLexeme (.token .sign) [c] (between ++ t ++ behind))
    (hread : ∀ {trees : List Tree} {s : Token}, s.isSign [c] = true →
      ReadsInteger m v trees →
      ReadsInteger m v' (.leaf s :: trees))
    (h : Gives (position + 1 + between.length) t behind fun tokens =>
      ∃ trees, Bracketed tokens trees ∧ ReadsInteger m v trees) :
    Gives position (c :: (between ++ t)) behind fun tokens =>
      ∃ trees, Bracketed tokens trees ∧ ReadsInteger m v' trees := by
  have hoperand : Gives (position + 1) (between ++ t) behind fun tokens =>
      ∃ trees, Bracketed tokens trees ∧ ReadsInteger m v trees := Gives.skip filler h
  show Gives position ([c] ++ (between ++ t)) behind _
  refine Gives.append (.lexeme hsign position) hoperand ?_
  rintro _ tokens ⟨line, doc, rfl⟩ ⟨trees, htrees, hinteger⟩
  have hbracket : isBracket [c] = false := by rcases hc with rfl | rfl <;> rfl
  have hplain :=
    plain_of_not_isBracket (t := ⟨.sign, [c], position, line, doc⟩) hbracket
  exact ⟨_, .leaf hplain.1 hplain.2 htrees, hread (by simp [Token.isSign]) hinteger⟩

/-- **What is built around a literal is read as its signed value.** -/
theorem gives (h : SignedInteger t m v) (position : Nat) {behind : Text}
    (hends : EndsNumber behind) :
    Gives position t behind fun tokens =>
      ∃ trees, Bracketed tokens trees ∧ ReadsInteger m v trees := by
  induction h generalizing position behind with
  | @literal t m written =>
    refine (Gives.lexeme (written.isLexeme hends) position).mono ?_
    rintro _ ⟨line, doc, rfl⟩
    obtain ⟨c, rest, rfl, hc⟩ := written.head
    have hbracket : isBracket (c :: rest) = false := by
      obtain ⟨-, -, hsigns⟩ := digit_laws hc
      simp only [numberSigns, List.forall_mem_cons, beq_eq_false_iff_ne] at hsigns
      exact isBracket_cons (by simp [isBracket, bracketPairs, hsigns]) rest
    have hplain := plain_of_not_isBracket
      (t := ⟨.integer, c :: rest, position, line, doc⟩) hbracket
    exact ⟨_, .leaf hplain.1 hplain.2 .nil, .literal rfl written⟩
  | plus filler operand apart ih =>
    exact gives_sign filler (.inl rfl) (operand.isLexeme_sign filler (.inl rfl) apart)
      (fun hs hread => hread.plus hs) (ih _ hends)
  | minus filler operand apart ih =>
    exact gives_sign filler (.inr rfl) (operand.isLexeme_sign filler (.inr rfl) apart)
      (fun hs hread => hread.minus hs) (ih _ hends)
  | @parenthesized before t after m v fillerBefore inside fillerAfter ih =>
    -- A number inside ends at the blanks behind it or at the parenthesis.
    have hinside : Gives (position + 1) (before ++ (t ++ after))
        (')' :: behind) fun tokens =>
        ∃ trees, Bracketed tokens trees ∧ ReadsInteger m v trees := by
      refine Gives.skip fillerBefore
        (Gives.append (ih _ ?_) (gives_filler fillerAfter _ _) ?_)
      · exact endsNumber_filler fillerAfter
      · rintro tokens _ htrees rfl
        rwa [List.append_nil]
    refine (gives_group_holding (by decide : ('(', ')') ∈ bracketPairs) hinside).mono ?_
    rintro tokens ⟨left, inner, right, hgroup, hkind, htext, hread⟩
    exact ⟨_, hgroup, hread.parenthesized (by simp [Token.isSign, hkind, htext])⟩

end SignedInteger

/-- **Integers in annotations are exact.** A literal is read as its value when
that is at most the greatest long number, two to the power of 63 less one, and
not at all otherwise. Signs and parentheses around it, wherever they stand, are
read as the signed value of the literal in the first case, and as no value in
the second; the number bounds the nesting, and the reader of a declaration
begins with one for more tokens than there are. No value that is read of any
trees is too great to be negated. -/
theorem integers_read_exactly :
    (∀ t m, IntegerLiteral t m →
        integerValue? t = if m ≤ 9223372036854775807 then some (m : Int) else none) ∧
      (∀ t m v, SignedInteger t m v → ∀ position behind, EndsNumber behind →
        Gives position t behind fun tokens => ∃ trees, Bracketed tokens trees ∧
          ∀ source n, Tree.sizes trees < n →
            if m ≤ 9223372036854775807 then readValue source n trees = .integer v
            else ∃ text, readValue source n trees = .expression text) ∧
      ∀ source n trees v, readValue source n trees = .integer v →
        -9223372036854775807 ≤ v ∧ v ≤ 9223372036854775807 := by
  refine ⟨fun t m h => h.integerValue?_eq, fun t m v h position behind hends => ?_, ?_⟩
  · refine (h.gives position hends).mono ?_
    rintro tokens ⟨trees, htrees, -, hread⟩
    exact ⟨trees, htrees, hread⟩
  · intro source n trees v h
    have hle : v.natAbs ≤ 9223372036854775807 := readValue_integer_le h
    omega

theorem integers_read_exactly_sample :
    integerValue? "0x1_FL" = some 31 ∧
      Gives 0 "-(0x1_FL)" ")" fun tokens => ∃ trees, Bracketed tokens trees ∧
        ∀ source n, Tree.sizes trees < n →
          readValue source n trees = .integer (-31) := by
  have hone : IsDigit 16 '1' 1 := ⟨by decide, by decide⟩
  have hfifteen : IsDigit 16 'F' 15 := ⟨by decide, by decide⟩
  have hliteral : IntegerLiteral "0x1_FL" 31 :=
    .long (.hexadecimal (.inl rfl) (.more (.digit hone) 1 hfifteen)) (.inr rfl)
  have hsigned : SignedInteger "-(0x1_FL)" 31 (-31) :=
    .minus .nil (.parenthesized .nil (.literal hliteral) .nil) (by decide)
  have hends : EndsNumber ")" := by
    rintro _ ⟨⟩
    decide
  exact ⟨integers_read_exactly.1 _ _ hliteral,
    integers_read_exactly.2.1 _ _ _ hsigned 0 _ hends⟩

end Graft.Java
