import Graft.Text.Units

/-!
# UTF-16 units

A character has one unit or two, and only a pair of surrogates begins with a
high one, so that a text is known by its units (`units_injective`). The units
are the one encoding of the text (`isUtf16_iff`).
-/

namespace Graft.Text

@[simp] theorem units_cons (c : Char) (t : Text) :
    units (c :: t) = unitsOfChar c ++ units t := rfl

theorem unitsOfChar_small {c : Char} (h : c.toNat < 0x10000) :
    unitsOfChar c = [c.toNat] := by
  rw [unitsOfChar]
  exact if_pos h

theorem unitsOfChar_pair {c : Char} (h : ¬ c.toNat < 0x10000) : unitsOfChar c =
    [0xD800 + (c.toNat - 0x10000) / 0x400, 0xDC00 + (c.toNat - 0x10000) % 0x400] := by
  rw [unitsOfChar]
  exact if_neg h

theorem unitsOfChar_ne_nil (c : Char) : unitsOfChar c ≠ [] := by
  by_cases h : c.toNat < 0x10000
  · rw [unitsOfChar_small h]
    exact List.cons_ne_nil _ _
  · rw [unitsOfChar_pair h]
    exact List.cons_ne_nil _ _

/-- No character is a surrogate. -/
theorem not_surrogate (c : Char) :
    c.toNat < 0xD800 ∨ 0xDFFF < c.toNat ∧ c.toNat < 0x110000 := c.valid

/-- The first character is known by the units in front. -/
theorem unitsOfChar_append_inj {c d : Char} {x y : List Nat}
    (h : unitsOfChar c ++ x = unitsOfChar d ++ y) : c = d ∧ x = y := by
  have hc := not_surrogate c
  have hd := not_surrogate d
  by_cases hc' : c.toNat < 0x10000 <;> by_cases hd' : d.toNat < 0x10000
  · rw [unitsOfChar_small hc', unitsOfChar_small hd'] at h
    obtain ⟨hfirst, hrest⟩ := List.cons.inj h
    exact ⟨Char.toNat_inj.mp hfirst, hrest⟩
  · rw [unitsOfChar_small hc', unitsOfChar_pair hd'] at h
    have hfirst := (List.cons.inj h).1
    omega
  · rw [unitsOfChar_pair hc', unitsOfChar_small hd'] at h
    have hfirst := (List.cons.inj h).1
    omega
  · rw [unitsOfChar_pair hc', unitsOfChar_pair hd'] at h
    obtain ⟨hfirst, hmore⟩ := List.cons.inj h
    obtain ⟨hsecond, hrest⟩ := List.cons.inj hmore
    exact ⟨Char.toNat_inj.mp (by omega), hrest⟩

theorem length_le_length_units (t : Text) : t.length ≤ (units t).length := by
  induction t with
  | nil => exact Nat.le_refl _
  | cons c t ih =>
    have hpos := List.length_pos_iff.mpr (unitsOfChar_ne_nil c)
    rw [units_cons, List.length_append, List.length_cons]
    omega

/-- **A text is known by its units.** -/
theorem units_injective {s t : Text} (h : units s = units t) : s = t := by
  induction s generalizing t with
  | nil =>
    cases t with
    | nil => rfl
    | cons d t =>
      exact absurd (List.append_eq_nil_iff.mp h.symm).1 (unitsOfChar_ne_nil d)
  | cons c s ih =>
    cases t with
    | nil => exact absurd (List.append_eq_nil_iff.mp h).1 (unitsOfChar_ne_nil c)
    | cons d t =>
      obtain ⟨rfl, hrest⟩ := unitsOfChar_append_inj h
      rw [ih hrest]

/-! ## The encoding -/

/-- A text is encoded by units: a character below 0x10000 by its code point, any
other one by the two surrogates that its code point is put together from. -/
inductive IsUtf16 : Text → List Nat → Prop
  | nil : IsUtf16 [] []
  | small {c : Char} {t : Text} {rest : List Nat} (small : c.toNat < 0x10000)
      (more : IsUtf16 t rest) :
      IsUtf16 (c :: t) (c.toNat :: rest)
  | pair {c : Char} {t : Text} {high low : Nat} {rest : List Nat}
      (isHigh : 0xD800 ≤ high ∧ high < 0xDC00) (isLow : 0xDC00 ≤ low ∧ low < 0xE000)
      (point : c.toNat = 0x10000 + (high - 0xD800) * 0x400 + (low - 0xDC00))
      (more : IsUtf16 t rest) : IsUtf16 (c :: t) (high :: low :: rest)

/-- Every text is encoded by its units. -/
theorem isUtf16_units (t : Text) : IsUtf16 t (units t) := by
  induction t with
  | nil => exact .nil
  | cons c t ih =>
    have hc := not_surrogate c
    rw [units_cons]
    by_cases hsmall : c.toNat < 0x10000
    · rw [unitsOfChar_small hsmall]
      exact .small hsmall ih
    · rw [unitsOfChar_pair hsmall]
      exact .pair (by omega) (by omega) (by omega) ih

/-- **The units of a text are its only encoding.** -/
theorem isUtf16_iff (t : Text) (us : List Nat) : IsUtf16 t us ↔ units t = us := by
  constructor
  · intro h
    induction h with
    | nil => rfl
    | small hsmall _ ih =>
      rw [units_cons, unitsOfChar_small hsmall, ih, List.singleton_append]
    | @pair c t high low rest isHigh isLow point _ ih =>
      have hlarge : ¬ c.toNat < 0x10000 := by omega
      have hhigh : 0xD800 + (c.toNat - 0x10000) / 0x400 = high := by omega
      have hlow : 0xDC00 + (c.toNat - 0x10000) % 0x400 = low := by omega
      rw [units_cons, unitsOfChar_pair hlarge, hhigh, hlow, ih]
      rfl
  · rintro rfl
    exact isUtf16_units t

end Graft.Text
