import Mathlib.Algebra.BigOperators.Fin
import Mathlib.Data.Int.ModEq
import Mathlib.Tactic.Ring
import Graft.Proofs.Code.Boundaries
import Graft.Proofs.Text.Units

/-!
# Hashes as polynomials

The hash of a text is the polynomial with the UTF-16 units of the text as
coefficients, taken at 31 and modulo 2 ^ 32. It is computed by Horner's rule, in
arithmetic that wraps around.

* `toInt_foldl` is Horner's rule from any value on.
* `hash_is_polynomial` gives the hash of every text, and the hash of two texts
  behind one another from the hashes of the two; the structural hash follows at
  every boundary of code.
-/

namespace Graft.Code

/-- The units of a text as coefficients of the powers of 31, the last one of
the power zero. -/
def polynomialAt31 (units : List Nat) : ℤ :=
  ∑ i : Fin units.length, (units[i] : ℤ) * 31 ^ (units.length - 1 - i)

theorem polynomialAt31_cons (u : Nat) (units : List Nat) :
    polynomialAt31 (u :: units) = u * 31 ^ units.length + polynomialAt31 units := by
  refine (Fin.sum_univ_succ _).trans
    (congrArg₂ _ rfl (Finset.sum_congr rfl fun i _ => ?_))
  have hpower : (u :: units).length - 1 - (i.succ : ℕ) = units.length - 1 - i := by
    rw [List.length_cons, Fin.val_succ]
    omega
  rw [hpower]
  rfl

/-! ## Arithmetic that wraps around -/

theorem bmod_modEq (x : ℤ) : x.bmod (2 ^ 32) ≡ x [ZMOD 2 ^ 32] := Int.bmod_emod

/-- A number of 32 bits is known by its remainder. -/
theorem eq_of_modEq {g h : Int32} (heq : g.toInt ≡ h.toInt [ZMOD 2 ^ 32]) : g = h := by
  have hmod : ∀ x : Int32, (x.toInt % 2 ^ 32).bmod (2 ^ 32) = x.toInt := fun x =>
    (Int.emod_bmod x.toInt (2 ^ 32)).trans x.toInt_bmod
  rw [← Int32.toInt_inj, ← hmod g, ← hmod h, heq]

/-- One step of the hash. -/
theorem toInt_step (h : Int32) (u : Nat) :
    (h * 31 + Int32.ofNat u).toInt ≡ h.toInt * 31 + u [ZMOD 2 ^ 32] := by
  have hproduct : (h * 31).toInt ≡ h.toInt * 31 [ZMOD 2 ^ 32] := by
    rw [Int32.toInt_mul]
    exact bmod_modEq _
  have hunit : (Int32.ofNat u).toInt ≡ u [ZMOD 2 ^ 32] := by
    rw [Int32.toInt_ofNat']
    exact bmod_modEq _
  rw [Int32.toInt_add]
  exact (bmod_modEq _).trans (hproduct.add hunit)

/-- **Horner's rule**, started with any value. -/
theorem toInt_foldl (units : List Nat) (h : Int32) :
    (units.foldl (fun h u => h * 31 + Int32.ofNat u) h).toInt ≡
      h.toInt * 31 ^ units.length + polynomialAt31 units [ZMOD 2 ^ 32] := by
  induction units generalizing h with
  | nil => simp [polynomialAt31]
  | cons u units ih =>
    rw [List.foldl_cons, List.length_cons, polynomialAt31_cons]
    calc
      _ ≡ (h * 31 + Int32.ofNat u).toInt * 31 ^ units.length + polynomialAt31 units
        [ZMOD 2 ^ 32] :=
        ih _
      _ ≡ (h.toInt * 31 + u) * 31 ^ units.length + polynomialAt31 units [ZMOD 2 ^ 32] :=
        ((toInt_step h u).mul_right _).add_right _
      _ = h.toInt * 31 ^ (units.length + 1) +
        (u * 31 ^ units.length + polynomialAt31 units) := by
        ring

/-! ## Hashes of texts -/

theorem toInt_textHash (t : Text) :
    (textHash t).toInt ≡ polynomialAt31 t.units [ZMOD 2 ^ 32] := by
  have hfold := toInt_foldl t.units 0
  rwa [Int32.toInt_zero, Int.zero_mul, Int.zero_add] at hfold

/-- The hash of two texts behind one another. -/
theorem toInt_textHash_append (a b : Text) : (textHash (a ++ b)).toInt ≡
    (textHash a).toInt * 31 ^ b.units.length + (textHash b).toInt [ZMOD 2 ^ 32] := by
  have hfold : textHash (a ++ b) =
      b.units.foldl (fun h u => h * 31 + Int32.ofNat u) (textHash a) := by
    rw [textHash, Text.units_append, List.foldl_append, textHash]
  rw [hfold]
  exact (toInt_foldl b.units (textHash a)).trans ((toInt_textHash b).symm.add_left _)

theorem textHash_eq_iff (t : Text) (h : Int32) :
    textHash t = h ↔ h.toInt ≡ polynomialAt31 t.units [ZMOD 2 ^ 32] := by
  constructor
  · rintro rfl
    exact toInt_textHash t
  · exact fun hsum => eq_of_modEq ((toInt_textHash t).trans hsum.symm)

/-- **The hash is a polynomial** in 31, modulo 2 ^ 32, of the UTF-16 units of
the text. Behind a text of `m` units more, the hash of the text in front counts
`31 ^ m` times; at a boundary of code the structural hash does, with the units
of the normalized code that follows. -/
theorem hash_is_polynomial :
    (∀ (t : Text) (units : List Nat), t.IsUtf16 units ↔ t.units = units) ∧
    (∀ (t : Text) (h : Int32), textHash t = h ↔ h.toInt ≡
      ∑ i : Fin t.units.length,
      (t.units[i] : ℤ) * 31 ^ (t.units.length - 1 - i) [ZMOD 2 ^ 32]) ∧
    (∀ a b : Text, (textHash (a ++ b)).toInt ≡
      (textHash a).toInt * 31 ^ b.units.length + (textHash b).toInt [ZMOD 2 ^ 32]) ∧
    (∀ p s : Text, AtBoundary p → (structuralHash (p ++ s)).toInt ≡
      (structuralHash p).toInt * 31 ^ (normalize s).units.length +
        (structuralHash s).toInt
        [ZMOD 2 ^ 32]) := by
  refine ⟨Text.isUtf16_iff, textHash_eq_iff, toInt_textHash_append,
    fun p s boundary => ?_⟩
  rw [structuralHash, boundary.normalize_append]
  exact toInt_textHash_append (normalize p) (normalize s)

/-- A character of two units, a sum that wraps around, and a boundary
behind a comment. -/
theorem hash_is_polynomial_sample :
    Text.IsUtf16 ['a', '😀'] [97, 0xD83D, 0xDE00] ∧
    textHash "Hello World" = -862545276 ∧
    (textHash (['a'] ++ ['😀'])).toInt ≡ (textHash ['a']).toInt * 31 ^ 2 +
      (textHash ['😀']).toInt
      [ZMOD 2 ^ 32] ∧
    AtBoundary "c = '/'; // \"\n" ∧
    (structuralHash ("c = '/'; // \"\n" ++ "/ d;")).toInt ≡
      (structuralHash "c = '/'; // \"\n").toInt * 31 ^ 3 + (structuralHash "/ d;").toInt
        [ZMOD 2 ^ 32] := by
  obtain ⟨hunits, hsum, happend, hboundary⟩ := hash_is_polynomial
  have boundary : AtBoundary "c = '/'; // \"\n" := by decide +kernel
  refine ⟨(hunits _ _).mpr (by decide +kernel), (hsum _ _).mpr (by decide +kernel),
    ?_, boundary, ?_⟩
  · exact happend ['a'] ['😀']
  · exact hboundary _ "/ d;" boundary

end Graft.Code
