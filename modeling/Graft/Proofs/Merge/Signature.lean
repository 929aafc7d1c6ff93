import Graft.Merge.Signature

/-!
# What a signature is recognised by

Two signatures stand for the same member exactly when their keys are equal:
kind, name, and the parameter types cut down to last names. Being the same
member is therefore an equivalence.
-/

namespace Graft.Merge

/-- A type text as far as it matters for the comparison of types. -/
def typeKey (t : Text) : Text := simpleType (normalizeType t)

theorem typesMatch_iff (a b : Text) :
    typesMatch a b = true ↔ typeKey a = typeKey b := by
  simp only [typesMatch, typeKey, Bool.or_eq_true, beq_iff_eq]
  constructor
  · rintro (h | h)
    · rw [h]
    · exact h
  · exact .inr

namespace Signature

/-- What a signature is recognised by. -/
structure Key where
  kind : MemberKind
  name : Text
  parameters : List Text
  deriving DecidableEq, Repr

/-- The key of a signature. -/
def key (s : Signature) : Key := ⟨s.kind, s.name, s.parameters.map typeKey⟩

theorem parametersMatch_iff (as bs : List Text) :
    parametersMatch as bs = true ↔ as.map typeKey = bs.map typeKey := by
  induction as generalizing bs with
  | nil => cases bs <;> simp [parametersMatch]
  | cons a as ih =>
    cases bs with
    | nil => simp [parametersMatch]
    | cons b bs => simp [parametersMatch, typesMatch_iff, ih]

theorem isSameMember_iff (a b : Signature) :
    a.isSameMember b = true ↔ a.key = b.key := by
  simp only [isSameMember, key, Bool.and_eq_true, beq_iff_eq, parametersMatch_iff,
    Key.mk.injEq, and_assoc]

theorem isSameMember_eq (a b : Signature) :
    a.isSameMember b = decide (a.key = b.key) := by
  rw [Bool.eq_iff_iff, isSameMember_iff, decide_eq_true_iff]

end Signature

end Graft.Merge
