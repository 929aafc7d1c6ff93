import Graft.Proofs.Merge.Changes

/-!
# Overloads with the same last names

Overloads whose parameter types differ in their packages alone stand for the
same member. A candidate goes to the first of them, whichever is spelled like it
(`define_goes_to_first`), and no call of a pass ever reaches another one
(`run_leaves_shadowed`).
-/

namespace Graft.Merge

open Java Entity Code

/-- Two signatures have the same kind, name and parameter types as they are
written, but for blanks and the spelling of a variable arity. -/
def Signature.IsSpelledLike (a b : Signature) : Prop :=
  a.kind = b.kind ∧ a.name = b.name ∧
    a.parameters.map normalizeType = b.parameters.map normalizeType

instance (a b : Signature) : Decidable (a.IsSpelledLike b) :=
  inferInstanceAs (Decidable (_ ∧ _ ∧ _))

theorem Signature.IsSpelledLike.key_eq {a b : Signature} (h : a.IsSpelledLike b) :
    a.key = b.key := by
  obtain ⟨hkind, hname, hparameters⟩ := h
  have hkeys : ∀ c : Signature,
      c.parameters.map typeKey = (c.parameters.map normalizeType).map simpleType := by
    intro c
    rw [List.map_map]
    rfl
  rw [key, key, hkind, hname, hkeys a, hkeys b, hparameters]

namespace Session

/-- The member at an index is the first of those that a signature stands for. -/
structure IsFirst (s : Session) (signature : Signature) (index : Nat)
    (m : Member) : Prop where
  at_ : s.members[index]? = some m
  same : m.signature.isSameMember signature = true
  before : ∀ k n, k < index → s.members[k]? = some n →
    n.signature.isSameMember signature = false

/-- A candidate acts on the member at an index: what was decided about the
member and who looks after it settle the answer, and no other member changes. -/
def ActsOn (s : Session) (signature : Signature) (code : Text) (index : Nat)
    (m : Member) : Prop :=
  s.define signature code =
    if m.refreshed then .error (.duplicateDefinition (s.locationOf m))
    else match m.provenance with
      | .unmarked => .error (.unmarkedConflict (s.locationOf m))
      | .keep =>
        .ok ({ s with notes := s.notes ++ [.keptMember (s.locationOf m)] }, .kept)
      | .generated _ =>
        .ok
          ({ s with
              members := s.members.set index (s.refreshedBy m (ensureStamped code)) },
            if !s.isShared m && s.agrees m (ensureStamped code) then .unchanged
            else .replaced)

theorem isFirst_iff {s : Session} {signature : Signature} {index : Nat} {m : Member} :
    s.IsFirst signature index m ↔ s.Finds signature index m := by
  have hdiffers : ∀ n : Member, n.signature.isSameMember signature = false ↔
      n.signature.key ≠ signature.key := by
    intro n
    rw [Signature.isSameMember_eq, decide_eq_false_iff_not]
  constructor
  · intro h
    have hkey := (Signature.isSameMember_iff _ _).mp h.same
    refine ⟨indexOf?_eq_some_iff.mpr
      ⟨⟨m, h.at_, hkey⟩, fun k n hk hn => ?_⟩, h.at_, hkey⟩
    exact (hdiffers n).mp (h.before k n hk hn)
  · intro h
    obtain ⟨-, hbefore⟩ := indexOf?_eq_some_iff.mp h.first
    exact ⟨h.at_, (Signature.isSameMember_iff _ _).mpr h.key,
      fun k n hk hn => (hdiffers n).mpr (hbefore k n hk hn)⟩

/-- If a signature stands for a member at all, it stands for a first one. -/
theorem exists_isFirst {s : Session} {signature : Signature} {i : Nat} {m : Member}
    (hm : s.members[i]? = some m) (hkey : m.signature.key = signature.key) :
    ∃ j first, j ≤ i ∧ s.IsFirst signature j first := by
  cases hindex : s.indexOf? signature with
  | none =>
    exact absurd hkey (indexOf?_eq_none_iff.mp hindex m (List.mem_of_getElem? hm))
  | some j =>
    obtain ⟨⟨first, hfirst, hfirstKey⟩, hbefore⟩ := indexOf?_eq_some_iff.mp hindex
    refine ⟨j, first, ?_, isFirst_iff.mpr ⟨hindex, hfirst, hfirstKey⟩⟩
    rw [← Nat.not_lt]
    exact fun hlt => hbefore i m hlt hm hkey

/-- A candidate acts on the first member that its signature stands for. -/
theorem IsFirst.actsOn {s : Session} {signature : Signature} {index : Nat} {m : Member}
    (h : s.IsFirst signature index m) (free : s.isKept = false) (code : Text) :
    s.ActsOn signature code index m := by
  have hfound : s.findMember? signature = some (index, m) :=
    finds_iff.mpr (isFirst_iff.mp h)
  have hdecision := define_eq s ⟨signature, code⟩
  rw [decision, if_neg (by simp [free]), hfound] at hdecision
  rw [ActsOn, hdecision]
  dsimp only
  by_cases hrefreshed : m.refreshed = true
  · rw [if_pos hrefreshed, if_pos hrefreshed]
    rfl
  · rw [if_neg hrefreshed, if_neg hrefreshed]
    cases m.provenance <;> rfl

end Session

/-- **A candidate goes to the first member that agrees by last names.** If a
member is spelled like the request, the call acts on the first member in source
order of that kind and name whose parameter types agree without their packages;
that is the member spelled like it exactly when no earlier one agrees. A type
that is kept as a whole skips the call. -/
theorem define_goes_to_first (s : Session) {signature : Signature} {i : Nat}
    {m : Member} (hm : s.members[i]? = some m)
    (spelled : m.signature.IsSpelledLike signature) (code : Text) :
    (s.isKept = true → s.define signature code = .ok (s, .skipped)) ∧
    (s.isKept = false → ∃ j first, j ≤ i ∧ s.IsFirst signature j first ∧
      s.ActsOn signature code j first ∧
      (j = i ↔ ∀ k n, k < i → s.members[k]? = some n →
        n.signature.isSameMember signature = false)) := by
  constructor
  · intro kept
    rw [Session.define, if_pos kept]
  · intro free
    obtain ⟨j, first, hle, hfirst⟩ := Session.exists_isFirst hm spelled.key_eq
    refine ⟨j, first, hle, hfirst, hfirst.actsOn free code, ?_⟩
    constructor
    · rintro rfl
      exact hfirst.before
    · intro hnone
      rcases Nat.lt_or_eq_of_le hle with hlt | heq
      · have hagrees := hnone j first hlt hfirst.at_
        rw [hfirst.same] at hagrees
        cases hagrees
      · exact heq

/-- **A shadowed overload is out of reach.** Whatever a pass asks for, a member
behind another one of the same kind, name and last names of parameter types
stays as it was. -/
theorem run_leaves_shadowed {s : Session} (fresh : s.IsFresh) {i j : Nat}
    {m earlier : Member} (hm : s.members[i]? = some m)
    (hearlier : s.members[j]? = some earlier) (hlt : j < i)
    (same : earlier.signature.isSameMember m.signature = true) (calls : List Call) :
    (s.run calls).members[i]? = some m := by
  -- no signature leads to the member: not even its own is found there first
  have hindex : s.indexOf? m.signature ≠ some i := by
    intro h
    exact (Session.indexOf?_eq_some_iff.mp h).2 j earlier hlt hearlier
      ((Signature.isSameMember_iff _ _).mp same)
  obtain ⟨calls', hreached⟩ := Session.exists_reached fresh calls
  rw [hreached.members, hm, Option.map_some, Session.settled, if_neg (by simp [hindex])]

namespace OverloadSample

/-- Two overloads, the first one written by hand. -/
def source : Text :=
  "class A \x7b\n    void set(a.Item x) \x7b\x7d\n" ++
    "    @Generated(hash = 1) void set(b.Item x) \x7b\x7d\n\x7d\n"

/-- A session over the class. -/
def session : Session :=
  let unit := CompilationUnit.read source
  Session.ofType source "A" unit unit.types.head! 1 {}

/-- A request for the second overload, spelled as it is in the source. -/
def request : Signature := .method "set" ["b.Item".toList]

/-- The code that the second overload has already. -/
def code : Text := "@Generated(hash = 1) void set(b.Item x) \x7b\x7d"

end OverloadSample

/-- In the sample, the request for the second overload goes to the first. -/
theorem define_goes_to_first_sample :
    ((OverloadSample.session.members[1]?).map (·.signature)) =
      some OverloadSample.request ∧
    ∃ first, OverloadSample.session.IsFirst OverloadSample.request 0 first ∧
      OverloadSample.session.ActsOn OverloadSample.request
        OverloadSample.code 0 first := by
  have hsignature : ((OverloadSample.session.members[1]?).map (·.signature)) =
      some OverloadSample.request := by decide +kernel
  obtain ⟨m, hm, hrequest⟩ := Option.map_eq_some_iff.mp hsignature
  have spelled : m.signature.IsSpelledLike OverloadSample.request := by
    rw [hrequest]
    exact ⟨rfl, rfl, rfl⟩
  obtain ⟨-, hfree⟩ :=
    define_goes_to_first OverloadSample.session hm spelled OverloadSample.code
  obtain ⟨j, first, hle, hfirst, hacts, -⟩ := hfree (by decide +kernel)
  have hindex : OverloadSample.session.indexOf? OverloadSample.request = some 0 := by
    decide +kernel
  obtain rfl : j = 0 := by
    have := (Session.isFirst_iff.mp hfirst).first
    rw [hindex] at this
    exact (Option.some.inj this).symm
  exact ⟨hsignature, first, hfirst, hacts⟩

/-- **The request for an overload meets another one.** The second overload
is generated and spelled like the request, yet the call is refused for the
first, which is written by hand; and the second, held against no
candidate, is removed. -/
theorem spelled_alike_is_passed_over :
    OverloadSample.session.members.map Member.signature =
      [.method "set" ["a.Item".toList], OverloadSample.request] ∧
    OverloadSample.session.members.map Member.provenance =
      [.unmarked, .generated (some 1)] ∧
    OverloadSample.session.answer ⟨OverloadSample.request, OverloadSample.code⟩ =
      .error (.unmarkedConflict ⟨"A", some "set(a.Item)", some 2⟩) ∧
    (OverloadSample.session.run
      [.define OverloadSample.request OverloadSample.code]).write =
      .ok (some "class A \x7b\n    void set(a.Item x) \x7b\x7d\n\x7d\n") := by
  decide +kernel

end Graft.Merge
