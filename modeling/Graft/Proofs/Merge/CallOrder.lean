import Graft.Proofs.Merge.Changes
import Graft.Proofs.Merge.Spans

/-!
# Candidates in any order

Candidates for different members never meet: each is answered as it would be
alone, and the changes of any two commute but for the order in which things are
held back and noted. By induction on the steps of a permutation, the order in
which candidates are offered decides nothing else.
-/

namespace Graft.Merge

open Java Entity Code

namespace Session

/-- A session differs from another in the order of what is held back and of its
notes at most. -/
structure SameUpToOrder (s s' : Session) : Prop where
  site : s' = { s with pending := s'.pending, notes := s'.notes }
  pending : s.pending.Perm s'.pending
  notes : s.notes.Perm s'.notes

/-- The updates that a candidate makes in place to a session in the state `s`,
one after the other. Updates made before a refusal would stay. -/
def updateFrom (s : Session) (c : Candidate) :
    ExceptT SourceError (StateM Session) Action := do
  if s.isKept then return .skipped
  match s.findMember? c.signature with
  | none =>
    if s.pending.any (·.signature.isSameMember c.signature) then
      throw
        (.duplicateDefinition
          { entity := s.typeName, member := some c.signature.display })
    modify (·.apply (.holdBack ⟨c.signature, s.laidOut (ensureStamped c.code)⟩))
    return .inserted
  | some (index, m) =>
    if m.refreshed then throw (.duplicateDefinition (s.locationOf m))
    match m.provenance with
    | .keep =>
      modify (·.apply (.tell (.keptMember (s.locationOf m))))
      return .kept
    | .unmarked => throw (.unmarkedConflict (s.locationOf m))
    | .generated _ =>
      modify (·.apply (.rewrite index { m with refreshed := true }))
      if !s.isShared m && s.agrees m (ensureStamped c.code) then return .unchanged
      let replacement := some (s.laidOut (ensureStamped c.code))
      modify (·.apply (.rewrite index { m with refreshed := true, replacement }))
      return .replaced

/-- The updates that a candidate makes in place. -/
def update (c : Candidate) : ExceptT SourceError (StateM Session) Action := do
  updateFrom (← get) c

/-- Made in place, the updates of a candidate lead to the answer and to the
session behind it. -/
theorem run_update (s : Session) (c : Candidate) :
    (update c).run.run s = (s.answer c, s.perform c.call) := by
  rw [answer_eq, perform_eq, changeFor, decision]
  show (updateFrom s c).run.run s = _
  rw [updateFrom]
  by_cases hkept : s.isKept = true
  · rw [if_pos hkept, if_pos hkept]
    rfl
  · rw [if_neg hkept, if_neg hkept]
    cases s.findMember? c.signature with
    | none =>
      dsimp only
      split <;> rfl
    | some found =>
      obtain ⟨index, m⟩ := found
      dsimp only
      by_cases hrefreshed : m.refreshed = true
      · rw [if_pos hrefreshed, if_pos hrefreshed]
        rfl
      · rw [if_neg hrefreshed, if_neg hrefreshed]
        cases hprov : m.provenance with
        | unmarked => rfl
        | keep => rfl
        | generated hash =>
          dsimp only
          rw [← hprov, refreshedBy]
          by_cases hsame : (!s.isShared m && s.agrees m (ensureStamped c.code)) = true
          · rw [if_pos hsame, if_pos hsame, if_pos hsame]
            rfl
          · rw [if_neg hsame, if_neg hsame, if_neg hsame]
            -- the second update of the member overwrites the first
            have hset : ((s.apply (.rewrite index { m with refreshed := true })).apply
                (.rewrite index { m with
                  refreshed :=
                    true, replacement := some (s.laidOut (ensureStamped c.code)) })) =
                s.apply (.rewrite index { m with
                  refreshed := true,
                  replacement := some (s.laidOut (ensureStamped c.code)) }) := by
              simp only [apply, List.set_set]
            exact congrArg (Prod.mk _) hset

namespace SameUpToOrder

variable {s s' s'' : Session}

theorem refl (s : Session) : s.SameUpToOrder s := ⟨rfl, .refl _, .refl _⟩

theorem trans (h : s.SameUpToOrder s') (h' : s'.SameUpToOrder s'') :
    s.SameUpToOrder s'' where
  site := by
    rw [h'.site, h.site]
  pending := h.pending.trans h'.pending
  notes := h.notes.trans h'.notes

/-- Decisions do not depend on the order of what is held back. -/
theorem decision_eq (h : s.SameUpToOrder s') (c : Candidate) :
    s.decision c = s'.decision c := by
  have hpending : s.pending.any (·.signature.isSameMember c.signature) =
      s'.pending.any (·.signature.isSameMember c.signature) := by
    rw [Bool.eq_iff_iff, List.any_eq_true, List.any_eq_true]
    simp only [h.pending.mem_iff]
  rw [decision, decision, hpending, h.site]
  rfl

theorem apply (h : s.SameUpToOrder s') (change : Change) :
    (s.apply change).SameUpToOrder (s'.apply change) := by
  cases change with
  | nothing => exact h
  | holdBack p =>
    refine ⟨?_, h.pending.append_right [p], h.notes⟩
    rw [Session.apply, h.site]
    rfl
  | tell note =>
    refine ⟨?_, h.pending, h.notes.append_right [note]⟩
    rw [Session.apply, h.site]
    rfl
  | rewrite index m =>
    refine ⟨?_, h.pending, h.notes⟩
    rw [Session.apply, h.site]
    rfl

theorem perform (h : s.SameUpToOrder s') (c : Candidate) :
    (s.perform c.call).SameUpToOrder (s'.perform c.call) := by
  have hchange : s.changeFor c = s'.changeFor c := by
    rw [changeFor, changeFor, h.decision_eq]
  rw [perform_eq, perform_eq, hchange]
  exact h.apply _

theorem run (h : s.SameUpToOrder s') (cs : List Candidate) :
    (s.run (cs.map Candidate.call)).SameUpToOrder (s'.run (cs.map Candidate.call)) := by
  induction cs generalizing s s' with
  | nil => exact h
  | cons c rest ih => exact ih (h.perform c)

end SameUpToOrder

/-! ## Two candidates -/

/-- Changes commute unless they write the same member anew. -/
theorem apply_comm (s : Session) (x y : Change)
    (hclear : ∀ i j m n, x = .rewrite i m → y = .rewrite j n → i ≠ j) :
    ((s.apply x).apply y).SameUpToOrder ((s.apply y).apply x) := by
  have hswap : ∀ {α : Type} (l : List α) (a b : α),
      (l ++ [a] ++ [b]).Perm (l ++ [b] ++ [a]) := by
    intro α l a b
    rw [List.append_assoc, List.append_assoc]
    exact (List.Perm.swap b a []).append_left l
  -- only changes of one kind meet
  cases x with
  | nothing => exact .refl _
  | holdBack p =>
    cases y with
    | holdBack q => exact ⟨rfl, hswap s.pending p q, .refl _⟩
    | _ => exact .refl _
  | tell note =>
    cases y with
    | tell note' => exact ⟨rfl, .refl _, hswap s.notes note note'⟩
    | _ => exact .refl _
  | rewrite i m =>
    cases y with
    | rewrite j n =>
      have hset : ((s.apply (.rewrite i m)).apply (.rewrite j n)) =
          ((s.apply (.rewrite j n)).apply (.rewrite i m)) := by
        simp only [Session.apply, List.set_comm m n (hclear i j m n rfl rfl)]
      rw [hset]
      exact .refl _
    | _ => exact .refl _

/-- Candidates for different members can be offered either way round. -/
theorem perform_comm (s : Session) {c d : Candidate}
    (hkey : c.signature.key ≠ d.signature.key) :
    ((s.perform c.call).perform d.call).SameUpToOrder
      ((s.perform d.call).perform c.call) := by
  rw [perform_eq (s.perform c.call), perform_eq (s.perform d.call),
    changeFor_perform hkey, changeFor_perform hkey.symm, perform_eq, perform_eq]
  apply apply_comm
  intro i j m n hc hd hij
  -- one member would have the keys of both candidates
  obtain ⟨m₀, hm, hmkey⟩ := rewrites_of_changeFor hc
  obtain ⟨n₀, hn, hnkey⟩ := rewrites_of_changeFor hd
  have hsame := hm.at_
  rw [hij, hn.at_, Option.some.injEq] at hsame
  subst hsame
  exact hkey (hmkey.symm.trans hnkey)

/-! ## Any number of candidates -/

/-- Candidates are for different members. -/
def ForDifferent (cs : List Candidate) : Prop :=
  cs.Pairwise fun c d => c.signature.isSameMember d.signature = false

instance (cs : List Candidate) : Decidable (ForDifferent cs) :=
  inferInstanceAs (Decidable (List.Pairwise _ _))

theorem ForDifferent.keys {cs : List Candidate} (h : ForDifferent cs) :
    cs.Pairwise fun c d => c.signature.key ≠ d.signature.key := by
  apply List.Pairwise.imp _ h
  intro c d hcd hkey
  rw [(Signature.isSameMember_iff _ _).mpr hkey] at hcd
  cases hcd

/-- Among candidates for different members, each is answered as it
would be alone. -/
theorem answers_of_different {s : Session} {cs : List Candidate}
    (h : cs.Pairwise fun c d => c.signature.key ≠ d.signature.key) :
    s.answers (cs.map Candidate.call) = cs.map fun c => (c, s.answer c) := by
  induction h generalizing s with
  | nil => rfl
  | @cons c rest hhead _ ih =>
    show (c, s.answer c) :: (s.perform c.call).answers (rest.map Candidate.call) = _
    rw [ih, List.map_cons]
    congr 1
    apply List.map_congr_left
    intro d hd
    rw [answer_perform (hhead d hd)]

/-- Candidates for different members lead to the same session in any order. -/
theorem run_perm {cs ds : List Candidate} (hperm : cs.Perm ds)
    (h : cs.Pairwise fun c d => c.signature.key ≠ d.signature.key) (s : Session) :
    (s.run (cs.map Candidate.call)).SameUpToOrder (s.run (ds.map Candidate.call)) := by
  -- on the steps of the permutation: neighbours that change places commute
  induction hperm generalizing s with
  | nil => exact .refl s
  | cons c _ ih => exact ih (List.pairwise_cons.mp h).2 (s.perform c.call)
  | swap c d rest =>
    have hkey : d.signature.key ≠ c.signature.key :=
      (List.pairwise_cons.mp h).1 c List.mem_cons_self
    exact (perform_comm s hkey).run rest
  | trans hfirst _ ih ih' =>
    exact (ih h s).trans (ih' ((hfirst.pairwise_iff fun h => Ne.symm h).mp h) s)

end Session

/-- **The order of the candidates does not matter.** Offered in two orders,
candidates for different members are each answered the same, with the same
reason when they are refused, and lead to the same members in the same states,
and to the same candidates held back and the same notes up to their order.
Updates made in place leave the session as it was when they end in a refusal, so
that a refused candidate can be left out. -/
theorem define_in_any_order (s : Session) {cs ds : List Candidate} (same : cs.Perm ds)
    (different : Session.ForDifferent cs) :
    (s.answers (cs.map Candidate.call)).Perm (s.answers (ds.map Candidate.call)) ∧
    (∀ c ∈ cs, ∀ r, (c, r) ∈ s.answers (cs.map Candidate.call) ↔ r = s.answer c) ∧
    (s.run (cs.map Candidate.call)).members = (s.run (ds.map Candidate.call)).members ∧
    (s.run (cs.map Candidate.call)).SameUpToOrder (s.run (ds.map Candidate.call)) ∧
    ∀ (front back : List Candidate) (c : Candidate) (e : SourceError),
      (s.run (front.map Candidate.call)).answer c = .error e →
        (Session.update c).run.run (s.run (front.map Candidate.call)) =
          (.error e, s.run (front.map Candidate.call)) ∧
        s.run ((front ++ c :: back).map Candidate.call) =
          s.run ((front ++ back).map Candidate.call) ∧
        s.answers ((front ++ c :: back).map Candidate.call) =
          s.answers (front.map Candidate.call) ++
            (c, .error e) :: (s.run (front.map Candidate.call)).answers
              (back.map Candidate.call) := by
  have hkeys := different.keys
  have hkeys' := (same.pairwise_iff fun h => Ne.symm h).mp hkeys
  have hrun := Session.run_perm same hkeys s
  refine ⟨?_, ?_, ?_, hrun, ?_⟩
  · rw [Session.answers_of_different hkeys, Session.answers_of_different hkeys']
    exact same.map _
  · intro c hc r
    rw [Session.answers_of_different hkeys, List.mem_map]
    constructor
    · rintro ⟨d, -, heq⟩
      cases heq
      rfl
    · rintro rfl
      exact ⟨c, hc, rfl⟩
  · rw [hrun.site]
  -- a candidate that is refused leaves the session as it was
  · intro front back c e hrefused
    have hsame : (s.run (front.map Candidate.call)).perform c.call =
        s.run (front.map Candidate.call) := by
      rw [Session.perform_eq, Session.changeFor_of_refused hrefused, Session.apply]
    refine ⟨?_, ?_, ?_⟩
    · rw [Session.run_update, hrefused, hsame]
    · rw [List.map_append, List.map_append, List.map_cons, Session.run_append,
        Session.run_append, Session.run_cons, hsame]
    · rw [List.map_append, List.map_cons, Session.answers_append]
      show _ ++ (c, Session.answer _ c) :: (Session.perform _ c.call).answers _ = _
      rw [hrefused, hsame]

namespace Sample

/-- Candidates for the sample: one that replaces a generated field, one
for a field written by hand, one for the method that is kept, and one
for a new method. -/
def offers : List Candidate :=
  [⟨.field "a", "int a = 1;"⟩, ⟨.field "x", "int x;"⟩,
    ⟨.method "f" [], "void f() \x7b\x7d"⟩,
    ⟨.method "g" ["int".toList], "int g(int n) \x7b\nreturn n;\n\x7d"⟩]

end Sample

/-- Offered backwards, the candidates for the sample are answered the same; the
one for the field written by hand is refused and can be left out. -/
theorem define_in_any_order_sample :
    let s := Session.ofType Sample.source "A" Sample.unit Sample.type 1 {}
    Sample.offers.Perm Sample.offers.reverse ∧ Session.ForDifferent Sample.offers ∧
    (s.run (Sample.offers.map Candidate.call)).members =
      (s.run (Sample.offers.reverse.map Candidate.call)).members ∧
    s.answers (Sample.offers.map Candidate.call) = Sample.offers.zip
      [.ok .replaced, .error (.unmarkedConflict ⟨"A", some "x", some 2⟩), .ok .kept,
        .ok .inserted] := by
  intro s
  have same : Sample.offers.Perm Sample.offers.reverse := (List.reverse_perm _).symm
  have different : Session.ForDifferent Sample.offers := by decide +kernel
  obtain ⟨-, -, hmembers, -, -⟩ := define_in_any_order s same different
  exact ⟨same, different, hmembers, by decide +kernel⟩

end Graft.Merge
