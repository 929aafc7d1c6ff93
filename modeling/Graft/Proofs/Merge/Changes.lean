import Graft.Proofs.Merge.Pass

/-!
# What a candidate changes

A candidate makes one change to a session at most: something is held back, a
note is left, or one member is written anew (`Change`). `Session.decision` says
which change it is and what is answered, and `define_eq` that this is all that
`define` does. The decision on a candidate reads the session only where the key
of its signature leads, so it is the same before and after a change made for
another key (`decision_perform`).
-/

namespace Graft.Merge

open Java Entity Code

/-- The call that offers code for a signature. -/
def Candidate.call (c : Candidate) : Call := .define c.signature c.code

/-- What a candidate changes in a session. -/
inductive Change where
  /-- Nothing. -/
  | nothing
  /-- A candidate that matches no member is held back. -/
  | holdBack (p : Pending)
  /-- A note is left. -/
  | tell (note : Note)
  /-- The member at an index is put in another state. -/
  | rewrite (index : Nat) (m : Member)

namespace Session

/-- A session with a change made to it. -/
def apply (s : Session) : Change → Session
  | .nothing => s
  | .holdBack p => { s with pending := s.pending ++ [p] }
  | .tell note => { s with notes := s.notes ++ [note] }
  | .rewrite index m => { s with members := s.members.set index m }

/-- The change that a candidate makes and the answer to it, or the
reason to refuse it. -/
def decision (s : Session) (c : Candidate) : Except SourceError (Change × Action) :=
  if s.isKept then .ok (.nothing, .skipped)
  else match s.findMember? c.signature with
    | none =>
      if s.pending.any (·.signature.isSameMember c.signature) then
        .error
          (.duplicateDefinition
            { entity := s.typeName, member := some c.signature.display })
      else .ok (.holdBack ⟨c.signature, s.laidOut (ensureStamped c.code)⟩, .inserted)
    | some (index, m) =>
      if m.refreshed then .error (.duplicateDefinition (s.locationOf m))
      else match m.provenance with
        | .keep => .ok (.tell (.keptMember (s.locationOf m)), .kept)
        | .unmarked => .error (.unmarkedConflict (s.locationOf m))
        | .generated _ =>
          .ok (.rewrite index (s.refreshedBy m (ensureStamped c.code)),
            if !s.isShared m && s.agrees m (ensureStamped c.code) then .unchanged
            else .replaced)

/-- The change that a candidate makes; none when it is refused. -/
def changeFor (s : Session) (c : Candidate) : Change :=
  match s.decision c with
  | .ok (change, _) => change
  | .error _ => .nothing

/-- The answer to a candidate. -/
def answer (s : Session) (c : Candidate) : Except SourceError Action :=
  (s.define c.signature c.code).map Prod.snd

/-- The candidates among calls, each with the answer to it. -/
def answers : Session → List Call → List (Candidate × Except SourceError Action)
  | _, [] => []
  | s, .importOf q :: rest => (s.perform (.importOf q)).answers rest
  | s, .define signature code :: rest =>
    (⟨signature, code⟩, s.answer ⟨signature, code⟩) ::
      (s.perform (.define signature code)).answers rest

/-- A decision is all there is to a call. -/
theorem define_eq (s : Session) (c : Candidate) :
    s.define c.signature c.code =
      (s.decision c).map fun (change, action) => (s.apply change, action) := by
  rw [define, decision]
  by_cases hkept : s.isKept = true
  · rw [if_pos hkept, if_pos hkept]
    rfl
  · rw [if_neg hkept, if_neg hkept]
    -- the branches of `define` and `decision` are the same
    cases s.findMember? c.signature with
    | none =>
      dsimp only
      rw [defineNew]
      split <;> rfl
    | some found =>
      obtain ⟨index, m⟩ := found
      dsimp only
      rw [defineExisting]
      by_cases hrefreshed : m.refreshed = true
      · rw [if_pos hrefreshed, if_pos hrefreshed]
        rfl
      · rw [if_neg hrefreshed, if_neg hrefreshed]
        cases m.provenance with
        | unmarked => rfl
        | keep => rfl
        | generated hash =>
          simp only [refresh, refreshedBy, Except.map]
          split <;> rfl

theorem answer_eq (s : Session) (c : Candidate) :
    s.answer c = (s.decision c).map Prod.snd := by
  rw [answer, define_eq]
  cases s.decision c <;> rfl

theorem perform_eq (s : Session) (c : Candidate) :
    s.perform c.call = s.apply (s.changeFor c) := by
  rw [Candidate.call, perform, changeFor, define_eq]
  cases s.decision c <;> rfl

/-- A candidate that is refused changes nothing. -/
theorem changeFor_of_refused {s : Session} {c : Candidate} {e : SourceError}
    (h : s.answer c = .error e) : s.changeFor c = .nothing := by
  rw [answer_eq] at h
  rw [changeFor]
  cases hdecision : s.decision c with
  | ok r =>
    rw [hdecision] at h
    cases h
  | error e' => rfl

theorem answers_append (s : Session) (front back : List Call) :
    s.answers (front ++ back) = s.answers front ++ (s.run front).answers back := by
  induction front generalizing s with
  | nil => rfl
  | cons call front ih =>
    cases call with
    | importOf q => exact ih _
    | define signature code => exact congrArg _ (ih _)

/-- Only what was brought is answered. -/
theorem call_mem_of_answered {s : Session} {calls : List Call} {c : Candidate}
    {r : Except SourceError Action} (h : (c, r) ∈ s.answers calls) :
    c.call ∈ calls := by
  induction calls generalizing s with
  | nil => cases h
  | cons call calls ih =>
    cases call with
    | importOf q => exact List.mem_cons_of_mem _ (ih h)
    | define signature code =>
      rcases List.mem_cons.mp h with h | h
      · cases h
        exact List.mem_cons_self
      · exact List.mem_cons_of_mem _ (ih h)

theorem run_append (s : Session) (front back : List Call) :
    s.run (front ++ back) = (s.run front).run back := List.foldl_append

/-! ## Changes for other keys -/

section

variable {s : Session} {c d : Candidate}

theorem findMember?_eq (s : Session) (signature : Signature) :
    s.findMember? signature =
      (s.indexOf? signature).bind fun index => s.members[index]?.map fun m =>
        (index, m) := by
  rw [findMember?, indexOf?]
  cases s.members.findIdx? fun m => m.signature.isSameMember signature with
  | none => rfl
  | some index =>
    show (s.members[index]?.bind fun m => pure (index, m)) = _
    rw [Option.bind_some]
    cases s.members[index]? <;> rfl

/-- A signature leads to a member: the first one of its key. -/
structure Finds (s : Session) (signature : Signature) (index : Nat)
    (m : Member) : Prop where
  first : s.indexOf? signature = some index
  at_ : s.members[index]? = some m
  key : m.signature.key = signature.key

theorem finds_iff {signature : Signature} {index : Nat} {m : Member} :
    s.findMember? signature = some (index, m) ↔ s.Finds signature index m := by
  rw [findMember?_eq]
  constructor
  · intro h
    obtain ⟨i, hi, hm⟩ := Option.bind_eq_some_iff.mp h
    obtain ⟨m', hm', heq⟩ := Option.map_eq_some_iff.mp hm
    cases heq
    obtain ⟨⟨m'', hm'', hkey⟩, -⟩ := indexOf?_eq_some_iff.mp hi
    rw [hm', Option.some.injEq] at hm''
    subst hm''
    exact ⟨hi, hm', hkey⟩
  · intro h
    rw [h.first, Option.bind_some, h.at_]
    rfl

theorem indexOf?_of_findMember? {signature : Signature}
    (h : s.findMember? signature = none) :
    s.indexOf? signature = none := by
  rw [findMember?_eq] at h
  cases hindex : s.indexOf? signature with
  | none => rfl
  | some i =>
    obtain ⟨⟨m, hm, -⟩, -⟩ := indexOf?_eq_some_iff.mp hindex
    rw [hindex, Option.bind_some, hm] at h
    cases h

/-- The ways to decide on a candidate, each with the state of the session
that leads to it. -/
inductive Decided (s : Session) (c : Candidate) :
    Except SourceError (Change × Action) → Prop
  | skipped (kept : s.isKept = true) : Decided s c (.ok (.nothing, .skipped))
  | inserted (free : s.isKept = false) (new : s.indexOf? c.signature = none)
      (alone : ∀ p ∈ s.pending, p.signature.key ≠ c.signature.key) :
      Decided s c
        (.ok (.holdBack ⟨c.signature, s.laidOut (ensureStamped c.code)⟩, .inserted))
  | offeredTwice (free : s.isKept = false) (new : s.indexOf? c.signature = none)
      {p : Pending} (mem : p ∈ s.pending) (key : p.signature.key = c.signature.key) :
      Decided s c
        (.error
          (.duplicateDefinition
            { entity := s.typeName, member := some c.signature.display }))
  | decidedTwice {index : Nat} {m : Member} (free : s.isKept = false)
      (found : s.Finds c.signature index m) (refreshed : m.refreshed = true) :
      Decided s c (.error (.duplicateDefinition (s.locationOf m)))
  | kept {index : Nat} {m : Member} (free : s.isKept = false)
      (found : s.Finds c.signature index m) (provenance : m.provenance = .keep) :
      Decided s c (.ok (.tell (.keptMember (s.locationOf m)), .kept))
  | unmarked {index : Nat} {m : Member} (free : s.isKept = false)
      (found : s.Finds c.signature index m) (provenance : m.provenance = .unmarked) :
      Decided s c (.error (.unmarkedConflict (s.locationOf m)))
  | unchanged {index : Nat} {m : Member} (free : s.isKept = false)
      (found : s.Finds c.signature index m)
      (generated : m.provenance.isGenerated = true) (undecided : m.refreshed = false)
      (single : s.isShared m = false)
      (agrees : s.agrees m (ensureStamped c.code) = true) :
      Decided s c (.ok (.rewrite index { m with refreshed := true }, .unchanged))
  | replaced {index : Nat} {m : Member} (free : s.isKept = false)
      (found : s.Finds c.signature index m)
      (generated : m.provenance.isGenerated = true) (undecided : m.refreshed = false)
      (differs :
        ¬ (s.isShared m = false ∧ s.agrees m (ensureStamped c.code) = true)) :
      Decided s c (.ok (.rewrite index { m with
        refreshed := true, replacement := some (s.laidOut (ensureStamped c.code)) },
        .replaced))

/-- Every decision is made in one of these ways. -/
theorem decided (s : Session) (c : Candidate) : s.Decided c (s.decision c) := by
  rw [decision]
  by_cases hkept : s.isKept = true
  · rw [if_pos hkept]
    exact .skipped hkept
  · have hfree : s.isKept = false := Bool.not_eq_true _ ▸ hkept
    rw [if_neg hkept]
    -- no member of the signature: the candidate is new, or it is offered twice
    cases hfound : s.findMember? c.signature with
    | none =>
      have hnew := indexOf?_of_findMember? hfound
      dsimp only
      by_cases hdup : s.pending.any (·.signature.isSameMember c.signature) = true
      · rw [if_pos hdup]
        obtain ⟨p, hp, hsame⟩ := List.any_eq_true.mp hdup
        exact .offeredTwice hfree hnew hp ((Signature.isSameMember_iff _ _).mp hsame)
      · rw [if_neg hdup]
        refine .inserted hfree hnew fun p hp hkey => hdup ?_
        exact List.any_eq_true.mpr ⟨p, hp, (Signature.isSameMember_iff _ _).mpr hkey⟩
    | some found =>
      obtain ⟨index, m⟩ := found
      have hfinds := finds_iff.mp hfound
      dsimp only
      by_cases hrefreshed : m.refreshed = true
      · rw [if_pos hrefreshed]
        exact .decidedTwice hfree hfinds hrefreshed
      · rw [if_neg hrefreshed]
        rw [Bool.not_eq_true] at hrefreshed
        cases hprov : m.provenance with
        | unmarked => exact .unmarked hfree hfinds hprov
        | keep => exact .kept hfree hfinds hprov
        | generated hash =>
          have hgen : m.provenance.isGenerated = true := by rw [hprov]; rfl
          dsimp only
          rw [refreshedBy]
          by_cases hsame : (!s.isShared m && s.agrees m (ensureStamped c.code)) = true
          · rw [if_pos hsame, if_pos hsame]
            rw [Bool.and_eq_true, Bool.not_eq_true'] at hsame
            exact .unchanged hfree hfinds hgen hrefreshed hsame.1 hsame.2
          · rw [if_neg hsame, if_neg hsame]
            rw [Bool.and_eq_true, Bool.not_eq_true'] at hsame
            exact .replaced hfree hfinds hgen hrefreshed hsame

/-- A member keeps its place, its signature and its extent when it is put in
another state. -/
structure Rewrites (s : Session) (index : Nat) (m m' : Member) : Prop where
  at_ : s.members[index]? = some m
  signature : m'.signature = m.signature
  extent : m'.extent = m.extent

theorem Rewrites.map_set {index : Nat} {m m' : Member} (h : Rewrites s index m m')
    {α : Type} (f : Member → α) (hf : f m' = f m) :
    (s.members.set index m').map f = s.members.map f := by
  obtain ⟨hlt, hget⟩ := List.getElem?_eq_some_iff.mp h.at_
  rw [List.map_set, hf]
  apply List.ext_getElem?
  intro i
  rw [List.getElem?_set]
  by_cases hi : index = i
  · subst hi
    rw [if_pos rfl, if_pos (by rwa [List.length_map]), List.getElem?_map, h.at_]
    rfl
  · rw [if_neg hi]

/-- A member of another key is found as it was. -/
theorem Rewrites.findMember?_eq {index : Nat} {m m' : Member}
    (h : Rewrites s index m m') {signature : Signature}
    (hkey : m.signature.key ≠ signature.key) :
    (s.apply (.rewrite index m')).findMember? signature = s.findMember? signature := by
  have hindex : (s.apply (.rewrite index m')).indexOf? signature =
      s.indexOf? signature := by
    have hsignatures := h.map_set (·.signature) h.signature
    have hmap : ∀ ms : List Member, ms.findIdx? (·.signature.isSameMember signature) =
        (ms.map (·.signature)).findIdx? (·.isSameMember signature) := by
      intro ms
      rw [List.findIdx?_map]
      rfl
    rw [indexOf?, indexOf?, apply, hmap, hmap, hsignatures]
  rw [Session.findMember?_eq, Session.findMember?_eq, hindex]
  cases hfound : s.indexOf? signature with
  | none => rfl
  | some i =>
    -- the member found is another one, since its key is another
    have hne : index ≠ i := by
      rintro rfl
      obtain ⟨⟨m₀, hm₀, hkey₀⟩, -⟩ := indexOf?_eq_some_iff.mp hfound
      rw [h.at_, Option.some.injEq] at hm₀
      subst hm₀
      exact hkey hkey₀
    show (((s.members.set index m')[i]?).map fun m => (i, m)) = _
    rw [List.getElem?_set_ne hne]
    rfl

theorem Rewrites.isShared_eq {index : Nat} {m m' : Member} (h : Rewrites s index m m')
    (n : Member) : (s.apply (.rewrite index m')).isShared n = s.isShared n := by
  have hextents := h.map_set (·.extent) h.extent
  have hcount : ∀ ms : List Member, ms.countP (·.extent == n.extent) =
      (ms.map (·.extent)).countP (· == n.extent) := by
    intro ms
    rw [List.countP_map]
    rfl
  rw [isShared, isShared, apply, hcount, hcount, hextents]

/-- What a candidate writes anew is the member of its key. -/
theorem rewrites_of_changeFor {index : Nat} {m' : Member}
    (h : s.changeFor c = .rewrite index m') :
    ∃ m, Rewrites s index m m' ∧ m.signature.key = c.signature.key := by
  have hdecided := decided s c
  rw [changeFor] at h
  generalize s.decision c = r at h hdecided
  cases hdecided with
  | @unchanged i m _ found =>
    cases h
    exact ⟨m, ⟨found.at_, rfl, rfl⟩, found.key⟩
  | @replaced i m _ found =>
    cases h
    exact ⟨m, ⟨found.at_, rfl, rfl⟩, found.key⟩
  | _ => cases h

/-- What a candidate has held back is held back for its signature. -/
theorem signature_of_changeFor {p : Pending} (h : s.changeFor c = .holdBack p) :
    p.signature = c.signature := by
  have hdecided := decided s c
  rw [changeFor] at h
  generalize s.decision c = r at h hdecided
  cases hdecided with
  | inserted =>
    cases h
    rfl
  | _ => cases h

/-- The decision on a candidate does not depend on a change made
for another key. -/
theorem decision_perform (hkey : c.signature.key ≠ d.signature.key) :
    (s.perform c.call).decision d = s.decision d := by
  rw [perform_eq]
  -- a decision reads neither notes nor what is held back, or found, for another
  -- key
  cases hchange : s.changeFor c with
  | nothing => rfl
  | tell note => rfl
  | holdBack p =>
    have hother : p.signature.isSameMember d.signature = false := by
      rw [Signature.isSameMember_eq, signature_of_changeFor hchange]
      exact decide_eq_false hkey
    have hpending : (s.apply (.holdBack p)).pending.any
        (·.signature.isSameMember d.signature) =
        s.pending.any (·.signature.isSameMember d.signature) := by
      show (s.pending ++ [p]).any _ = _
      rw [List.any_append, List.any_cons, hother]
      simp
    rw [decision, decision, hpending]
    rfl
  | rewrite index m' =>
    obtain ⟨m, hrewrites, hm⟩ := rewrites_of_changeFor hchange
    have hfind := hrewrites.findMember?_eq (fun heq => hkey (hm.symm.trans heq))
    rw [decision, decision, hfind]
    simp only [refreshedBy, hrewrites.isShared_eq]
    rfl

theorem answer_perform (hkey : c.signature.key ≠ d.signature.key) :
    (s.perform c.call).answer d = s.answer d := by
  rw [answer_eq, answer_eq, decision_perform hkey]

theorem changeFor_perform (hkey : c.signature.key ≠ d.signature.key) :
    (s.perform c.call).changeFor d = s.changeFor d := by
  rw [changeFor, changeFor, decision_perform hkey]

end

end Session

end Graft.Merge
