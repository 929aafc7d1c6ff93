import Graft.Proofs.Merge.Changes
import Mathlib.Data.List.Induction

/-!
# Answers and what they leave behind

Every answer to a candidate is found again in the session: a member that was to
be left unchanged or to be replaced is in the state that says so, and the code
of every candidate that is to be written stands in place of one member or is
held back, once. `Ledger` collects this; one candidate keeps it
(`Ledger.define`), and so does a whole pass (`ledger_run`).
-/

namespace Graft.Merge

open Java Entity Code

/-- Whether an answer decides on a generated member. -/
def Action.decides : Action → Bool
  | .unchanged => true
  | .replaced => true
  | _ => false

/-- What was decided on a member so far. -/
def Member.fate? (m : Member) : Option Action :=
  if m.replacement.isSome then some .replaced
  else if m.refreshed then some .unchanged
  else none

/-- A member is open until a candidate is held against it. -/
theorem Member.fate?_of_open {m : Member} (hopen : m.refreshed = false)
    (hnothing : m.replacement = none) : m.fate? = none := by
  rw [fate?, hopen, hnothing]
  rfl

theorem Member.fate?_eq_replaced {m : Member} :
    m.fate? = some .replaced ↔ m.replacement ≠ none := by
  rw [fate?]
  cases m.replacement with
  | some text => simp
  | none => cases m.refreshed <;> simp

namespace Session

/-- A candidate for the member at an index was given an answer. -/
def Answered (s₀ : Session) (calls : List Call) (index : Nat)
    (action : Action) : Prop :=
  ∃ c, (c, .ok action) ∈ s₀.answers calls ∧ s₀.indexOf? c.signature = some index

/-- The code that is to be written for a candidate, laid out, by
the answer to it. -/
def accepted? (s : Session) (c : Candidate) : Except SourceError Action → Option Text
  | .ok .inserted => some (s.laidOut (ensureStamped c.code))
  | .ok .replaced => some (s.laidOut (ensureStamped c.code))
  | _ => none

/-- The code of all candidates that are to be written, laid out, in the
order of the calls. -/
def accepted (s₀ : Session) (calls : List Call) : List Text :=
  (s₀.answers calls).filterMap fun (c, answer) => s₀.accepted? c answer

/-- What stands to be written: in place of members, and held back. -/
def texts (s : Session) : List Text :=
  s.members.filterMap (·.replacement) ++ s.pending.map (·.text)

/-- A session holds what was answered. -/
structure Ledger (s₀ : Session) (calls : List Call) (s : Session) : Prop where
  /-- Code is written in place of decided members only. -/
  settled : ∀ m ∈ s.members, m.replacement ≠ none → m.refreshed = true
  fates : ∀ i m, s.members[i]? = some m → ∀ action : Action, action.decides = true →
    (m.fate? = some action ↔ Answered s₀ calls i action)
  texts : s.texts.Perm (s₀.accepted calls)

section

variable {s₀ s s' : Session} {calls : List Call} {c : Candidate}

/-! ## One more candidate -/

theorem answers_snoc (s₀ : Session) (calls : List Call) (c : Candidate) :
    s₀.answers (calls ++ [c.call]) =
      s₀.answers calls ++ [(c, (s₀.run calls).answer c)] :=
  answers_append s₀ calls [c.call]

theorem answers_snoc_importOf (s₀ : Session) (calls : List Call) (q : Text) :
    s₀.answers (calls ++ [.importOf q]) = s₀.answers calls := by
  rw [answers_append]
  exact List.append_nil _

theorem answered_snoc {i : Nat} {action : Action} :
    Answered s₀ (calls ++ [c.call]) i action ↔ Answered s₀ calls i action ∨
      ((s₀.run calls).answer c = .ok action ∧ s₀.indexOf? c.signature = some i) := by
  simp only [Answered, answers_snoc, List.mem_append, List.mem_singleton, Prod.mk.injEq]
  constructor
  · rintro ⟨d, hd | ⟨rfl, hanswer⟩, hindex⟩
    · exact .inl ⟨d, hd, hindex⟩
    · exact .inr ⟨hanswer.symm, hindex⟩
  · rintro (⟨d, hd, hindex⟩ | ⟨hanswer, hindex⟩)
    · exact ⟨d, .inl hd, hindex⟩
    · exact ⟨c, .inr ⟨rfl, hanswer.symm⟩, hindex⟩

theorem accepted_snoc (s₀ : Session) (calls : List Call) (c : Candidate) :
    s₀.accepted (calls ++ [c.call]) =
      s₀.accepted calls ++ (s₀.accepted? c ((s₀.run calls).answer c)).toList := by
  rw [accepted, answers_snoc, List.filterMap_append]
  cases h : s₀.accepted? c ((s₀.run calls).answer c) <;> simp [accepted, h]

/-- Putting code in place of a member with none adds that code to what
stands to be written. -/
theorem filterMap_set_perm {members : List Member} {index : Nat} {m : Member}
    (hm : members[index]? = some m) (hnothing : m.replacement = none) (m' : Member) :
    ((members.set index m').filterMap (·.replacement)).Perm
      (m'.replacement.toList ++ members.filterMap (·.replacement)) := by
  obtain ⟨hlt, rfl⟩ := List.getElem?_eq_some_iff.mp hm
  obtain ⟨front, back, hsplit, -,
      hset⟩ : ∃ front back, members = front ++ members[index] :: back ∧
      front.length = index ∧ members.set index m' = front ++ m' :: back :=
        List.exists_of_set hlt
  have hmembers := congrArg (List.filterMap (·.replacement)) hsplit
  rw [List.filterMap_append, List.filterMap_cons, hnothing] at hmembers
  rw [hmembers, hset, List.filterMap_append, List.filterMap_cons]
  cases m'.replacement with
  | none => exact .refl _
  | some text => exact List.perm_middle

namespace Ledger

theorem of_isFresh (fresh : s₀.IsFresh) : Ledger s₀ [] s₀ where
  settled m hm hreplaced := absurd (fresh.members m hm).2 hreplaced
  fates i m hm action _ := by
    obtain ⟨hopen, hnothing⟩ := fresh.members m (List.mem_of_getElem? hm)
    rw [Member.fate?_of_open hopen hnothing]
    constructor
    · intro h
      cases h
    · rintro ⟨c, hc, -⟩
      cases hc
  texts := by
    have hnothing : s₀.members.filterMap (·.replacement) = [] := by
      rw [List.filterMap_eq_nil_iff]
      exact fun m hm => (fresh.members m hm).2
    rw [Session.texts, hnothing, fresh.pending]
    exact .refl _

/-- A candidate that decides on no member. -/
theorem define_idle (h : Ledger s₀ calls (s₀.run calls))
    (hmembers : s'.members = (s₀.run calls).members)
    (hanswer : ∀ action, (s₀.run calls).answer c = .ok action →
      action.decides = false)
    (htexts : s'.pending.map (·.text) = (s₀.run calls).pending.map (·.text) ++
      (s₀.accepted? c ((s₀.run calls).answer c)).toList) :
    Ledger s₀ (calls ++ [c.call]) s' where
  settled := by
    rw [hmembers]
    exact h.settled
  fates i m hm action hdecides := by
    rw [hmembers] at hm
    rw [h.fates i m hm action hdecides, answered_snoc]
    constructor
    · exact .inl
    · rintro (hanswered | ⟨hnew, -⟩)
      · exact hanswered
      · rw [hanswer action hnew] at hdecides
        cases hdecides
  texts := by
    rw [accepted_snoc, Session.texts, hmembers, htexts, ← List.append_assoc]
    exact h.texts.append_right _

/-- A candidate that decides on a member. -/
theorem define_decides (h : Ledger s₀ calls (s₀.run calls)) {index : Nat}
    {m m' : Member} {action : Action} (hfirst : s₀.indexOf? c.signature = some index)
    (hm : (s₀.run calls).members[index]? = some m) (hopen : m.refreshed = false)
    (hmembers : s'.members = (s₀.run calls).members.set index m')
    (hpending : s'.pending = (s₀.run calls).pending)
    (hanswer : (s₀.run calls).answer c = .ok action) (hfate : m'.fate? = some action)
    (hrefreshed : m'.refreshed = true)
    (htext : m'.replacement = s₀.accepted? c (.ok action)) :
    Ledger s₀ (calls ++ [c.call]) s' := by
  have hnothing : m.replacement = none := by
    apply Classical.byContradiction
    intro hreplaced
    rw [h.settled m (List.mem_of_getElem? hm) hreplaced] at hopen
    cases hopen
  have hlt : index < (s₀.run calls).members.length :=
    (List.getElem?_eq_some_iff.mp hm).1
  refine ⟨?_, ?_, ?_⟩
  -- only the member at the index is in another state than before
  · intro n hn hreplaced
    rw [hmembers] at hn
    rcases List.mem_or_eq_of_mem_set hn with hn | rfl
    · exact h.settled n hn hreplaced
    · exact hrefreshed
  · intro i n hn a hdecides
    rw [answered_snoc, hanswer, hfirst]
    rw [hmembers, List.getElem?_set] at hn
    by_cases hi : index = i
    · subst hi
      rw [if_pos rfl, if_pos hlt, Option.some.injEq] at hn
      subst hn
      -- nothing was answered for the member before
      have hbefore := h.fates index m hm a hdecides
      rw [Member.fate?_of_open hopen hnothing] at hbefore
      rw [hfate, ← hbefore]
      simp
    · rw [if_neg hi] at hn
      rw [h.fates i n hn a hdecides]
      constructor
      · exact .inl
      · rintro (hanswered | ⟨-, hindex⟩)
        · exact hanswered
        · exact absurd (Option.some.inj hindex) hi
  · rw [accepted_snoc, hanswer, ← htext, Session.texts, hmembers, hpending]
    have hset := (filterMap_set_perm hm hnothing m').append_right
      ((s₀.run calls).pending.map (·.text))
    rw [List.append_assoc] at hset
    exact hset.trans (List.perm_append_comm.trans (h.texts.append_right _))

/-- Candidates keep the ledger. -/
theorem define (h : Ledger s₀ calls (s₀.run calls))
    (reached : Reached s₀ calls (s₀.run calls)) (c : Candidate) :
    Ledger s₀ (calls ++ [c.call]) (s₀.run (calls ++ [c.call])) := by
  have hanswer := answer_eq (s₀.run calls) c
  have hdecided := decided (s₀.run calls) c
  rw [run_append, run_cons, run_nil, perform_eq, changeFor]
  generalize (s₀.run calls).decision c = r at hanswer hdecided ⊢
  -- an answer that writes nothing and decides on no member
  have hidle {s' : Session} (hmembers : s'.members = (s₀.run calls).members)
      (hpending : s'.pending = (s₀.run calls).pending)
      (hdecides : ((s₀.run calls).answer c).toOption.any Action.decides = false)
      (hnothing : s₀.accepted? c ((s₀.run calls).answer c) = none) :
      Ledger s₀ (calls ++ [c.call]) s' := by
    refine h.define_idle hmembers (fun action haction => ?_) ?_
    · rw [haction] at hdecides
      exact hdecides
    · rw [hnothing, hpending]
      exact (List.append_nil _).symm
  cases hdecided with
  | skipped | offeredTwice | decidedTwice | kept | unmarked =>
    exact hidle rfl rfl (by rw [hanswer]; rfl) (by rw [hanswer]; rfl)
  | inserted =>
    refine h.define_idle rfl ?_ ?_
    · rw [hanswer]
      rintro action ⟨⟩
      rfl
    · rw [hanswer]
      show List.map Pending.text ((s₀.run calls).pending ++ [_]) = _
      rw [List.map_append, reached.laidOut_eq]
      rfl
  | @unchanged index m _ found _ undecided _ _ =>
    have hfirst := reached.indexOf?_eq c.signature ▸ found.first
    have hnothing : m.replacement = none := by
      apply Classical.byContradiction
      intro hreplaced
      rw [h.settled m (List.mem_of_getElem? found.at_) hreplaced] at undecided
      cases undecided
    refine h.define_decides hfirst found.at_ undecided rfl rfl hanswer ?_ rfl hnothing
    rw [Member.fate?, hnothing]
    rfl
  | @replaced index m _ found _ undecided _ =>
    have hfirst := reached.indexOf?_eq c.signature ▸ found.first
    refine h.define_decides hfirst found.at_ undecided rfl rfl hanswer rfl rfl ?_
    rw [reached.laidOut_eq]
    rfl

/-- Requests for imports keep the ledger. -/
theorem importOf (h : Ledger s₀ calls (s₀.run calls))
    (hkept : (s₀.run calls).isKept = false) (q : Text) :
    Ledger s₀ (calls ++ [.importOf q]) (s₀.run (calls ++ [.importOf q])) := by
  obtain ⟨imports, hs, -⟩ := ensureImport_spec hkept q
  rw [run_append, run_cons, run_nil, perform, hs]
  refine ⟨h.settled, ?_, ?_⟩
  · intro i m hm action hdecides
    rw [h.fates i m hm action hdecides]
    simp only [Answered, answers_snoc_importOf]
  · rw [accepted, answers_snoc_importOf]
    exact h.texts

end Ledger

/-- What was answered is what a session holds behind any calls. -/
theorem ledger_run (fresh : s₀.IsFresh) (hkept : s₀.isKept = false)
    (calls : List Call) :
    Ledger s₀ calls (s₀.run calls) := by
  -- from the last call backwards: it finds the ledger of the calls before it
  induction calls using List.reverseRecOn with
  | nil => exact .of_isFresh fresh
  | append_singleton calls call ih =>
    have reached := reached_run fresh hkept calls
    cases call with
    | importOf q => exact ih.importOf (reached.isKept_eq.trans hkept) q
    | define signature code => exact ih.define reached ⟨signature, code⟩

end

end Session

end Graft.Merge
