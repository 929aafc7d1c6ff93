import Graft.Proofs.Code.Stamp
import Graft.Proofs.Merge.Slots

/-!
# What a pass leaves and what it writes

The outcome of a pass, member by member: parts that were kept, parts that were
written in their place, and parts that were inserted. Every part has an origin
that says why it is there, and no part that is generated has a part of the same
signature before it.
-/

namespace Graft.Merge

open Java Entity Code

/-- What stands in the outcome of a pass. -/
inductive Part where
  /-- A member of the source. -/
  | kept (m : Member)
  /-- A candidate, as it was laid out. -/
  | written (text : Text)

/-- What a slot leaves in the outcome. A generated member that no candidate was
held against goes, alone or with the declaration it shares. -/
def Slot.part? (slot : Slot) : Option Part :=
  match slot.member.replacement with
  | some text => some (.written text)
  | none =>
    if slot.member.provenance.isGenerated && !slot.member.refreshed then none
    else some (.kept slot.member)

theorem Slot.part?_of_replacement {slot : Slot} {text : Text}
    (h : slot.member.replacement = some text) : slot.part? = some (.written text) := by
  rw [part?, h]

theorem Slot.part?_of_kept {slot : Slot} (h : slot.member.replacement = none)
    (hkept : slot.member.provenance.isGenerated = false ∨
      slot.member.refreshed = true) :
    slot.part? = some (.kept slot.member) := by
  rw [part?, h]
  rcases hkept with h | h <;> simp [h]

theorem Slot.part?_of_unclaimed {slot : Slot} (h : slot.member.replacement = none)
    (hgen : slot.member.provenance.isGenerated = true)
    (hopen : slot.member.refreshed = false) :
    slot.part? = none := by
  rw [part?, h, hgen, hopen]
  rfl

/-- The signature of a part, given what a reader of declarations finds. -/
def Part.signature (declared : Text → Signature) : Part → Signature
  | .kept m => m.signature
  | .written text => declared text

namespace Session

/-- The parts that stand at the places of members, in their order. -/
def inPlace (s : Session) : List Part :=
  (takeOver s.slots s.pending).1.filterMap Slot.part?

/-- The parts that were inserted. -/
def inserted (s : Session) : List Part :=
  (takeOver s.slots s.pending).2.map fun p => .written p.text

end Session

/-- Why a part stands at the place of a member. -/
inductive Part.Origin (s₀ : Session) (calls : List Call)
    (taken : List (Nat × Pending)) (i : Nat) :
    Part → Prop
  /-- The member is not generated. -/
  | byHand {m : Member} (at_ : s₀.members[i]? = some m)
      (hand : m.provenance.isGenerated = false) : Origin s₀ calls taken i (.kept m)
  /-- The member is generated and has the structure of the candidate for it. -/
  | confirmed {m : Member} {c : Candidate} (at_ : s₀.members[i]? = some m)
      (first : s₀.indexOf? m.signature = some i)
      (candidate : candidateFor? calls m.signature = some c)
      (alone : s₀.isShared m = false) (agrees : s₀.agrees m c.code = true) :
      Origin s₀ calls taken i (.kept { m with refreshed := true })
  /-- The member is generated and was replaced by the candidate for it. -/
  | replaced {m : Member} {c : Candidate} (at_ : s₀.members[i]? = some m)
      (first : s₀.indexOf? m.signature = some i)
      (candidate : candidateFor? calls m.signature = some c) :
      Origin s₀ calls taken i (.written (s₀.laidOut c.code))
  /-- A new constructor has taken over. -/
  | taken {p : Pending}
      (mem : (i, p) ∈ taken) : Origin s₀ calls taken i (.written p.text)

/-- The code that a call brings can be stamped, and it declares a member of the
signature that it is offered for. -/
def Call.Fits (s₀ : Session) (declared : Text → Signature) : Call → Prop
  | .importOf _ => True
  | .define signature code => Stampable code ∧
      (declared (s₀.laidOut (ensureStamped code))).isSameMember signature = true

instance (s₀ : Session) (declared : Text → Signature) :
    (call : Call) → Decidable (call.Fits s₀ declared)
  | .importOf _ => .isTrue trivial
  | .define _ _ => inferInstanceAs (Decidable (_ ∧ _))

/-- All candidates are code for what they are offered for. -/
def FitsCalls (s₀ : Session) (declared : Text → Signature) (calls : List Call) : Prop :=
  ∀ call ∈ calls, call.Fits s₀ declared

instance (s₀ : Session) (declared : Text → Signature) (calls : List Call) :
    Decidable (FitsCalls s₀ declared calls) :=
  inferInstanceAs (Decidable (∀ call ∈ calls, call.Fits s₀ declared))

theorem closesLiterals_ensureStamped {code : Text} (h : Stampable code) :
    ClosesLiterals (ensureStamped code) := by
  rw [ensureStamped]
  split
  · exact h.closed
  · exact h.closesLiterals_stamp

section

variable {s₀ s : Session} {declared : Text → Signature} {calls : List Call}

theorem FitsCalls.of_mem (h : FitsCalls s₀ declared calls) {c : Candidate}
    (hc : c ∈ candidates calls) :
    ClosesLiterals c.code ∧ (declared (s₀.laidOut c.code)).key = c.signature.key := by
  obtain ⟨call, hcall, hcandidate⟩ := List.mem_filterMap.mp hc
  cases call with
  | importOf q => cases hcandidate
  | define signature code =>
    cases hcandidate
    obtain ⟨hstampable, hsame⟩ := h _ hcall
    exact ⟨closesLiterals_ensureStamped hstampable,
      (Signature.isSameMember_iff _ _).mp hsame⟩

theorem mem_of_candidateFor? {signature : Signature} {c : Candidate}
    (h : candidateFor? calls signature = some c) : c ∈ candidates calls :=
  List.mem_of_find?_eq_some h

/-- A candidate is found, as it was laid out, under the signature it
was chosen for. -/
theorem FitsCalls.key_eq (h : FitsCalls s₀ declared calls) {signature : Signature}
    {c : Candidate} (hc : candidateFor? calls signature = some c) :
    (declared (s₀.laidOut c.code)).key = signature.key := by
  rw [(h.of_mem (mem_of_candidateFor? hc)).2, key_of_candidateFor? hc]

/-- What is held back is found under the signature it is held back for. -/
theorem FitsCalls.key_eq_of_pending (h : FitsCalls s₀ declared calls)
    (reached : Session.Reached s₀ calls s) {p : Pending} (hp : p ∈ s.pending) :
    (declared p.text).key = p.signature.key := by
  obtain ⟨-, code, hcandidate, htext⟩ := reached.pendingOrigin p hp
  have := h.key_eq hcandidate
  rwa [htext]

/-- A text that a code was laid out to agrees with whatever has the
structure of the code. -/
theorem sameStructure_laidOut {code piece : Text} (hcode : ClosesLiterals code)
    (h : sameStructure piece (s₀.laidOut code) = true) :
    sameStructure piece code = true := by
  rw [sameStructure, beq_iff_eq] at h ⊢
  rw [h, Session.laidOut, normalize_layout s₀.style s₀.depth hcode]

end

namespace Session

variable {s₀ s : Session} {calls : List Call} {taken : List (Nat × Pending)}
    {slots : List Slot} {left : List Pending}

/-- A slot that is taken over stands for a generated member that no candidate
was held against. -/
theorem unclaimed_of_taken (htaken : TakenOver s.slots s.pending taken slots left)
    {i : Nat} {p : Pending} (hp : (i, p) ∈ taken) :
    ∃ m, s.members[i]? = some m ∧ m.provenance.isGenerated = true ∧
      m.refreshed = false := by
  obtain ⟨-, slot, hslot, hfree⟩ := htaken.free (i, p) hp
  have hstale := Slot.isStale_of_isFree hfree
  rw [Session.slots, List.getElem?_map, Option.map_eq_some_iff] at hslot
  obtain ⟨m, hm, rfl⟩ := hslot
  rw [Bool.and_eq_true, Bool.not_eq_true', List.any_eq_false] at hstale
  refine ⟨m, hm, hstale.1, ?_⟩
  have hself := hstale.2 m (List.mem_of_getElem? hm)
  simpa using hself

/-- Every part at the place of a member has an origin. -/
theorem Reached.origin (reached : Reached s₀ calls s) (fresh : s₀.IsFresh)
    (htaken : TakenOver s.slots s.pending taken slots left) {i : Nat} {slot : Slot}
    {x : Part} (hslot : slots[i]? = some slot) (hx : slot.part? = some x) :
    x.Origin s₀ calls taken i := by
  rw [htaken.slots, Session.slots, List.getElem?_map, reached.members, Option.map_map,
    Option.map_map, Option.map_eq_some_iff] at hslot
  obtain ⟨m, hm, rfl⟩ := hslot
  simp only [Function.comp, Slot.assigned] at hx
  -- a slot that was taken over, or one of a member as the calls have left it
  split at hx
  · next p hp =>
    obtain ⟨front, back, heq, -⟩ := List.lookup_eq_some_iff.mp hp
    cases hx
    exact .taken (by simp [heq])
  · obtain ⟨hfresh, hnothing⟩ := fresh.members m (List.mem_of_getElem? hm)
    by_cases hgen : m.provenance.isGenerated = true
    · by_cases hfirst : s₀.indexOf? m.signature = some i
      · cases hc : candidateFor? calls m.signature with
        | none =>
          rw [settled_of_no_candidate hc,
            Slot.part?_of_unclaimed hnothing hgen hfresh] at hx
          cases hx
        | some c =>
          rw [settled_of_first hgen hfirst hc] at hx
          by_cases hsame : (!s₀.isShared m && s₀.agrees m c.code) = true
          · rw [refreshedBy, if_pos hsame, Slot.part?_of_kept hnothing (.inr rfl)] at hx
            rw [Bool.and_eq_true, Bool.not_eq_true'] at hsame
            cases hx
            exact .confirmed hm hfirst hc hsame.1 hsame.2
          · rw [refreshedBy, if_neg hsame, Slot.part?_of_replacement rfl] at hx
            cases hx
            exact .replaced hm hfirst hc
      · have hsame : s₀.settled calls i m = m := by
          rw [settled, if_neg]
          simp [hfirst]
        rw [hsame, Slot.part?_of_unclaimed hnothing hgen hfresh] at hx
        cases hx
    · rw [Bool.not_eq_true] at hgen
      rw [settled_of_not_generated _ _ _ _ hgen,
        Slot.part?_of_kept hnothing (.inl hgen)] at hx
      cases hx
      exact .byHand hm hgen

end Session

end Graft.Merge
