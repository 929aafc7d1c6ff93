import Graft.Proofs.Merge.Slots

/-!
# What becomes of a declaration

Members with one extent are the variables of one field declaration. No
constructor takes over a field, so they stay together: either all of them are
left over, or none is, and where one is left over nothing is written in place of
any (`Reached.stale_together`).
-/

namespace Graft.Merge

open Java Entity Code

variable {source : Text} {unit : CompilationUnit} {t : TypeDecl}

/-- Where the spans fit, declarations with one extent are one declaration. -/
theorem SpansFit.eq_of_extent (fit : SpansFit source unit t) {d e : Declaration}
    (hd : d ∈ t.members) (he : e ∈ t.members) (h : d.extent = e.extent) : d = e := by
  apply Classical.byContradiction
  intro hne
  have hapart := fit.isApart hd he hne
  have hfilled := fit.filled d hd
  rw [← h, IsApart] at hapart
  omega

/-- Members that share an extent are variables of a field. -/
def AreVariables (m n : Member) : Prop :=
  m.extent = n.extent → m.signature.kind = .field ∧ n.signature.kind = .field

theorem membersOf_pairwise (d : Declaration) : (membersOf d).Pairwise AreVariables := by
  rw [membersOf, List.pairwise_map]
  cases d with
  | field f =>
    rw [signaturesOf, List.pairwise_map]
    exact List.pairwise_of_forall_sublist fun _ _ => ⟨rfl, rfl⟩
  | method m => exact List.pairwise_singleton _ _
  | constructor c => exact List.pairwise_singleton _ _
  | nested inner => exact .nil

theorem indexMembers_pairwise (fit : SpansFit source unit t) :
    (indexMembers t).Pairwise AreVariables := by
  rw [indexMembers, List.pairwise_flatMap]
  refine ⟨fun d _ => membersOf_pairwise d, ?_⟩
  apply fit.apart.imp_of_mem
  intro d e hd he hapart m hm n hn hextent
  -- members of two declarations share no extent, as these stand apart
  obtain ⟨-, -, hmd⟩ := of_mem_membersOf hm
  obtain ⟨-, -, hne⟩ := of_mem_membersOf hn
  rw [hmd, hne] at hextent
  have hfilled := fit.filled d hd
  rw [← hextent, IsApart] at hapart
  omega

/-- A constructor shares its extent with no member at another place. -/
theorem eq_of_constructor (fit : SpansFit source unit t) {i j : Nat} {m n : Member}
    (hm : (indexMembers t)[i]? = some m) (hn : (indexMembers t)[j]? = some n)
    (hextent : m.extent = n.extent)
    (hkind : n.signature.kind = .constructor) : i = j := by
  have hpairs := List.pairwise_iff_getElem.mp (indexMembers_pairwise fit)
  obtain ⟨hi, hmi⟩ := List.getElem?_eq_some_iff.mp hm
  obtain ⟨hj, hnj⟩ := List.getElem?_eq_some_iff.mp hn
  apply Classical.byContradiction
  intro hne
  -- at another place, both would be variables of one field
  have hfield : n.signature.kind = .field := by
    rcases Nat.lt_or_gt_of_ne hne with hlt | hlt
    · exact (hpairs i j hi hj hlt (by rw [hmi, hnj]; exact hextent)).2 ▸ by rw [hnj]
    · exact (hpairs j i hj hi hlt (by rw [hmi, hnj]; exact hextent.symm)).1 ▸ by
        rw [hnj]
  rw [hkind] at hfield
  cases hfield

namespace Session

variable {s₀ s : Session} {calls : List Call}

/-- Nothing is written in place of a member that no candidate
was held against. -/
theorem Reached.replacement_eq_none (h : Reached s₀ calls s) (fresh : s₀.IsFresh)
    {m : Member} (hm : m ∈ s.members) (hopen : m.refreshed = false) :
    m.replacement = none := by
  obtain ⟨i, m₀, hm₀, rfl⟩ := h.mem_members hm
  have hnothing := (fresh.members m₀ (List.mem_of_getElem? hm₀)).2
  unfold settled at hopen ⊢
  split
  · next hfirst =>
    rw [if_pos hfirst] at hopen
    split
    · exact hnothing
    · next c hc =>
      rw [hc] at hopen
      simp at hopen
  · exact hnothing

/-- The members of a session stand where they stood at the start. -/
theorem Reached.getElem?_members (h : Reached s₀ calls s) {i : Nat} {m : Member}
    (hm : s.members[i]? = some m) : ∃ m₀, s₀.members[i]? = some m₀ ∧
      m.extent = m₀.extent ∧ m.signature = m₀.signature ∧
      m.provenance = m₀.provenance := by
  rw [h.members, Option.map_eq_some_iff] at hm
  obtain ⟨m₀, hm₀, rfl⟩ := hm
  exact ⟨m₀, hm₀, settled_extent .., settled_signature .., settled_provenance ..⟩

/-- A member that a constructor takes over shares its extent with no other. -/
theorem Reached.eq_of_taken (h : Reached s₀ calls s) (fit : SpansFit source unit t)
    (hmembers : s₀.members = indexMembers t) {taken : List (Nat × Pending)}
    {slots' : List Slot} {left : List Pending}
    (htaken : TakenOver s.slots s.pending taken slots' left) {i j : Nat}
    {m n : Member} {p : Pending} (hp : taken.lookup j = some p)
    (hm : s.members[i]? = some m) (hn : s.members[j]? = some n)
    (hextent : m.extent = n.extent) : i = j := by
  obtain ⟨front, back, heq, -⟩ := List.lookup_eq_some_iff.mp hp
  obtain ⟨-, slot, hslot, hfree⟩ := htaken.free (j, p) (by simp [heq])
  rw [slots, List.getElem?_map, hn, Option.map_some, Option.some.injEq] at hslot
  rw [Slot.isFree, Bool.and_eq_true, Bool.and_eq_true, beq_iff_eq, ← hslot] at hfree
  obtain ⟨m₀, hm₀, hmx, -, -⟩ := h.getElem?_members hm
  obtain ⟨n₀, hn₀, hnx, hns, -⟩ := h.getElem?_members hn
  rw [hmembers] at hm₀ hn₀
  exact eq_of_constructor fit hm₀ hn₀ (by rw [← hmx, ← hnx, hextent]) (hns ▸ hfree.1.2)

/-- What is left over is left over together, and nothing is
written in its place. -/
theorem Reached.stale_together (h : Reached s₀ calls s) (fresh : s₀.IsFresh)
    (fit : SpansFit source unit t) (hmembers : s₀.members = indexMembers t) {a b : Slot}
    (ha : a ∈ (takeOver s.slots s.pending).1) (hb : b ∈ (takeOver s.slots s.pending).1)
    (hextent : a.member.extent = b.member.extent) (hstale : a.isStale = true) :
    b.isStale = true ∧ b.member.replacement = none := by
  obtain ⟨taken, htaken⟩ := exists_takenOver s.slots s.pending
  obtain ⟨i, hi⟩ := List.mem_iff_getElem?.mp ha
  obtain ⟨j, hj⟩ := List.mem_iff_getElem?.mp hb
  rw [htaken.slots, slots, List.getElem?_map, Option.map_map,
    Option.map_eq_some_iff] at hi hj
  obtain ⟨m, hm, rfl⟩ := hi
  obtain ⟨n, hn, rfl⟩ := hj
  -- the first was not taken over, as it is left over
  have hfirst : taken.lookup i = none := by
    cases hlookup : taken.lookup i with
    | none => rfl
    | some p =>
      simp only [Function.comp, Slot.assigned, hlookup, Slot.takenBy] at hstale
      cases hstale
  have hsame : m.extent = n.extent := by
    simp only [Function.comp, Slot.assigned] at hextent
    split at hextent <;> split at hextent <;> exact hextent
  -- nor was the second, with which it shares an extent
  have hsecond : taken.lookup j = none := by
    cases hlookup : taken.lookup j with
    | none => rfl
    | some p =>
      have hij := h.eq_of_taken fit hmembers htaken hlookup hm hn hsame
      rw [← hij, hfirst] at hlookup
      cases hlookup
  simp only [Function.comp, Slot.assigned, hfirst] at hstale
  simp only [Function.comp, Slot.assigned, hsecond]
  rw [Bool.and_eq_true, Bool.not_eq_true', hsame] at hstale
  -- both have the marks of the declaration that they belong to
  have hprovenance : n.provenance = m.provenance := by
    obtain ⟨m₀, hm₀, hmx, -, hmp⟩ := h.getElem?_members hm
    obtain ⟨n₀, hn₀, hnx, -, hnp⟩ := h.getElem?_members hn
    rw [hmembers] at hm₀ hn₀
    obtain ⟨d, hd, hmd⟩ := mem_indexMembers.mp (List.mem_of_getElem? hm₀)
    obtain ⟨e, he, hne⟩ := mem_indexMembers.mp (List.mem_of_getElem? hn₀)
    obtain ⟨-, hpm, hxm⟩ := of_mem_membersOf hmd
    obtain ⟨-, hpn, hxn⟩ := of_mem_membersOf hne
    have hde : d = e :=
      fit.eq_of_extent hd he (by rw [← hxm, ← hxn, ← hmx, ← hnx, hsame])
    rw [hnp, hmp, hpm, hpn, hde]
  refine ⟨?_, ?_⟩
  · rw [hprovenance, hstale.1, hstale.2]
    rfl
  · have hopen := List.any_eq_false.mp hstale.2 n (List.mem_of_getElem? hn)
    exact h.replacement_eq_none fresh (List.mem_of_getElem? hn) (by simpa using hopen)

/-- Nothing is written in place of what is left over before
constructors take over. -/
theorem Reached.staleAreEmpty (h : Reached s₀ calls s) (fresh : s₀.IsFresh) :
    StaleAreEmpty s.slots := by
  intro slot hslot hstale
  obtain ⟨m, hm, rfl⟩ := List.mem_map.mp hslot
  rw [Bool.and_eq_true, Bool.not_eq_true'] at hstale
  have hopen := List.any_eq_false.mp hstale.2 m hm
  exact h.replacement_eq_none fresh hm (by simpa using hopen)

end Session

/-! ## How many members a declaration has -/

/-- The members with the extent of a declaration are those that it declares. -/
theorem countP_indexMembers (fit : SpansFit source unit t) {d : Declaration}
    (hd : d ∈ t.members) :
    (indexMembers t).countP (·.extent == d.extent) = (signaturesOf d).length := by
  obtain ⟨front, back, hsplit⟩ := List.append_of_mem hd
  have hapart := fit.apart
  rw [hsplit, List.pairwise_append, List.pairwise_cons] at hapart
  obtain ⟨-, ⟨hback, -⟩, hfront⟩ := hapart
  have hfilled := fit.filled d hd
  have hnone : ∀ es : List Declaration, (∀ e ∈ es, e.extent ≠ d.extent) →
      (es.flatMap membersOf).countP (·.extent == d.extent) = 0 := by
    intro es hes
    rw [List.countP_eq_zero]
    intro m hm
    obtain ⟨e, he, hme⟩ := List.mem_flatMap.mp hm
    rw [(of_mem_membersOf hme).2.2, beq_iff_eq]
    exact hes e he
  have hown : (membersOf d).countP (·.extent == d.extent) = (membersOf d).length := by
    rw [List.countP_eq_length]
    intro m hm
    rw [(of_mem_membersOf hm).2.2, beq_iff_eq]
  -- what stands before the declaration or behind it has another extent
  rw [indexMembers, hsplit, List.flatMap_append, List.flatMap_cons, List.countP_append,
    List.countP_append, hown, hnone front, hnone back, membersOf, List.length_map]
  · omega
  · intro e he heq
    have := hback e he
    rw [heq, IsApart] at this
    omega
  · intro e he heq
    have := hfront e he d List.mem_cons_self
    rw [heq, IsApart] at this
    omega

/-- Where at most one element passes a test, it stands at one position. -/
theorem eq_of_countP_le_one {α : Type} {p : α → Bool} {l : List α}
    (h : l.countP p ≤ 1) {i j : Nat} {a b : α} (hi : l[i]? = some a)
    (hj : l[j]? = some b) (ha : p a = true) (hb : p b = true) :
    i = j := by
  -- both places are the first one, or both are in the rest
  induction l generalizing i j with
  | nil => cases hi
  | cons c rest ih =>
    have hlater : ∀ {k : Nat} {x : α}, rest[k]? = some x → p x = true →
        0 < rest.countP p :=
      fun hk hx => List.countP_pos_iff.mpr ⟨_, List.mem_of_getElem? hk, hx⟩
    rw [List.countP_cons] at h
    cases i with
    | zero =>
      cases hi
      rw [if_pos ha] at h
      cases j with
      | zero => rfl
      | succ j =>
        have := hlater hj hb
        omega
    | succ i =>
      cases j with
      | zero =>
        cases hj
        rw [if_pos hb] at h
        have := hlater hi ha
        omega
      | succ j => rw [ih (by omega) hi hj]

end Graft.Merge
