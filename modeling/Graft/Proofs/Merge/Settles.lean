import Graft.Proofs.Merge.HandWritten
import Graft.Proofs.Merge.Parts
import Mathlib.Data.List.Forall2
import Mathlib.Data.List.Pairwise

/-!
# A pass settles

When the calls of a pass are made again on its outcome, every generated member
found there is the first of its signature, has the structure of the candidate
for it, and shares its declaration with no other; every candidate finds a
member; and every class is imported. Nothing is left to be edited.
-/

namespace Graft.Merge

open Java Entity Code

/-! ## Two lists in one -/

/-- A list holds two others, each in its order. -/
inductive Interleaved {α : Type} : List α → List α → List α → Prop
  | nil : Interleaved [] [] []
  | left (x : α) {xs ys zs : List α} : Interleaved xs ys zs →
      Interleaved (x :: xs) ys (x :: zs)
  | right (y : α) {xs ys zs : List α} : Interleaved xs ys zs →
      Interleaved xs (y :: ys) (y :: zs)

namespace Interleaved

variable {α : Type} {xs ys zs : List α}

theorem mem_iff (h : Interleaved xs ys zs) (a : α) : a ∈ zs ↔ a ∈ xs ∨ a ∈ ys := by
  induction h with
  | nil => simp
  | left x _ ih => rw [List.mem_cons, List.mem_cons, ih, or_assoc]
  | right y _ ih => rw [List.mem_cons, List.mem_cons, ih, or_left_comm]

theorem append (xs ys : List α) : Interleaved xs ys (xs ++ ys) := by
  induction xs with
  | nil =>
    induction ys with
    | nil => exact .nil
    | cons y _ ih => exact .right y ih
  | cons x _ ih => exact .left x ih

/-- What holds inside either list, and both ways across, holds in the whole. -/
theorem pairwise {R : α → α → Prop} (h : Interleaved xs ys zs) (hxs : xs.Pairwise R)
    (hys : ys.Pairwise R) (hacross : ∀ x ∈ xs, ∀ y ∈ ys, R x y ∧ R y x) :
    zs.Pairwise R := by
  induction h with
  | nil => exact .nil
  | left x hrest ih =>
    obtain ⟨hhead, htail⟩ := List.pairwise_cons.mp hxs
    refine .cons (fun z hz => ?_)
      (ih htail hys fun a ha => hacross a (List.mem_cons_of_mem _ ha))
    rcases (hrest.mem_iff z).mp hz with hz | hz
    · exact hhead z hz
    · exact (hacross x List.mem_cons_self z hz).1
  | right y hrest ih =>
    obtain ⟨hhead, htail⟩ := List.pairwise_cons.mp hys
    refine .cons (fun z hz => ?_)
      (ih hxs htail fun a ha b hb => hacross a ha b (List.mem_cons_of_mem _ hb))
    rcases (hrest.mem_iff z).mp hz with hz | hz
    · exact (hacross z hz y List.mem_cons_self).2
    · exact hhead z hz

end Interleaved

/-! ## Parts that stand clear of one another -/

/-- Whether a part may be held against candidates. -/
def Part.IsGenerated : Part → Prop
  | .kept m => m.provenance.isGenerated = true
  | .written _ => True

/-- A part that is generated is recognised behind another: it has another
signature, and it does not share a declaration with it. -/
structure Part.Clear (declared : Text → Signature) (x y : Part) : Prop where
  signature : y.IsGenerated → (x.signature declared).key ≠ (y.signature declared).key
  extent : ∀ a b, x = .kept a → y = .kept b →
    a.provenance.isGenerated = true ∨ b.provenance.isGenerated = true →
    a.extent ≠ b.extent

section

variable {s₀ s : Session} {declared : Text → Signature} {calls : List Call}
    {taken : List (Nat × Pending)} {slots : List Slot} {left : List Pending}
    {x y : Part} {i j : Nat}

/-- Two members that share an extent are shared. -/
theorem isShared_of_extent_eq {m n : Member} (hm : s₀.members[i]? = some m)
    (hn : s₀.members[j]? = some n) (hne : i ≠ j) (h : n.extent = m.extent) :
    s₀.isShared m = true := by
  have hcount : ∀ (ms : List Member) (a b : Nat), a < b → (∃ m', ms[a]? = some m' ∧
      m'.extent = m.extent) → (∃ m', ms[b]? = some m' ∧ m'.extent = m.extent) →
      1 < ms.countP (·.extent == m.extent) := by
    intro ms a b hab ⟨p, hp, hpe⟩ ⟨q, hq, hqe⟩
    have hfirst : 0 < (ms.take b).countP (·.extent == m.extent) := by
      apply List.countP_pos_iff.mpr
      refine ⟨p, List.mem_of_getElem? (i := a) ?_, by simp [hpe]⟩
      rw [List.getElem?_take_of_lt hab, hp]
    have hsecond : 0 < (ms.drop b).countP (·.extent == m.extent) := by
      apply List.countP_pos_iff.mpr
      refine ⟨q, List.mem_of_getElem? (i := 0) ?_, by simp [hqe]⟩
      rw [List.getElem?_drop, Nat.add_zero, hq]
    have hsplit : ms.countP (·.extent == m.extent) =
        (ms.take b).countP (·.extent == m.extent) + (ms.drop b).countP
          (·.extent == m.extent) := by
      rw [← List.countP_append, List.take_append_drop]
    omega
  rw [Session.isShared, decide_eq_true_iff]
  rcases Nat.lt_or_gt_of_ne hne with hlt | hlt
  · exact hcount s₀.members i j hlt ⟨m, hm, rfl⟩ ⟨n, hn, h⟩
  · exact hcount s₀.members j i hlt ⟨n, hn, h⟩ ⟨m, hm, rfl⟩

/-- A member that no other shares its extent with is not shared. -/
theorem isShared_eq_false {m : Member}
    (h : ∀ j n, s₀.members[j]? = some n → j ≠ i → n.extent ≠ m.extent) :
    s₀.isShared m = false := by
  -- no member in front of it and none behind it has its extent
  have hcount : s₀.members.countP (·.extent == m.extent) ≤ 1 := by
    have htake : (s₀.members.take i).countP (·.extent == m.extent) = 0 := by
      rw [List.countP_eq_zero]
      intro n hn
      obtain ⟨j, hj⟩ := List.mem_iff_getElem?.mp hn
      rw [List.getElem?_take] at hj
      split at hj
      · simpa using h j n hj (by omega)
      · cases hj
    have hdrop : (s₀.members.drop (i + 1)).countP (·.extent == m.extent) = 0 := by
      rw [List.countP_eq_zero]
      intro n hn
      obtain ⟨j, hj⟩ := List.mem_iff_getElem?.mp hn
      rw [List.getElem?_drop] at hj
      simpa using h _ n hj (by omega)
    have hsplit : s₀.members = s₀.members.take i ++
        ((s₀.members.drop i).take 1 ++ s₀.members.drop (i + 1)) := by
      rw [← List.drop_drop, List.take_append_drop, List.take_append_drop]
    have hone : ((s₀.members.drop i).take 1).countP (·.extent == m.extent) ≤ 1 :=
      Nat.le_trans List.countP_le_length (by rw [List.length_take]; omega)
    rw [hsplit, List.countP_append, List.countP_append, htake, hdrop]
    omega
  rw [Session.isShared, decide_eq_false_iff_not]
  omega

/-- Candidates that were held back are for different members,
wherever they went. -/
theorem apart_of_pending (reached : Session.Reached s₀ calls s)
    (htaken : TakenOver s.slots s.pending taken slots left) :
    (taken.map Prod.snd ++ left).Pairwise fun p q =>
      p.signature.key ≠ q.signature.key :=
  (htaken.accounted.pairwise_iff fun h => Ne.symm h).mp reached.pendingApart

theorem mem_pending_of_taken (htaken : TakenOver s.slots s.pending taken slots left)
    {p : Pending} (hp : (i, p) ∈ taken) : p ∈ s.pending :=
  htaken.accounted.mem_iff.mpr (List.mem_append_left _ (List.mem_map.mpr ⟨_, hp, rfl⟩))

theorem mem_pending_of_left (htaken : TakenOver s.slots s.pending taken slots left)
    {p : Pending} (hp : p ∈ left) : p ∈ s.pending :=
  htaken.accounted.mem_iff.mpr (List.mem_append_right _ hp)

/-- A part has the signature of the member at its place, or else of a candidate
for no member. -/
theorem Part.Origin.key_eq (fits : FitsCalls s₀ declared calls)
    (reached : Session.Reached s₀ calls s)
    (htaken : TakenOver s.slots s.pending taken slots left)
    (h : x.Origin s₀ calls taken i) :
    (∃ m, s₀.members[i]? = some m ∧ (x.signature declared).key = m.signature.key ∧
      (x.IsGenerated → s₀.indexOf? m.signature = some i)) ∨
    ∃ p, (i, p) ∈ taken ∧ (x.signature declared).key = p.signature.key := by
  cases h with
  | @byHand m hm hhand =>
    refine .inl ⟨m, hm, rfl, fun hgen => ?_⟩
    rw [Part.IsGenerated, hhand] at hgen
    cases hgen
  | @confirmed m c hm hfirst => exact .inl ⟨m, hm, rfl, fun _ => hfirst⟩
  | @replaced m c hm hfirst hc => exact .inl ⟨m, hm, fits.key_eq hc, fun _ => hfirst⟩
  | @taken p hp =>
    exact .inr ⟨p, hp, fits.key_eq_of_pending reached (mem_pending_of_taken htaken hp)⟩

/-- What is held back is for no member. -/
theorem key_ne_of_pending (reached : Session.Reached s₀ calls s) {p : Pending}
    (hp : p ∈ s.pending) {m : Member} (hm : s₀.members[i]? = some m) :
    m.signature.key ≠ p.signature.key :=
  Session.indexOf?_eq_none_iff.mp (reached.pendingOrigin p hp).1 m
    (List.mem_of_getElem? hm)

/-- Parts at the places of different members stand clear. -/
theorem clear_of_origins (fits : FitsCalls s₀ declared calls)
    (reached : Session.Reached s₀ calls s)
    (htaken : TakenOver s.slots s.pending taken slots left) (hij : i < j)
    (hx : x.Origin s₀ calls taken i) (hy : y.Origin s₀ calls taken j) :
    x.Clear declared y where
  signature := by
    intro hgen
    rcases hx.key_eq fits reached htaken with ⟨m, hm, hkx, -⟩ | ⟨p, hp, hkx⟩ <;>
      rcases hy.key_eq fits reached htaken with ⟨n, hn, hky, hfirst⟩ | ⟨q, hq, hky⟩
    -- of two members of the source, calls act on the first one only
    · rw [hkx, hky]
      exact (Session.indexOf?_eq_some_iff.mp (hfirst hgen)).2 i m hij hm
    · rw [hkx, hky]
      exact key_ne_of_pending reached (mem_pending_of_taken htaken hq) hm
    · rw [hkx, hky]
      exact (key_ne_of_pending reached (mem_pending_of_taken htaken hp) hn).symm
    · rw [hkx, hky]
      have hapart := (List.pairwise_append.mp (apart_of_pending reached htaken)).1
      rw [List.pairwise_map] at hapart
      have hne : (i, p) ≠ (j, q) := fun h => Nat.ne_of_lt hij (congrArg Prod.fst h)
      have : Std.Symm fun a b : Nat × Pending =>
          a.2.signature.key ≠ b.2.signature.key :=
        ⟨fun _ _ h => Ne.symm h⟩
      exact hapart.forall hp hq hne
  extent := by
    rintro a b rfl rfl hgen heq
    have horigin : ∀ {k : Nat} {c : Member}, (Part.kept c).Origin s₀ calls taken k →
        ∃ m, s₀.members[k]? = some m ∧ c.extent = m.extent ∧
          (c.provenance.isGenerated = true → s₀.isShared m = false) := by
      intro k c hc
      cases hc with
      | byHand hm hhand =>
        refine ⟨c, hm, rfl, fun h => ?_⟩
        rw [hhand] at h
        cases h
      | @confirmed m _ hm _ _ halone => exact ⟨m, hm, rfl, fun _ => halone⟩
    obtain ⟨m, hm, hmx, hma⟩ := horigin hx
    obtain ⟨n, hn, hny, hnb⟩ := horigin hy
    rw [hmx, hny] at heq
    rcases hgen with hgen | hgen
    · have := isShared_of_extent_eq hm hn (Nat.ne_of_lt hij) heq.symm
      rw [hma hgen] at this
      cases this
    · have := isShared_of_extent_eq hn hm (Nat.ne_of_gt hij) heq
      rw [hnb hgen] at this
      cases this

/-- Inserted parts and parts at the places of members stand clear, both ways. -/
theorem clear_of_left (fits : FitsCalls s₀ declared calls)
    (reached : Session.Reached s₀ calls s)
    (htaken : TakenOver s.slots s.pending taken slots left)
    (hx : x.Origin s₀ calls taken i) {p : Pending} (hp : p ∈ left) :
    x.Clear declared (.written p.text) ∧ (Part.written p.text).Clear declared x := by
  have hkey := fits.key_eq_of_pending reached (mem_pending_of_left htaken hp)
  have hne : (x.signature declared).key ≠ (declared p.text).key := by
    rw [hkey]
    rcases hx.key_eq fits reached htaken with ⟨m, hm, hkx, -⟩ | ⟨q, hq, hkx⟩
    · rw [hkx]
      exact key_ne_of_pending reached (mem_pending_of_left htaken hp) hm
    · rw [hkx]
      have hapart := (List.pairwise_append.mp (apart_of_pending reached htaken)).2.2
      exact hapart q (List.mem_map.mpr ⟨_, hq, rfl⟩) p hp
  exact ⟨⟨fun _ => hne, fun _ _ _ h => by cases h⟩,
    ⟨fun _ => hne.symm, fun _ _ h => by cases h⟩⟩

/-- However the inserted parts stand among the others, all parts stand clear. -/
theorem clear_of_interleaved (fits : FitsCalls s₀ declared calls)
    (reached : Session.Reached s₀ calls s) (fresh : s₀.IsFresh)
    {parts inserted : List Part} (hinserted : inserted.Perm s.inserted)
    (horder : Interleaved s.inPlace inserted parts) :
    parts.Pairwise (Part.Clear declared) := by
  obtain ⟨taken, htaken⟩ := exists_takenOver s.slots s.pending
  have horigin : ∀ x ∈ s.inPlace, ∃ i, x.Origin s₀ calls taken i := by
    intro x hx
    obtain ⟨slot, hslot, hpart⟩ := List.mem_filterMap.mp hx
    obtain ⟨i, hi⟩ := List.mem_iff_getElem?.mp hslot
    exact ⟨i, reached.origin fresh htaken hi hpart⟩
  have hleft : ∀ y ∈ inserted,
      ∃ p ∈ (takeOver s.slots s.pending).2, Part.written p.text = y :=
    fun y hy => List.mem_map.mp (hinserted.mem_iff.mp hy)
  apply horder.pairwise
  · rw [Session.inPlace, List.pairwise_filterMap, List.pairwise_iff_getElem]
    intro i j hi hj hij x hx y hy
    exact clear_of_origins fits reached htaken hij
      (reached.origin fresh htaken (List.getElem?_eq_getElem hi) hx)
      (reached.origin fresh htaken (List.getElem?_eq_getElem hj) hy)
  · -- inserted parts have different signatures, in whatever order they stand
    have hkeys : inserted.Pairwise fun x y =>
        (x.signature declared).key ≠ (y.signature declared).key := by
      rw [hinserted.pairwise_iff fun h => Ne.symm h, Session.inserted,
        List.pairwise_map]
      apply (List.pairwise_append.mp (apart_of_pending reached htaken)).2.1.imp_of_mem
      intro p q hp hq hne
      rw [Part.signature, Part.signature,
        fits.key_eq_of_pending reached (mem_pending_of_left htaken hp),
        fits.key_eq_of_pending reached (mem_pending_of_left htaken hq)]
      exact hne
    apply hkeys.imp_of_mem
    intro x y hx _ hne
    obtain ⟨p, -, rfl⟩ := hleft x hx
    exact ⟨fun _ => hne, fun _ _ h => by cases h⟩
  · intro x hx y hy
    obtain ⟨i, hi⟩ := horigin x hx
    obtain ⟨p, hp, rfl⟩ := hleft y hy
    exact clear_of_left fits reached htaken hi hp

/-- Every candidate has a part of its signature. -/
theorem exists_part_of_candidate (fits : FitsCalls s₀ declared calls)
    (reached : Session.Reached s₀ calls s) (fresh : s₀.IsFresh) {c : Candidate}
    (hc : c ∈ candidates calls) :
    ∃ x, (x ∈ s.inPlace ∨ x ∈ s.inserted) ∧
      (x.signature declared).key = c.signature.key := by
  obtain ⟨taken, htaken⟩ := exists_takenOver s.slots s.pending
  cases hindex : s₀.indexOf? c.signature with
  | none =>
    obtain ⟨p, hp, hkey⟩ := reached.pendingAll c hc hindex
    refine ⟨.written p.text, ?_, by
      rw [← hkey]; exact fits.key_eq_of_pending reached hp⟩
    rcases List.mem_append.mp (htaken.accounted.mem_iff.mp hp) with hp | hp
    · left
      obtain ⟨⟨i, q⟩, hq, rfl⟩ := List.mem_map.mp hp
      obtain ⟨-, slot, hslot, -⟩ := htaken.free (i, q) hq
      have hlookup := htaken.lookup_eq hq
      have hslot' := htaken.slots i
      rw [hslot, Option.map_some, Slot.assigned, hlookup] at hslot'
      exact List.mem_filterMap.mpr
        ⟨_, List.mem_of_getElem? hslot', Slot.part?_of_replacement rfl⟩
    · exact .inr (List.mem_map.mpr ⟨p, hp, rfl⟩)
  | some i =>
    obtain ⟨⟨m, hm, hkey⟩, -⟩ := Session.indexOf?_eq_some_iff.mp hindex
    have hfirst : s₀.indexOf? m.signature =
        some i := by rw [Session.indexOf?_congr s₀ hkey, hindex]
    have hmember : s.members[i]? = some (s₀.settled calls i m) := by
      rw [reached.members, hm, Option.map_some]
    obtain ⟨-, hnothing⟩ := fresh.members m (List.mem_of_getElem? hm)
    -- the member is decided on, or it is not generated: no constructor takes
    -- over its place
    have hdecided : m.provenance.isGenerated = true →
        ∃ d, candidateFor? calls m.signature = some d ∧
          s₀.settled calls i m = s₀.refreshedBy m d.code := by
      intro hgen
      cases hd : candidateFor? calls m.signature with
      | none =>
        have := List.find?_eq_none.mp hd c hc
        rw [hkey] at this
        simp at this
      | some d => exact ⟨d, rfl, Session.settled_of_first hgen hfirst hd⟩
    have hfree : taken.lookup i = none := by
      cases hlookup : taken.lookup i with
      | none => rfl
      | some p =>
        obtain ⟨front, back, heq, -⟩ := List.lookup_eq_some_iff.mp hlookup
        obtain ⟨m', hm', hgen, hopen⟩ :=
          Session.unclaimed_of_taken htaken (i := i) (p := p) (by simp [heq])
        rw [hmember, Option.some.injEq] at hm'
        subst hm'
        rw [Session.settled_provenance] at hgen
        obtain ⟨d, -, hsettled⟩ := hdecided hgen
        rw [hsettled, Session.refreshedBy_refreshed] at hopen
        cases hopen
    have hslot := htaken.slots i
    rw [Session.slots, List.getElem?_map, hmember, Option.map_some, Option.map_some,
      Slot.assigned, hfree] at hslot
    have hmem := List.mem_of_getElem? hslot
    rcases Bool.eq_false_or_eq_true m.provenance.isGenerated with hgen | hhand
    · obtain ⟨d, hd, hsettled⟩ := hdecided hgen
      rw [hsettled] at hmem
      by_cases hsame : (!s₀.isShared m && s₀.agrees m d.code) = true
      · rw [Session.refreshedBy, if_pos hsame] at hmem
        exact ⟨_,
          .inl
            (List.mem_filterMap.mpr
              ⟨_, hmem, Slot.part?_of_kept hnothing (.inr rfl)⟩),
          hkey⟩
      · rw [Session.refreshedBy, if_neg hsame] at hmem
        exact ⟨_,
          .inl (List.mem_filterMap.mpr ⟨_, hmem, Slot.part?_of_replacement rfl⟩),
          (fits.key_eq hd).trans hkey⟩
    · rw [Session.settled_of_not_generated _ _ _ _ hhand] at hmem
      exact ⟨_,
        .inl
          (List.mem_filterMap.mpr
            ⟨_, hmem, Slot.part?_of_kept hnothing (.inl hhand)⟩),
        hkey⟩

end

/-! ## The outcome as it is read again -/

/-- How a part of the outcome is found by a reader: a member that was kept with
its signature, its provenance and its text, a candidate under the signature that
it declares, with a piece of text that has its structure. -/
structure Part.FoundAs (source out : Text) (declared : Text → Signature) (x : Part)
    (m : Member) :
    Prop where
  signature : m.signature = x.signature declared
  unchanged : ∀ k, x = .kept k → m.provenance = k.provenance ∧
    out.slice m.extent.start m.extent.stop = source.slice k.extent.start k.extent.stop
  candidate : ∀ text, x = .written text →
    sameStructure (out.slice m.extent.start m.extent.stop) text = true

instance (source out : Text) (declared : Text → Signature) (m : Member) :
    (x : Part) → Decidable (x.FoundAs source out declared m)
  | .kept k =>
      decidable_of_iff (m.signature = k.signature ∧ m.provenance = k.provenance ∧
      out.slice m.extent.start m.extent.stop =
        source.slice k.extent.start k.extent.stop)
    ⟨fun ⟨h₁, h₂⟩ => ⟨h₁, fun _ h => (Part.kept.inj h) ▸ h₂, nofun⟩,
      fun h => ⟨h.signature, h.unchanged k rfl⟩⟩
  | .written text => decidable_of_iff (m.signature = declared text ∧
      sameStructure (out.slice m.extent.start m.extent.stop) text = true)
    ⟨fun ⟨h₁, h₂⟩ => ⟨h₁, nofun, fun _ h => (Part.written.inj h) ▸ h₂⟩,
      fun h => ⟨h.signature, h.candidate text rfl⟩⟩

/-- What is promised of a reader of the outcome of a pass: it finds the parts of
the type, those at the places of members in their order, and the imports. Only
members that were kept share an extent, and only where they did before. -/
structure Reread (s : Session) (out : Text) (declared : Text → Signature)
    (unit : CompilationUnit) (t : TypeDecl) (parts inserted : List Part) : Prop where
  all : inserted.Perm s.inserted
  order : Interleaved s.inPlace inserted parts
  found : List.Forall₂ (Part.FoundAs s.source out declared) parts (indexMembers t)
  extents : ∀ (i j : Nat) (x y : Part) (m n : Member), i < j →
    parts[i]? = some x → parts[j]? = some y →
    (indexMembers t)[i]? = some m → (indexMembers t)[j]? = some n →
    m.extent = n.extent →
    ∃ a b, x = .kept a ∧ y = .kept b ∧ a.extent = b.extent
  package : unit.packageName = s.unit.packageName
  imports : ∀ i ∈ s.unit.imports, ∃ i' ∈ unit.imports,
    i'.path = i.path ∧ i'.isStatic = i.isStatic ∧ i'.isWildcard = i.isWildcard
  added : ∀ q ∈ s.imports, ∃ i ∈ unit.imports,
    i.path = q ∧ i.isStatic = false ∧ i.isWildcard = false

section

variable {s₀ s s₁ : Session} {declared : Text → Signature} {calls : List Call}
    {out : Text} {unit : CompilationUnit} {t : TypeDecl} {parts inserted : List Part}

theorem exists_part_of_found {source : Text} {ms : List Member}
    (h : List.Forall₂ (Part.FoundAs source out declared) parts ms) {i : Nat}
    {m : Member} (hm : ms[i]? = some m) :
    ∃ x, parts[i]? = some x ∧ x.FoundAs source out declared m := by
  induction h generalizing i with
  | nil => cases hm
  | @cons x n xs ns hhead _ ih =>
    cases i with
    | zero =>
      cases hm
      exact ⟨x, rfl, hhead⟩
    | succ i => exact ih hm

theorem exists_found_of_part {source : Text} {ms : List Member}
    (h : List.Forall₂ (Part.FoundAs source out declared) parts ms) {x : Part}
    (hx : x ∈ parts) :
    ∃ m ∈ ms, x.FoundAs source out declared m := by
  induction h with
  | nil => cases hx
  | @cons y n ys ns hhead _ ih =>
    rcases List.mem_cons.mp hx with rfl | hx
    · exact ⟨n, List.mem_cons_self, hhead⟩
    · obtain ⟨m, hm, hfound⟩ := ih hx
      exact ⟨m, List.mem_cons_of_mem _ hm, hfound⟩

/-- A generated member of the outcome is a generated part. -/
theorem Part.FoundAs.isGenerated {source : Text} {x : Part} {m : Member}
    (h : x.FoundAs source out declared m) (hgen : m.provenance.isGenerated = true) :
    x.IsGenerated := by
  cases x with
  | kept k =>
    rw [(h.unchanged k rfl).1] at hgen
    exact hgen
  | written text => trivial

/-- A generated member of the outcome has the structure of the
candidate for it. -/
theorem Reread.claimed (reread : Reread s out declared unit t parts inserted)
    (fits : FitsCalls s₀ declared calls) (reached : Session.Reached s₀ calls s)
    (fresh : s₀.IsFresh) {x : Part} {m : Member} (hx : x ∈ parts)
    (hfound : x.FoundAs s.source out declared m)
    (hgen : m.provenance.isGenerated = true) :
    ∃ c, candidateFor? calls m.signature = some c ∧
      sameStructure (out.slice m.extent.start m.extent.stop) c.code = true := by
  obtain ⟨taken, htaken⟩ := exists_takenOver s.slots s.pending
  -- a text that was held back is the candidate for the signature it is found
  -- under
  have hpending : ∀ p ∈ s.pending, x = .written p.text →
      ∃ c, candidateFor? calls m.signature = some c ∧
        sameStructure (out.slice m.extent.start m.extent.stop) c.code = true := by
    rintro p hp rfl
    obtain ⟨-, code, hcandidate, htext⟩ := reached.pendingOrigin p hp
    have hkey : m.signature.key = p.signature.key := by
      rw [hfound.signature]
      exact fits.key_eq_of_pending reached hp
    have hsame := hfound.candidate p.text rfl
    rw [htext] at hsame
    exact ⟨⟨p.signature, code⟩, by rw [candidateFor?_congr hkey, hcandidate],
      sameStructure_laidOut (fits.of_mem (mem_of_candidateFor? hcandidate)).1 hsame⟩
  rcases (reread.order.mem_iff x).mp hx with hx | hx
  · obtain ⟨slot, hslot, hpart⟩ := List.mem_filterMap.mp hx
    obtain ⟨i, hi⟩ := List.mem_iff_getElem?.mp hslot
    have horigin := reached.origin fresh htaken hi hpart
    cases horigin with
    | @byHand k hk hhand =>
      rw [(hfound.unchanged k rfl).1, hhand] at hgen
      cases hgen
    | @confirmed k c hk hfirst hc halone hagrees =>
      have hsignature : m.signature = k.signature := hfound.signature
      refine ⟨c, by rw [hsignature, hc], ?_⟩
      rw [(hfound.unchanged _ rfl).2, reached.source_eq]
      exact hagrees
    | @replaced k c hk hfirst hc =>
      have hkey : m.signature.key = k.signature.key := by
        rw [hfound.signature]
        exact fits.key_eq hc
      exact ⟨c, by rw [candidateFor?_congr hkey, hc],
        sameStructure_laidOut (fits.of_mem (mem_of_candidateFor? hc)).1
          (hfound.candidate _ rfl)⟩
    | @taken p hp => exact hpending p (mem_pending_of_taken htaken hp) rfl
  · obtain ⟨p, hp, rfl⟩ := List.mem_map.mp (reread.all.mem_iff.mp hx)
    exact hpending p (mem_pending_of_left htaken hp) rfl

/-- What the second pass finds: every generated member is the first of its
signature, stands alone, and has the structure of the candidate for it. -/
theorem Reread.settled (reread : Reread s out declared unit t parts inserted)
    (fits : FitsCalls s₀ declared calls) (reached : Session.Reached s₀ calls s)
    (fresh : s₀.IsFresh) (hmembers : s₁.members = indexMembers t)
    (hsource : s₁.source = out) {i : Nat} {m : Member} (hm : s₁.members[i]? = some m)
    (hgen : m.provenance.isGenerated = true) :
    s₁.settled calls i m = { m with refreshed := true } := by
  rw [hmembers] at hm
  obtain ⟨x, hx, hfound⟩ := exists_part_of_found reread.found hm
  have hclear := List.pairwise_iff_getElem.mp
    (clear_of_interleaved fits reached fresh reread.all reread.order)
  have hgenerated := hfound.isGenerated hgen
  have hclear' : ∀ {j k : Nat} {y z : Part}, j < k → parts[j]? = some y →
      parts[k]? = some z →
      y.Clear declared z := by
    intro j k y z hjk hy hz
    obtain ⟨hj, rfl⟩ := List.getElem?_eq_some_iff.mp hy
    obtain ⟨hk, rfl⟩ := List.getElem?_eq_some_iff.mp hz
    exact hclear j k hj hk hjk
  -- the member is the first of its signature, as parts are clear of each other
  have hfirst : s₁.indexOf? m.signature = some i := by
    rw [Session.indexOf?_eq_some_iff, hmembers]
    refine ⟨⟨m, hm, rfl⟩, fun j n hj hn => ?_⟩
    obtain ⟨y, hy, hfound'⟩ := exists_part_of_found reread.found hn
    rw [hfound.signature, hfound'.signature]
    exact (hclear' hj hy hx).signature hgenerated
  obtain ⟨c, hc, hsame⟩ :=
    reread.claimed fits reached fresh (List.mem_of_getElem? hx) hfound hgen
  have hkept : ∀ k, x = .kept k → k.provenance.isGenerated = true := by
    rintro k rfl
    exact hgenerated
  -- and it shares its extent with no other member
  have halone : s₁.isShared m = false := by
    apply isShared_eq_false (i := i)
    intro j n hn hne hextent
    rw [hmembers] at hn
    obtain ⟨y, hy, -⟩ := exists_part_of_found reread.found hn
    rcases Nat.lt_or_gt_of_ne hne with hlt | hlt
    · obtain ⟨a, b, rfl, rfl, heq⟩ := reread.extents j i y x n m hlt hy hx hn hm hextent
      exact (hclear' hlt hy hx).extent a b rfl rfl (.inr (hkept b rfl)) heq
    · obtain ⟨a, b, rfl, rfl, heq⟩ :=
        reread.extents i j x y m n hlt hx hy hm hn hextent.symm
      exact (hclear' hlt hx hy).extent a b rfl rfl (.inl (hkept a rfl)) heq
  have hagrees : s₁.agrees m c.code = true := by
    rw [Session.agrees, hsource]
    exact hsame
  rw [Session.settled_of_first hgen hfirst hc, Session.refreshedBy, halone, hagrees]
  rfl

/-- No class has to be imported again. -/
theorem Reread.needsImport (reread : Reread s out declared unit t parts inserted)
    (reached : Session.Reached s₀ calls s) (hunit : s₁.unit = unit) {q : Text}
    (hq : .importOf q ∈ calls) : s₁.needsImport q = false := by
  rw [← Bool.not_eq_true]
  intro hneeds
  rw [Session.needsImport] at hneeds
  cases hcut : Text.cutAtLast? '.' q with
  | none =>
    rw [hcut] at hneeds
    cases hneeds
  | some parts =>
    obtain ⟨package, name⟩ := parts
    rw [hcut] at hneeds
    simp only [Bool.not_eq_true', Bool.or_eq_false_iff, List.any_eq_false, hunit,
      reread.package] at hneeds
    obtain ⟨⟨hlang, hpackage⟩, hcovered⟩ := hneeds
    -- what the outcome does not cover the source did not cover, so it was added
    have hneeded : s₀.needsImport q = true := by
      rw [Session.needsImport, hcut]
      simp only [Bool.not_eq_true', Bool.or_eq_false_iff, List.any_eq_false]
      refine ⟨⟨hlang, by rw [← reached.unit_eq]; exact hpackage⟩, fun i hi => ?_⟩
      obtain ⟨i', hi', hpath, hstatic, hwildcard⟩ :=
        reread.imports i (by rw [reached.unit_eq]; exact hi)
      have := hcovered i' hi'
      rwa [Session.covers, hpath, hstatic, hwildcard] at this
    obtain ⟨i, hi, hpath, hstatic, hwildcard⟩ :=
      reread.added q ((reached.imports q).mpr ⟨hq, hneeded⟩)
    have := hcovered i hi
    simp [Session.covers, hpath, hstatic, hwildcard] at this

end

/-! ## The second pass -/

/-- A session that has nothing to write edits nothing. -/
theorem Session.write_eq_none {s : Session} (himports : s.imports = [])
    (hpending : s.pending = [])
    (hmembers : ∀ m ∈ s.members, m.replacement = none ∧
      (m.provenance.isGenerated = true → m.refreshed = true)) : s.write = .ok none := by
  have hslots : ∀ slot ∈ s.slots,
      slot.member.replacement = none ∧ slot.isStale = false := by
    intro slot hslot
    obtain ⟨m, hm, rfl⟩ := List.mem_map.mp hslot
    refine ⟨(hmembers m hm).1, ?_⟩
    rw [← Bool.not_eq_true, Bool.and_eq_true, Bool.not_eq_true', List.any_eq_false]
    rintro ⟨hgen, hnone⟩
    have := hnone m hm
    simp [(hmembers m hm).2 hgen] at this
  have hreplaced : replacementEdits s.slots = [] := by
    have : s.slots.filter (·.member.replacement.isSome) = [] := by
      rw [List.filter_eq_nil_iff]
      intro slot hslot
      simp [(hslots slot hslot).1]
    rw [replacementEdits, this]
    rfl
  have hremoved : removalEdits s.source s.slots = [] := by
    have : s.slots.filter Slot.isStale = [] := by
      rw [List.filter_eq_nil_iff]
      intro slot hslot
      simp [(hslots slot hslot).2]
    rw [removalEdits, this]
    rfl
  -- with nothing to import, to replace, to remove or to insert there is no edit
  have hedits : s.edits = [] := by
    simp only [edits, hpending, himports, takeOver, hreplaced, hremoved]
    rfl
  have hrender : s.buffer.render = .ok s.source := by
    rw [buffer_eq, hedits]
    rfl
  rw [write, hrender]
  simp

/-- **A pass settles.** Let every candidate be code that can be stamped and that
declares a member of the signature it is offered for, and let the outcome of a
pass be read as promised. Then the same calls on the outcome write nothing. -/
theorem write_settles {source typeName : Text} {unit : CompilationUnit} {t : TypeDecl}
    {depth : Nat} {style : Style} {path : Option Text} {calls : List Call}
    {declared : Text → Signature} {out : Text}
    (fits : FitsCalls (Session.ofType source typeName unit t depth style path)
      declared calls)
    (written :
      ((Session.ofType source typeName unit t depth style path).run calls).write =
      .ok (some out))
    {unit' : CompilationUnit} {t' : TypeDecl} {parts inserted : List Part}
    (reread : Reread
      ((Session.ofType source typeName unit t depth style path).run calls) out
      declared unit' t' parts inserted)
    (depth' : Nat) (path' : Option Text) :
    ((Session.ofType out typeName unit' t' depth' style path').run calls).write =
      .ok none := by
  let s₀ := Session.ofType source typeName unit t depth style path
  let s₁ := Session.ofType out typeName unit' t' depth' style path'
  have fresh : s₀.IsFresh :=
    Session.isFresh_ofType source typeName unit t depth style path
  have fresh₁ : s₁.IsFresh :=
    Session.isFresh_ofType out typeName unit' t' depth' style path'
  have reached := Session.reached_run fresh (Session.isKept_of_written written) calls
  by_cases hkept : s₁.isKept = true
  · have := Session.run_of_isKept hkept calls
    rw [Session.write, if_pos this]
  have reached₁ := Session.reached_run fresh₁ (Bool.not_eq_true _ ▸ hkept) calls
  -- nothing is left to write: no import is missing, no member is new, and every
  -- member is settled
  apply Session.write_eq_none
  · rw [List.eq_nil_iff_forall_not_mem]
    intro q hq
    obtain ⟨hcall, hneeded⟩ := (reached₁.imports q).mp hq
    rw [reread.needsImport reached rfl hcall] at hneeded
    cases hneeded
  · rw [List.eq_nil_iff_forall_not_mem]
    intro p hp
    obtain ⟨hnew, code, hcandidate, -⟩ := reached₁.pendingOrigin p hp
    obtain ⟨x, hx, hkey⟩ :=
      exists_part_of_candidate fits reached fresh (mem_of_candidateFor? hcandidate)
    have hmem : x ∈ parts := by
      rw [reread.order.mem_iff, reread.all.mem_iff]
      exact hx
    obtain ⟨m, hm, hfound⟩ := exists_found_of_part reread.found hmem
    have hne := Session.indexOf?_eq_none_iff.mp hnew m hm
    rw [hfound.signature, hkey] at hne
    exact hne rfl
  · intro m hm
    obtain ⟨i, m₀, hm₀, rfl⟩ := reached₁.mem_members hm
    have hfresh := fresh₁.members m₀ (List.mem_of_getElem? hm₀)
    rcases Bool.eq_false_or_eq_true m₀.provenance.isGenerated with hgen | hhand
    · rw [reread.settled fits reached fresh rfl rfl hm₀ hgen]
      exact ⟨hfresh.2, fun _ => rfl⟩
    · rw [Session.settled_of_not_generated _ _ _ _ hhand]
      refine ⟨hfresh.2, fun hgen => ?_⟩
      rw [hhand] at hgen
      cases hgen

namespace Sample

/-- The outcome of the pass over the sample, as it is read. -/
def unit' : CompilationUnit := CompilationUnit.read outcome

/-- The class of the outcome. -/
def type' : TypeDecl := unit'.types.head!

/-- The first signature that a text declares inside a class. -/
def declared (text : Text) : Signature :=
  (indexMembers (CompilationUnit.read
    ("class A \x7b".toList ++ text ++ "\x7d".toList)).types.head!).head!.signature

/-- The session that the pass over the sample ends with. -/
def session : Session := (Session.ofType source "A" unit type 1 {}).run calls

theorem fitsCalls :
    FitsCalls (Session.ofType source "A" unit type 1 {}) declared calls := by
  decide +kernel

theorem reread :
    Reread session outcome declared unit' type' (session.inPlace ++ session.inserted)
    session.inserted where
  all := .refl _
  order := .append _ _
  found := by
    rw [List.forall₂_iff_zip]
    refine ⟨by decide +kernel, fun h => ?_⟩
    have hall : ∀ p ∈ (session.inPlace ++ session.inserted).zip (indexMembers type'),
        p.1.FoundAs session.source outcome declared p.2 := by
      decide +kernel
    exact hall _ h
  extents := by
    intro i j x y m n hij _ _ hm hn heq
    have hapart : (indexMembers type').Pairwise fun m n => m.extent ≠ n.extent := by
      decide +kernel
    obtain ⟨hi, rfl⟩ := List.getElem?_eq_some_iff.mp hm
    obtain ⟨hj, rfl⟩ := List.getElem?_eq_some_iff.mp hn
    exact absurd heq (List.pairwise_iff_getElem.mp hapart i j hi hj hij)
  package := by decide +kernel
  imports := by decide +kernel
  added := by decide +kernel

end Sample

/-- The pass over the sample settles. -/
theorem write_settles_sample :
    FitsCalls (Session.ofType Sample.source "A" Sample.unit Sample.type 1 {})
      Sample.declared Sample.calls ∧
    ((Session.ofType Sample.outcome "A" Sample.unit' Sample.type' 1 {}).run
      Sample.calls).write = .ok none :=
  ⟨Sample.fitsCalls, write_settles Sample.fitsCalls Sample.written Sample.reread 1 none⟩

end Graft.Merge
