import Graft.Merge.Pass
import Graft.Proofs.Merge.Signature

/-!
# What a pass has decided

The state of a session behind any calls, described by the calls alone. A
generated member that is the first of its signature is decided on by the first
candidate for it; a candidate that fits no member is held back unless one for
the same member was held back before; everything else stays as it was. `Reached`
collects this, `Reached.perform` is the step and `reached_run` the whole pass.
-/

namespace Graft.Merge

open Java Entity Code

/-- Code to be written for a signature. -/
structure Candidate where
  signature : Signature
  code : Text
  deriving DecidableEq, Repr

/-- The candidate that a call brings, marked for who looks after it. -/
def Call.candidate? : Call → Option Candidate
  | .define signature code => some ⟨signature, ensureStamped code⟩
  | .importOf _ => none

/-- The candidates among calls. -/
def candidates (calls : List Call) : List Candidate := calls.filterMap Call.candidate?

/-- The first candidate among calls for the member that a
signature stands for. -/
def candidateFor? (calls : List Call) (signature : Signature) : Option Candidate :=
  (candidates calls).find? fun c => decide (c.signature.key = signature.key)

theorem candidateFor?_append_of_some {calls : List Call} {signature : Signature}
    {c : Candidate} (h : candidateFor? calls signature = some c) (call : Call) :
    candidateFor? (calls ++ [call]) signature = some c := by
  simp only [candidateFor?, candidates] at h ⊢
  rw [List.filterMap_append, List.find?_append, h, Option.some_or]

theorem candidateFor?_append_define {calls : List Call} {signature σ : Signature}
    {code : Text} (h : candidateFor? calls signature = none) :
    candidateFor? (calls ++ [.define σ code]) signature =
      if σ.key = signature.key then some ⟨σ, ensureStamped code⟩ else none := by
  simp only [candidateFor?, candidates] at h ⊢
  rw [List.filterMap_append, List.find?_append, h, Option.none_or]
  by_cases hk : σ.key = signature.key <;> simp [Call.candidate?, hk]

theorem candidateFor?_append_importOf (calls : List Call)
    (signature : Signature) (q : Text) :
    candidateFor? (calls ++ [.importOf q]) signature =
      candidateFor? calls signature := by
  simp [candidateFor?, candidates, Call.candidate?]

theorem key_of_candidateFor? {calls : List Call} {signature : Signature} {c : Candidate}
    (h : candidateFor? calls signature = some c) : c.signature.key = signature.key := by
  simpa using List.find?_some h

theorem candidateFor?_congr {calls : List Call} {a b : Signature} (h : a.key = b.key) :
    candidateFor? calls a = candidateFor? calls b := by
  simp only [candidateFor?, h]

namespace Session

/-- The position of the first member that a signature stands for. -/
def indexOf? (s : Session) (signature : Signature) : Option Nat :=
  s.members.findIdx? (·.signature.isSameMember signature)

/-- A member of a session as a candidate for it leaves it. -/
def refreshedBy (s : Session) (m : Member) (code : Text) : Member :=
  if !s.isShared m && s.agrees m code then { m with refreshed := true }
  else { m with refreshed := true, replacement := some (s.laidOut code) }

/-- A member at a position as calls leave it. -/
def settled (s : Session) (calls : List Call) (index : Nat) (m : Member) : Member :=
  if m.provenance.isGenerated && s.indexOf? m.signature == some index then
    match candidateFor? calls m.signature with
    | none => m
    | some c => s.refreshedBy m c.code
  else m

/-- Whether an import has to be added for a class to be usable. -/
def needsImport (s : Session) (qualified : Text) : Bool :=
  match Text.cutAtLast? '.' qualified with
  | none => false
  | some (package, _) =>
    !(package == "java.lang".toList || package == s.unit.packageName ||
      s.unit.imports.any (covers package qualified))

/-- No call was made on the session yet. -/
structure IsFresh (s : Session) : Prop where
  members : ∀ m ∈ s.members, m.refreshed = false ∧ m.replacement = none
  pending : s.pending = []
  imports : s.imports = []

theorem isFresh_ofType (source typeName : Text) (unit : CompilationUnit)
    (t : TypeDecl) (depth : Nat) (style : Style) (path : Option Text) :
    (ofType source typeName unit t depth style path).IsFresh where
  members := by
    intro m hm
    simp only [ofType, indexMembers, List.mem_flatMap, membersOf, List.mem_map] at hm
    obtain ⟨d, _, signature, _, rfl⟩ := hm
    exact ⟨rfl, rfl⟩
  pending := rfl
  imports := rfl

/-! ## Facts about single members -/

section

variable (s : Session) (calls : List Call) (index : Nat) (m : Member) (code : Text)

@[simp] theorem refreshedBy_signature :
    (s.refreshedBy m code).signature = m.signature := by
  unfold refreshedBy; split <;> rfl

@[simp] theorem refreshedBy_provenance :
    (s.refreshedBy m code).provenance = m.provenance := by
  unfold refreshedBy; split <;> rfl

@[simp] theorem refreshedBy_extent : (s.refreshedBy m code).extent = m.extent := by
  unfold refreshedBy; split <;> rfl

@[simp] theorem refreshedBy_line : (s.refreshedBy m code).line = m.line := by
  unfold refreshedBy; split <;> rfl

@[simp] theorem refreshedBy_refreshed : (s.refreshedBy m code).refreshed = true := by
  unfold refreshedBy; split <;> rfl

@[simp] theorem settled_signature :
    (s.settled calls index m).signature = m.signature := by
  unfold settled; repeat' split
  all_goals simp

@[simp] theorem settled_provenance :
    (s.settled calls index m).provenance = m.provenance := by
  unfold settled; repeat' split
  all_goals simp

@[simp] theorem settled_extent : (s.settled calls index m).extent = m.extent := by
  unfold settled; repeat' split
  all_goals simp

@[simp] theorem settled_line : (s.settled calls index m).line = m.line := by
  unfold settled; repeat' split
  all_goals simp

/-- Only generated members are touched. -/
theorem settled_of_not_generated (h : m.provenance.isGenerated = false) :
    s.settled calls index m = m := by
  simp [settled, h]

theorem settled_append_importOf (q : Text) :
    s.settled (calls ++ [.importOf q]) index m = s.settled calls index m := by
  simp [settled, candidateFor?_append_importOf]

variable {s calls index m}

/-- A candidate decides on a member only if it is the first for it. -/
theorem settled_append_define {σ : Signature} (code : Text)
    (h : ¬ (m.provenance.isGenerated = true ∧
    s.indexOf? m.signature = some index ∧ candidateFor? calls m.signature = none ∧
    σ.key = m.signature.key)) :
    s.settled (calls ++ [.define σ code]) index m = s.settled calls index m := by
  unfold settled
  split
  · next hfirst =>
    simp only [Bool.and_eq_true, beq_iff_eq] at hfirst
    cases hc : candidateFor? calls m.signature with
    | some c => rw [candidateFor?_append_of_some hc]
    | none =>
      have hkey : σ.key ≠ m.signature.key := fun hk => h ⟨hfirst.1, hfirst.2, hc, hk⟩
      rw [candidateFor?_append_define hc, if_neg hkey]
  · rfl

theorem settled_of_first {c : Candidate} (hgen : m.provenance.isGenerated = true)
    (hindex : s.indexOf? m.signature = some index)
    (hc : candidateFor? calls m.signature = some c) :
    s.settled calls index m = s.refreshedBy m c.code := by
  simp [settled, hgen, hindex, hc]

theorem settled_of_no_candidate (hc : candidateFor? calls m.signature = none) :
    s.settled calls index m = m := by
  simp [settled, hc]

end

theorem indexOf?_congr (s : Session) {a b : Signature} (h : a.key = b.key) :
    s.indexOf? a = s.indexOf? b := by
  simp only [indexOf?, Signature.isSameMember_eq, h]

theorem indexOf?_eq_some_iff {s : Session} {signature : Signature} {index : Nat} :
    s.indexOf? signature = some index ↔
      (∃ m, s.members[index]? = some m ∧ m.signature.key = signature.key) ∧
      ∀ j m, j < index → s.members[j]? = some m → m.signature.key ≠ signature.key := by
  simp only [indexOf?, List.findIdx?_eq_some_iff_getElem, Signature.isSameMember_iff]
  constructor
  · rintro ⟨hlt, hkey, hbefore⟩
    refine ⟨⟨_, List.getElem?_eq_getElem hlt, hkey⟩, ?_⟩
    intro j m hj hm
    obtain ⟨hjlt, rfl⟩ := List.getElem?_eq_some_iff.mp hm
    exact hbefore j hj
  · rintro ⟨⟨m, hm, hkey⟩, hbefore⟩
    obtain ⟨hlt, rfl⟩ := List.getElem?_eq_some_iff.mp hm
    exact ⟨hlt, hkey, fun j hj => hbefore j _ hj (List.getElem?_eq_getElem (by omega))⟩

theorem indexOf?_eq_none_iff {s : Session} {signature : Signature} :
    s.indexOf? signature = none ↔ ∀ m ∈ s.members, m.signature.key ≠ signature.key := by
  simp only [indexOf?, List.findIdx?_eq_none_iff, Signature.isSameMember_eq,
    decide_eq_false_iff_not, ne_eq]

/-- A request for an import adds it to the list at most. -/
theorem ensureImport_spec {s : Session} (hkept : s.isKept = false) (qualified : Text) :
    ∃ imports, (s.ensureImport qualified).1 = { s with imports } ∧
      ∀ q, q ∈ imports ↔
        q ∈ s.imports ∨ (q = qualified ∧ s.needsImport qualified = true) := by
  rw [ensureImport, if_neg (by simp [hkept]), needsImport]
  cases hcut : Text.cutAtLast? '.' qualified with
  | none => exact ⟨s.imports, rfl, by simp⟩
  | some parts =>
    obtain ⟨package, rest⟩ := parts
    dsimp only
    -- being imported is being covered or having been asked for before
    have hsplit (covered : Bool) (hcovered : s.isImported package qualified =
        (covered || s.imports.contains qualified)) :
        ∃ imports, (if s.isImported package qualified then (s, false)
          else ({ s with imports := s.imports ++ [qualified] }, true)).1 =
            { s with imports } ∧
          ∀ q, q ∈ imports ↔ q ∈ s.imports ∨ (q = qualified ∧ (!covered) = true) := by
      by_cases himported : s.isImported package qualified = true
      · refine ⟨s.imports, by rw [if_pos himported], fun q => ⟨.inl, ?_⟩⟩
        rintro (hq | ⟨rfl, hneed⟩)
        · exact hq
        · rw [hcovered, Bool.not_eq_eq_eq_not.mp hneed] at himported
          exact List.contains_iff_mem.mp himported
      · refine ⟨s.imports ++ [qualified], by rw [if_neg himported], fun q => ?_⟩
        have hneed : covered = false := by
          rw [hcovered, Bool.or_eq_true, not_or, Bool.not_eq_true] at himported
          exact himported.1
        simp [hneed]
    exact hsplit _ rfl

theorem perform_define_new {s : Session} (hkept : s.isKept = false) {σ : Signature}
    {code : Text} (hindex : s.indexOf? σ = none) :
    s.perform (.define σ code) =
      if s.pending.any (·.signature.isSameMember σ) then s
      else
        { s with pending := s.pending ++ [⟨σ, s.laidOut (ensureStamped code)⟩] } := by
  have hfind : s.findMember? σ = none := by
    rw [indexOf?] at hindex
    simp [findMember?, hindex]
  rw [perform, define, if_neg (by simp [hkept]), hfind]
  dsimp only
  rw [defineNew]
  by_cases hdup : s.pending.any (·.signature.isSameMember σ) = true
  · rw [if_pos hdup, if_pos hdup]
  · rw [if_neg hdup, if_neg hdup]

theorem perform_define_existing {s : Session} (hkept : s.isKept = false) {σ : Signature}
    {code : Text} {index : Nat} {m : Member} (hindex : s.indexOf? σ = some index)
    (hm : s.members[index]? = some m) :
    s.perform (.define σ code) =
      if m.refreshed then s
      else match m.provenance with
        | .keep => { s with notes := s.notes ++ [.keptMember (s.locationOf m)] }
        | .unmarked => s
        | .generated _ =>
          { s with
            members := s.members.set index
              (s.refreshedBy m (ensureStamped code)) } := by
  have hfind : s.findMember? σ = some (index, m) := by
    rw [indexOf?] at hindex
    simp [findMember?, hindex, hm]
  rw [perform, define, if_neg (by simp [hkept]), hfind]
  dsimp only
  rw [defineExisting]
  by_cases hrefreshed : m.refreshed = true
  · rw [if_pos hrefreshed, if_pos hrefreshed]
  · rw [if_neg hrefreshed, if_neg hrefreshed]
    cases m.provenance with
    | unmarked => rfl
    | keep => rfl
    | generated hash =>
      dsimp only
      rw [refresh, refreshedBy]
      split <;> rfl

/-! ## The whole pass -/

/-- The state of a session in terms of the calls that were made on it
since it was fresh. -/
structure Reached (s₀ : Session) (calls : List Call) (s : Session) : Prop where
  /-- Nothing but the decisions has changed. -/
  site : s = { s₀ with
    members := s.members, pending := s.pending, imports := s.imports, notes := s.notes }
  members : ∀ i, s.members[i]? = s₀.members[i]?.map (s₀.settled calls i)
  /-- What is held back is the first candidate for something
  that is no member. -/
  pendingOrigin : ∀ p ∈ s.pending, s₀.indexOf? p.signature = none ∧
    ∃ code, candidateFor? calls p.signature = some ⟨p.signature, code⟩ ∧
      p.text = s₀.laidOut code
  pendingApart : s.pending.Pairwise fun p q => p.signature.key ≠ q.signature.key
  pendingAll : ∀ c ∈ candidates calls, s₀.indexOf? c.signature = none →
    ∃ p ∈ s.pending, p.signature.key = c.signature.key
  imports : ∀ q, q ∈ s.imports ↔ .importOf q ∈ calls ∧ s₀.needsImport q = true

namespace Reached

variable {s₀ s : Session} {calls : List Call}

theorem of_isFresh (fresh : s₀.IsFresh) : Reached s₀ [] s₀ where
  site := rfl
  members i := by
    have : s₀.settled [] i = id := by
      funext m
      exact settled_of_no_candidate rfl
    rw [this]
    simp
  pendingOrigin := by simp [fresh.pending]
  pendingApart := by simp [fresh.pending]
  pendingAll := by simp [candidates]
  imports := by simp [fresh.imports]

section

variable (h : Reached s₀ calls s)

include h

theorem source_eq : s.source = s₀.source := by rw [h.site]

theorem unit_eq : s.unit = s₀.unit := by rw [h.site]

theorem body_eq : s.body = s₀.body := by rw [h.site]

theorem isKept_eq : s.isKept = s₀.isKept := by rw [h.site]

theorem laidOut_eq (code : Text) : s.laidOut code = s₀.laidOut code := by
  rw [h.site]
  rfl

/-- A member of the session comes from the member at its place at the start. -/
theorem mem_members {m : Member} (hm : m ∈ s.members) :
    ∃ i m₀, s₀.members[i]? = some m₀ ∧ m = s₀.settled calls i m₀ := by
  obtain ⟨i, hi⟩ := List.mem_iff_getElem?.mp hm
  rw [h.members, Option.map_eq_some_iff] at hi
  obtain ⟨m₀, hm₀, rfl⟩ := hi
  exact ⟨i, m₀, hm₀, rfl⟩

/-- Whatever depends on signature and extent alone is as it was at the start. -/
theorem map_members {α : Type} (f : Member → α)
    (hf : ∀ i m, f (s₀.settled calls i m) = f m) :
    s.members.map f = s₀.members.map f := by
  apply List.ext_getElem?
  intro i
  rw [List.getElem?_map, List.getElem?_map, h.members, Option.map_map]
  congr 1
  funext m
  exact hf i m

theorem indexOf?_eq (signature : Signature) :
    s.indexOf? signature = s₀.indexOf? signature := by
  have hmap := h.map_members (·.signature) fun i m => settled_signature s₀ calls i m
  have key : ∀ x : Session,
      x.indexOf? signature =
        (x.members.map (·.signature)).findIdx? (·.isSameMember signature) := by
    intro x
    rw [List.findIdx?_map]
    rfl
  rw [key, key, hmap]

theorem isShared_eq (m : Member) : s.isShared m = s₀.isShared m := by
  have hmap := h.map_members (·.extent) fun i m => settled_extent s₀ calls i m
  have key : ∀ x : Session, x.members.countP (·.extent == m.extent) =
      (x.members.map (·.extent)).countP (· == m.extent) := by
    intro x
    rw [List.countP_map]
    rfl
  simp only [isShared, key, hmap]

theorem agrees_eq (m : Member) (code : Text) : s.agrees m code = s₀.agrees m code := by
  rw [agrees, agrees, h.source_eq]

theorem refreshedBy_eq (m : Member) (code : Text) :
    s.refreshedBy m code = s₀.refreshedBy m code := by
  rw [refreshedBy, refreshedBy, h.isShared_eq, h.agrees_eq, h.laidOut_eq]

theorem needsImport_eq (qualified : Text) :
    s.needsImport qualified = s₀.needsImport qualified := by
  rw [needsImport, needsImport, h.unit_eq]

/-! ### One call -/

theorem perform_importOf (hkept : s₀.isKept = false) (qualified : Text) :
    Reached s₀ (calls ++ [.importOf qualified]) (s.perform (.importOf qualified)) := by
  have hk : s.isKept = false := by rw [h.isKept_eq, hkept]
  obtain ⟨imports, hs, himports⟩ := ensureImport_spec hk qualified
  rw [perform, hs]
  -- only the imports change, and asking for one gives no candidate
  exact
    { site := by rw [h.site]
      members := fun i => by
        have : s₀.settled (calls ++ [.importOf qualified]) i = s₀.settled calls i := by
          funext m
          exact settled_append_importOf s₀ calls i m qualified
        rw [this]
        exact h.members i
      pendingOrigin := fun p hp => by
        rw [candidateFor?_append_importOf]
        exact h.pendingOrigin p hp
      pendingApart := h.pendingApart
      pendingAll := fun c hc => by
        have : c ∈ candidates calls := by simpa [candidates, Call.candidate?] using hc
        exact h.pendingAll c this
      imports := fun q => by
        rw [himports, h.imports, h.needsImport_eq, List.mem_append,
          List.mem_singleton, Call.importOf.injEq]
        constructor
        · rintro (⟨hq, hneed⟩ | ⟨rfl, hneed⟩)
          · exact ⟨.inl hq, hneed⟩
          · exact ⟨.inr rfl, hneed⟩
        · rintro ⟨hq | rfl, hneed⟩
          · exact .inl ⟨hq, hneed⟩
          · exact .inr ⟨rfl, hneed⟩ }

/-- A candidate that decides on no member leaves all members as they were. -/
theorem members_append_define {σ : Signature} (code : Text)
    (hidle : ∀ i m, s₀.members[i]? = some m → ¬ (m.provenance.isGenerated = true ∧
      s₀.indexOf? m.signature = some i ∧ candidateFor? calls m.signature = none ∧
      σ.key = m.signature.key)) (i : Nat) :
    s.members[i]? = s₀.members[i]?.map (s₀.settled (calls ++ [.define σ code]) i) := by
  rw [h.members]
  cases hm : s₀.members[i]? with
  | none => rfl
  | some m =>
    rw [Option.map_some, Option.map_some, settled_append_define code (hidle i m hm)]

/-- What the calls before a candidate held back is what they
hold back with it. -/
theorem pendingOrigin_append (call : Call) :
    ∀ p ∈ s.pending, s₀.indexOf? p.signature = none ∧
    ∃ code, candidateFor? (calls ++ [call]) p.signature = some ⟨p.signature, code⟩ ∧
      p.text = s₀.laidOut code := by
  intro p hp
  obtain ⟨hnew, code, hc, htext⟩ := h.pendingOrigin p hp
  exact ⟨hnew, code, candidateFor?_append_of_some hc call, htext⟩

theorem imports_append_define (σ : Signature) (code : Text) (q : Text) :
    q ∈ s.imports ↔ .importOf q ∈ calls ++ [.define σ code] ∧
    s₀.needsImport q = true := by
  rw [h.imports]
  simp

theorem perform_define (fresh : s₀.IsFresh) (hkept : s₀.isKept = false) (σ : Signature)
    (code : Text) :
    Reached s₀ (calls ++ [.define σ code]) (s.perform (.define σ code)) := by
  have hk : s.isKept = false := by rw [h.isKept_eq, hkept]
  have hcandidates : ∀ c, c ∈ candidates (calls ++ [.define σ code]) ↔
      c ∈ candidates calls ∨ c = ⟨σ, ensureStamped code⟩ := by
    simp [candidates, Call.candidate?]
  cases hindex : s₀.indexOf? σ with
  | none =>
    have hidle : ∀ i m, s₀.members[i]? = some m → ¬ (m.provenance.isGenerated = true ∧
        s₀.indexOf? m.signature = some i ∧ candidateFor? calls m.signature = none ∧
        σ.key = m.signature.key) := by
      intro i m hm hdecides
      exact indexOf?_eq_none_iff.mp hindex m (List.mem_of_getElem? hm)
        hdecides.2.2.2.symm
    rw [perform_define_new hk (by rw [h.indexOf?_eq, hindex])]
    split
    · next hdup =>
      obtain ⟨p, hp, hsame⟩ := List.any_eq_true.mp hdup
      exact
        { site := h.site
          members := h.members_append_define code hidle
          pendingOrigin := h.pendingOrigin_append _
          pendingApart := h.pendingApart
          pendingAll := fun c hc hnew => by
            rcases (hcandidates c).mp hc with hc | rfl
            · exact h.pendingAll c hc hnew
            · exact ⟨p, hp, (Signature.isSameMember_iff _ _).mp hsame⟩
          imports := h.imports_append_define σ code }
    · next hdup =>
      have hapart : ∀ p ∈ s.pending, p.signature.key ≠ σ.key := by
        intro p hp hkey
        exact hdup
          (List.any_eq_true.mpr ⟨p, hp, (Signature.isSameMember_iff _ _).mpr hkey⟩)
      have hfirst : candidateFor? calls σ = none := by
        rw [candidateFor?, List.find?_eq_none]
        intro c hc hkey
        have hkey : c.signature.key = σ.key := of_decide_eq_true hkey
        obtain ⟨p, hp, hpkey⟩ := h.pendingAll c hc (indexOf?_congr s₀ hkey ▸ hindex)
        exact hapart p hp (hpkey.trans hkey)
      exact
        { site := by rw [h.site]
          members := h.members_append_define code hidle
          pendingOrigin := fun p hp => by
            rcases List.mem_append.mp hp with hp | hp
            · exact h.pendingOrigin_append _ p hp
            · rw [List.mem_singleton] at hp
              subst hp
              refine ⟨hindex, ensureStamped code, ?_, by rw [h.laidOut_eq]⟩
              rw [candidateFor?_append_define hfirst, if_pos rfl]
          pendingApart := by
            refine List.pairwise_append.mpr
              ⟨h.pendingApart, List.pairwise_singleton _ _, ?_⟩
            intro p hp q hq
            rw [List.mem_singleton] at hq
            subst hq
            exact hapart p hp
          pendingAll := fun c hc hnew => by
            rcases (hcandidates c).mp hc with hc | rfl
            · obtain ⟨p, hp, hkey⟩ := h.pendingAll c hc hnew
              exact ⟨p, List.mem_append_left _ hp, hkey⟩
            · exact ⟨_, List.mem_append_right _ (List.mem_singleton.mpr rfl), rfl⟩
          imports := h.imports_append_define σ code }
  | some index =>
    have hpendingAll : ∀ c ∈ candidates (calls ++ [.define σ code]),
        s₀.indexOf? c.signature = none →
        ∃ p ∈ s.pending, p.signature.key = c.signature.key := by
      intro c hc hnew
      rcases (hcandidates c).mp hc with hc | rfl
      · exact h.pendingAll c hc hnew
      · rw [hindex] at hnew
        cases hnew
    obtain ⟨⟨m₀, hm₀, hkey⟩, -⟩ := indexOf?_eq_some_iff.mp hindex
    have hindex₀ : s₀.indexOf? m₀.signature =
        some index := by rw [indexOf?_congr s₀ hkey, hindex]
    have hm : s.members[index]? = some (s₀.settled calls index m₀) := by
      rw [h.members, hm₀, Option.map_some]
    -- only the member found can be decided on
    have honly : ∀ i m, s₀.members[i]? = some m → s₀.indexOf? m.signature = some i →
        σ.key = m.signature.key → i = index ∧ m = m₀ := by
      intro i m hi hfirst hσ
      rw [indexOf?_congr s₀ hσ.symm, hindex, Option.some.injEq] at hfirst
      subst hfirst
      rw [hi, Option.some.injEq] at hm₀
      exact ⟨rfl, hm₀⟩
    have hquiet (notes : List Note) (hdecided : m₀.provenance.isGenerated = true →
        candidateFor? calls m₀.signature ≠ none) :
        Reached s₀ (calls ++ [.define σ code]) { s with notes } :=
      { site := by rw [h.site]
        members := h.members_append_define code fun i m hi hdecides => by
          obtain ⟨hgen, hfirst, hnone, hσ⟩ := hdecides
          obtain ⟨-, rfl⟩ := honly i m hi hfirst hσ
          exact hdecided hgen hnone
        pendingOrigin := h.pendingOrigin_append _
        pendingApart := h.pendingApart
        pendingAll := hpendingAll
        imports := h.imports_append_define σ code }
    rw [perform_define_existing hk (by rw [h.indexOf?_eq, hindex]) hm]
    have hundecided := (fresh.members m₀ (List.mem_of_getElem? hm₀)).1
    cases hprov : m₀.provenance with
    | unmarked =>
      rw [settled_of_not_generated _ _ _ _ (by rw [hprov]; rfl), hundecided, hprov]
      exact hquiet s.notes (by simp [hprov, Provenance.isGenerated])
    | keep =>
      rw [settled_of_not_generated _ _ _ _ (by rw [hprov]; rfl), hundecided, hprov]
      exact hquiet _ (by simp [hprov, Provenance.isGenerated])
    | generated hash =>
      have hgen : m₀.provenance.isGenerated = true := by rw [hprov]; rfl
      cases hc : candidateFor? calls m₀.signature with
      | some c =>
        rw [settled_of_first hgen hindex₀ hc, refreshedBy_refreshed, if_pos rfl]
        exact hquiet s.notes (by simp [hc])
      | none =>
        rw [settled_of_no_candidate hc, hundecided, if_neg (by decide), hprov]
        have hdecided : s₀.settled (calls ++ [.define σ code]) index m₀ =
            s₀.refreshedBy m₀ (ensureStamped code) := by
          rw [settled_of_first hgen hindex₀
            (candidateFor?_append_define hc ▸ if_pos hkey.symm)]
        exact
          { site := by rw [h.site]
            members := fun i => by
              dsimp only
              rw [List.getElem?_set]
              by_cases hi : index = i
              · subst hi
                have hlt : index < s.members.length :=
                  (List.getElem?_eq_some_iff.mp hm).1
                rw [if_pos rfl, if_pos hlt, hm₀, Option.map_some, hdecided,
                  h.refreshedBy_eq]
              · rw [if_neg hi, h.members]
                cases hi₀ : s₀.members[i]? with
                | none => rfl
                | some m =>
                  rw [Option.map_some, Option.map_some, settled_append_define code]
                  rintro ⟨-, hfirst, -, hσ⟩
                  exact hi (honly i m hi₀ hfirst hσ).1.symm
            pendingOrigin := h.pendingOrigin_append _
            pendingApart := h.pendingApart
            pendingAll := hpendingAll
            imports := h.imports_append_define σ code }

theorem perform (fresh : s₀.IsFresh) (hkept : s₀.isKept = false) (call : Call) :
    Reached s₀ (calls ++ [call]) (s.perform call) := by
  cases call with
  | importOf qualified => exact h.perform_importOf hkept qualified
  | define σ code => exact h.perform_define fresh hkept σ code

theorem run (fresh : s₀.IsFresh) (hkept : s₀.isKept = false) (more : List Call) :
    Reached s₀ (calls ++ more) (s.run more) := by
  induction more generalizing calls s with
  | nil =>
    rw [List.append_nil]
    exact h
  | cons call rest ih =>
    have := ih (h.perform fresh hkept call)
    rwa [List.append_assoc] at this

end

end Reached

/-- What any calls leave of a fresh session over a type that is not
kept as a whole. -/
theorem reached_run {s₀ : Session} (fresh : s₀.IsFresh) (hkept : s₀.isKept = false)
    (calls : List Call) : Reached s₀ calls (s₀.run calls) :=
  (Reached.of_isFresh fresh).run fresh hkept calls

/-- Calls on a type that is kept as a whole change nothing. -/
theorem run_eq_of_isKept {s : Session} (hkept : s.isKept = true) (calls : List Call) :
    s.run calls = s := by
  induction calls with
  | nil => rfl
  | cons call rest ih =>
    have hidle : s.perform call = s := by
      cases call with
      | importOf q => rw [perform, ensureImport, if_pos hkept]
      | define signature code => rw [perform, define, if_pos hkept]
    rw [run_cons, hidle, ih]

/-- Any calls lead from a fresh session to one that is reached by some. -/
theorem exists_reached {s₀ : Session} (fresh : s₀.IsFresh) (calls : List Call) :
    ∃ calls', Reached s₀ calls' (s₀.run calls) := by
  cases hkept : s₀.isKept with
  | false => exact ⟨calls, reached_run fresh hkept calls⟩
  | true =>
    refine ⟨[], ?_⟩
    rw [run_eq_of_isKept hkept]
    exact Reached.of_isFresh fresh

end Session

end Graft.Merge
