import Graft.Proofs.Merge.Imports
import Graft.Proofs.Merge.Loads

/-!
# Calls of different kinds, interleaved

The calls for one kind of member decide, among themselves, what is held back of
that kind, and the requests for imports decide which are added; the calls in
between do not matter (`heldBack_filter`, `requests`). What is new goes to its
spot in the order of the calls, whatever its kind. So two runs in which the
calls of each kind come in the same order write the same text, as long as the
new members of each spot come in the same order too.
-/

namespace Graft.Merge

open Java Entity Code

/-! ## What the calls of one kind decide -/

/-- The kind of member that a call is about; requests for imports
are about none. -/
def Call.kind? : Call → Option MemberKind
  | .importOf _ => none
  | .define signature _ => some signature.kind

/-- In both lists, the calls about each kind of member are the same in
the same order. -/
def SameByKind (cs ds : List Call) : Prop :=
  ∀ kind?, cs.filter (·.kind? == kind?) = ds.filter (·.kind? == kind?)

/-- The classes that calls ask to be imported. -/
def requests (calls : List Call) : List Text :=
  calls.filterMap fun
    | .importOf qualified => some qualified
    | .define _ _ => none

/-- A list is read for what a part of it yields from that part alone. -/
theorem filterMap_filter_of_none {α β : Type} {f : α → Option β} {q : α → Bool}
    (h : ∀ a, q a = false → f a = none) (xs : List α) :
    (xs.filter q).filterMap f = xs.filterMap f := by
  induction xs with
  | nil => rfl
  | cons x rest ih =>
    cases hx : q x with
    | true => rw [List.filter_cons_of_pos hx, List.filterMap_cons,
        List.filterMap_cons, ih]
    | false =>
      rw [List.filter_cons_of_neg (by simp [hx]), List.filterMap_cons_none (h x hx), ih]

namespace SameByKind

variable {cs ds : List Call}

theorem requests_eq (h : SameByKind cs ds) : requests cs = requests ds := by
  have hnone (call : Call) (hcall : (call.kind? == none) = false) :
      (fun | .importOf qualified => some qualified | .define _ _ => none :
        Call → Option Text) call = none := by
    cases call with
    | importOf _ => cases hcall
    | define _ _ => rfl
  rw [requests, ← filterMap_filter_of_none hnone, h none,
    filterMap_filter_of_none hnone, requests]

theorem candidates_eq (h : SameByKind cs ds) (kind : MemberKind) :
    (candidates cs).filter (·.signature.kind == kind) =
      (candidates ds).filter (·.signature.kind == kind) := by
  have hone (call : Call) (hcall : (call.kind? == some kind) = false) :
      (call.candidate?.filter fun c => c.signature.kind == kind) = none := by
    cases call with
    | importOf _ => rfl
    | define signature code =>
      have hkind : (signature.kind == kind) = false := by simpa [Call.kind?] using hcall
      simp [Call.candidate?, Option.filter, hkind]
  rw [candidates, candidates, List.filter_filterMap, List.filter_filterMap,
    ← filterMap_filter_of_none hone, h (some kind), filterMap_filter_of_none hone]

/-- The first candidate for a member is among the candidates of its kind. -/
theorem candidateFor?_eq (h : SameByKind cs ds) (signature : Signature) :
    candidateFor? cs signature = candidateFor? ds signature := by
  have hkind (calls : List Call) : candidateFor? calls signature =
      ((candidates calls).filter (·.signature.kind == signature.kind)).find?
        fun c => decide (c.signature.key = signature.key) := by
    rw [List.find?_filter, candidateFor?]
    congr 1
    funext c
    have hboth : c.signature.key = signature.key →
        c.signature.kind = signature.kind := congrArg Signature.Key.kind
    simpa using hboth
  rw [hkind, hkind, h.candidates_eq]

end SameByKind

namespace Session

/-! ## What is held back -/

/-- What is held back, with a candidate added that is for no member and that is
the first one for what it is for. -/
def holdBack (s : Session) (pending : List Pending) (c : Candidate) : List Pending :=
  if s.indexOf? c.signature = none ∧ ∀ p ∈ pending,
    p.signature.key ≠ c.signature.key then
    pending ++ [⟨c.signature, s.laidOut c.code⟩]
  else pending

/-- Imports, with one added that is needed and was not added before. -/
def addImport (s : Session) (imports : List Text) (qualified : Text) : List Text :=
  if s.needsImport qualified = true ∧
    qualified ∉ imports then imports ++ [qualified] else imports

theorem pending_perform_define {s : Session} (free : s.isKept = false)
    (signature : Signature) (code : Text) :
    (s.perform (.define signature code)).pending =
      s.holdBack s.pending ⟨signature, ensureStamped code⟩ := by
  cases hindex : s.indexOf? signature with
  | none =>
    rw [perform_define_new free hindex, holdBack]
    have hdup : s.pending.any (·.signature.isSameMember signature) = true ↔
        ¬ ∀ p ∈ s.pending, p.signature.key ≠ signature.key := by
      simp [Signature.isSameMember_iff]
    by_cases h : ∀ p ∈ s.pending, p.signature.key ≠ signature.key
    · rw [if_neg (hdup.not.mpr (not_not.mpr h)), if_pos ⟨hindex, h⟩]
    · rw [if_pos (hdup.mpr h), if_neg fun hboth => h hboth.2]
  | some index =>
    obtain ⟨⟨m, hm, -⟩, -⟩ := indexOf?_eq_some_iff.mp hindex
    have hstays : s.holdBack s.pending ⟨signature, ensureStamped code⟩ = s.pending :=
      if_neg fun h => by
        rw [hindex] at h
        cases h.1
    rw [perform_define_existing free hindex hm, hstays]
    split
    · rfl
    · split <;> rfl

theorem imports_perform_importOf {s : Session} (free : s.isKept = false)
    (qualified : Text) :
    (s.perform (.importOf qualified)).imports = s.addImport s.imports qualified := by
  rw [perform, addImport]
  rcases ensureImport_cases free qualified with ⟨heq, hneeds, hnew⟩ | ⟨heq, hidle⟩
  · rw [heq, if_pos ⟨hneeds, hnew⟩]
  · rw [heq, if_neg]
    rintro ⟨hneeds, hnew⟩
    rcases hidle with h | h
    · rw [hneeds] at h
      cases h
    · exact hnew h

namespace Reached

variable {s₀ s : Session} {done : List Call}

/-- What calls hold back, one candidate after the other. -/
theorem pending_run (h : Reached s₀ done s) (fresh : s₀.IsFresh)
    (free : s₀.isKept = false) (calls : List Call) :
    (s.run calls).pending = (candidates calls).foldl s₀.holdBack s.pending := by
  induction calls generalizing done s with
  | nil => rfl
  | cons call rest ih =>
    rw [run_cons, ih (Reached.perform h fresh free call)]
    have hfree : s.isKept = false := by rw [h.isKept_eq, free]
    cases call with
    | importOf qualified =>
      obtain ⟨imports, himports, -⟩ := ensureImport_spec hfree qualified
      rw [Session.perform, himports]
      rfl
    | define signature code =>
      have hsame : s.holdBack = s₀.holdBack := by
        funext pending c
        rw [holdBack, holdBack, h.indexOf?_eq, h.laidOut_eq]
      rw [pending_perform_define hfree, hsame]
      rfl

/-- What requests add, one after the other. -/
theorem imports_run (h : Reached s₀ done s) (fresh : s₀.IsFresh)
    (free : s₀.isKept = false) (calls : List Call) :
    (s.run calls).imports = (requests calls).foldl s₀.addImport s.imports := by
  induction calls generalizing done s with
  | nil => rfl
  | cons call rest ih =>
    rw [run_cons, ih (Reached.perform h fresh free call)]
    have hfree : s.isKept = false := by rw [h.isKept_eq, free]
    cases call with
    | importOf qualified =>
      have hsame : s.addImport = s₀.addImport := by
        funext imports q
        rw [addImport, addImport, h.needsImport_eq]
      rw [imports_perform_importOf hfree, hsame]
      rfl
    | define signature code =>
      rw [imports_perform_define]
      rfl

end Reached

/-- Candidates of other kinds do not matter for what is held back of a kind. -/
theorem heldBack_filter (s : Session) (kind : MemberKind) (cs : List Candidate)
    (pending : List Pending) :
    (cs.foldl s.holdBack pending).filter (·.signature.kind == kind) =
      (cs.filter (·.signature.kind == kind)).foldl s.holdBack
        (pending.filter (·.signature.kind == kind)) := by
  induction cs generalizing pending with
  | nil => rfl
  | cons c rest ih =>
    rw [List.foldl_cons, ih]
    cases hkind : (c.signature.kind == kind) with
    | false =>
      rw [List.filter_cons_of_neg (by simp [hkind])]
      congr 1
      rw [holdBack]
      split
      · rw [List.filter_append, List.filter_singleton, hkind, cond_false,
          List.append_nil]
      · rfl
    | true =>
      have hcs : (c :: rest).filter (·.signature.kind == kind) =
          c :: rest.filter (·.signature.kind == kind) := List.filter_cons_of_pos hkind
      rw [hcs, List.foldl_cons]
      congr 1
      -- what is held back for the same member is of the same kind
      have halone : (∀ p ∈ pending, p.signature.key ≠ c.signature.key) ↔
          ∀ p ∈ pending.filter (·.signature.kind == kind),
            p.signature.key ≠ c.signature.key := by
        refine ⟨fun h p hp => h p (List.mem_filter.mp hp).1, fun h p hp hkey => ?_⟩
        refine h p (List.mem_filter.mpr ⟨hp, ?_⟩) hkey
        rw [show p.signature.kind =
          c.signature.kind from congrArg Signature.Key.kind hkey]
        exact hkind
      rw [holdBack, holdBack]
      by_cases hadds : s.indexOf? c.signature = none ∧
          ∀ p ∈ pending, p.signature.key ≠ c.signature.key
      · rw [if_pos hadds, if_pos ⟨hadds.1, halone.mp hadds.2⟩, List.filter_append,
          List.filter_singleton, hkind, cond_true]
      · rw [if_neg hadds, if_neg fun h => hadds ⟨h.1, halone.mpr h.2⟩]

/-- What is held back comes in the order of the candidates. -/
theorem heldBack_sublist (s : Session) (cs : List Candidate) (pending : List Pending) :
    List.Sublist (cs.foldl s.holdBack pending)
      (pending ++ cs.map fun c => ⟨c.signature, s.laidOut c.code⟩) := by
  induction cs generalizing pending with
  | nil => simp
  | cons c rest ih =>
    rw [List.foldl_cons, List.map_cons, ← List.singleton_append, ← List.append_assoc]
    refine (ih _).trans (List.Sublist.append_right ?_ _)
    rw [holdBack]
    split
    · exact .refl _
    · exact List.sublist_append_left _ _

end Session

/-! ## Spots -/

/-- Where new members stand together. -/
inductive Spot where
  /-- Behind the member that ends at a position. -/
  | behind (position : Nat)
  /-- At the start of the body. -/
  | atStart
  /-- At the end of the body. -/
  | atEnd
  deriving DecidableEq, Repr

/-- The spot of a new member. Positions behind the source mean its end. -/
def Session.spot (s : Session) (slots : List Slot) (p : Pending) : Spot :=
  match s.place slots p with
  | .behind e => .behind (min e.stop s.source.length)
  | .atStart _ => .atStart
  | .atEnd _ => .atEnd

/-- The new members of a spot. -/
def Session.newAt (s : Session) (spot : Spot) : List Pending :=
  (takeOver s.slots s.pending).2.filter
    (s.spot (takeOver s.slots s.pending).1 · == spot)

namespace Session

variable {s : Session} {slots : List Slot}

/-- The insertion behind a member, as it is recorded. -/
def recordedBehind? (s : Session) (slots : List Slot) (p : Pending) : Option Edit :=
  (s.place slots p).edit?.map (Edit.clampTo s.source.length)

/-- A new member goes behind a member exactly if its spot is behind one. -/
theorem recordedBehind?_eq (s : Session) (slots : List Slot) (p : Pending) :
    (∃ position anchor, s.spot slots p = .behind position ∧ s.recordedBehind? slots p =
      some ⟨position, position, gap anchor p.signature.kind ++ p.text⟩) ∨
    ((s.spot slots p = .atStart ∨ s.spot slots p = .atEnd) ∧
      s.recordedBehind? slots p = none) := by
  rw [spot, recordedBehind?]
  rcases place_cases s slots p with ⟨position, anchor, h⟩ | h | h
  · left
    refine ⟨min position s.source.length, anchor, by rw [h], ?_⟩
    rw [h]
    simp [Placement.edit?, Edit.clampTo]
  · rw [h]
    exact .inr ⟨.inl rfl, rfl⟩
  · rw [h]
    exact .inr ⟨.inr rfl, rfl⟩

/-- What one of the joined places collects are the texts of its spot. -/
theorem placedTexts_eq {text? : Placement → Option Text} {spot : Spot}
    (h : ∀ p, text? (s.place slots p) = if s.spot slots p == spot then some p.text
      else none) (left : List Pending) : (left.map (s.place slots)).filterMap text? =
      (left.filter (s.spot slots · == spot)).map (·.text) := by
  induction left with
  | nil => rfl
  | cons p rest ih =>
    rw [List.map_cons, List.filterMap_cons, ih, h, List.filter_cons]
    cases s.spot slots p == spot <;> rfl

theorem startTexts_eq (s : Session) (slots : List Slot) (left : List Pending) :
    (left.map (s.place slots)).filterMap Placement.startText? =
      (left.filter (s.spot slots · == .atStart)).map (·.text) := by
  refine placedTexts_eq (fun p => ?_) left
  rw [spot]
  rcases place_cases s slots p with ⟨position, anchor, h⟩ | h | h <;> rw [h] <;> rfl

theorem endTexts_eq (s : Session) (slots : List Slot) (left : List Pending) :
    (left.map (s.place slots)).filterMap Placement.endText? =
      (left.filter (s.spot slots · == .atEnd)).map (·.text) := by
  refine placedTexts_eq (fun p => ?_) left
  rw [spot]
  rcases place_cases s slots p with ⟨position, anchor, h⟩ | h | h <;> rw [h] <;> rfl

theorem behindEdits_eq (s : Session) (slots : List Slot) (left : List Pending) :
    ((left.map (s.place slots)).filterMap Placement.edit?).map
      (Edit.clampTo s.source.length) =
      left.filterMap (s.recordedBehind? slots) := by
  rw [List.filterMap_map, List.map_filterMap]
  rfl

/-- What is inserted behind a member is what is new at that spot. -/
theorem filter_recordedBehind (s : Session) (slots : List Slot)
    (left : List Pending) (r : Nat) :
    (left.filterMap (s.recordedBehind? slots)).filter (·.rank == r) =
      ((left.filter (s.spot slots · == .behind (r / 2))).filterMap
        (s.recordedBehind? slots)).filter
        (·.rank == r) := by
  rw [List.filter_filterMap, List.filter_filterMap, filterMap_filter_of_none]
  intro p hp
  rcases recordedBehind?_eq s slots p with ⟨position, anchor, hspot, hedit⟩ | ⟨-, hedit⟩
  · have hr :
        (Edit.rank ⟨position, position, gap anchor p.signature.kind ++ p.text⟩ == r) =
          false := by
      rw [hspot] at hp
      simp only [beq_eq_false_iff_ne, ne_eq, Spot.behind.injEq] at hp
      simp only [Edit.rank, Edit.isInsertion, beq_self_eq_true, if_true,
        beq_eq_false_iff_ne]
      omega
    rw [hedit, Option.filter_some, hr, if_neg Bool.false_ne_true]
  · rw [hedit]
    rfl

/-- The insertions of new members depend, at each place of the order of
application, on what is new at each spot. -/
theorem insertionEdits_congr {left left' : List Pending}
    (h : ∀ spot, left.filter (s.spot slots · == spot) =
      left'.filter (s.spot slots · == spot)) (r : Nat) :
    ((s.insertionEdits slots left).map (Edit.clampTo s.source.length)).filter
      (·.rank == r) =
      ((s.insertionEdits slots left').map (Edit.clampTo s.source.length)).filter
        (·.rank == r) := by
  have hbehind : (left.filterMap (s.recordedBehind? slots)).filter (·.rank == r) =
      (left'.filterMap (s.recordedBehind? slots)).filter (·.rank == r) := by
    rw [filter_recordedBehind, h, ← filter_recordedBehind]
  rw [insertionEdits_eq, insertionEdits_eq]
  simp only [startTexts_eq, endTexts_eq, h, List.map_append, List.filter_append,
    behindEdits_eq, hbehind]

end Session

/-! ## Two runs -/

theorem takeOverSlot?_of_kind {slots : List Slot} {p : Pending}
    (h : (p.signature.kind == .constructor) = false) :
    takeOverSlot? slots p = none := by
  rw [takeOverSlot?, if_neg (by simp [h])]

/-- New members of other kinds do not matter for what is taken over. -/
theorem takeOver_constructors (slots : List Slot) (pending : List Pending) :
    (takeOver slots (pending.filter (·.signature.kind == .constructor))).1 =
      (takeOver slots pending).1 := by
  induction pending generalizing slots with
  | nil => rfl
  | cons p rest ih =>
    cases hkind : p.signature.kind == .constructor with
    | false =>
      rw [List.filter_cons_of_neg (by simp [hkind]), ih, takeOver,
        takeOverSlot?_of_kind hkind]
    | true =>
      have hp : (p :: rest).filter (·.signature.kind == .constructor) =
          p :: rest.filter (·.signature.kind == .constructor) :=
            List.filter_cons_of_pos hkind
      rw [hp, takeOver, takeOver]
      cases takeOverSlot? slots p with
      | none => exact ih slots
      | some i => exact ih _

namespace Session

variable {s₀ s s' : Session} {cs ds : List Call}

theorem Reached.members_eq (h : Reached s₀ cs s) (h' : Reached s₀ ds s')
    (same : SameByKind cs ds) :
    s.members = s'.members := by
  apply List.ext_getElem?
  intro i
  rw [h.members, h'.members]
  congr 1
  funext m
  rw [settled, settled, same.candidateFor?_eq]

/-- Behind any calls, new members are put where they would be
put at the start. -/
theorem Reached.insertions_eq (h : Reached s₀ cs s) :
    s.spot = s₀.spot ∧ s.insertionEdits = s₀.insertionEdits := by
  rw [h.site]
  exact ⟨rfl, rfl⟩

theorem Reached.names_eq (h : Reached s₀ cs s) :
    s.typeName = s₀.typeName ∧ s.path = s₀.path := by
  rw [h.site]
  exact ⟨rfl, rfl⟩

/-- Runs with the same calls for each kind, and with the same new members at
each spot, write the same. -/
theorem write_run_congr (fresh : s₀.IsFresh) (same : SameByKind cs ds)
    (h : ∀ spot, (s₀.run cs).newAt spot = (s₀.run ds).newAt spot) :
    (s₀.run cs).write = (s₀.run ds).write := by
  cases kept : s₀.isKept with
  | true => rw [run_eq_of_isKept kept, run_eq_of_isKept kept]
  | false =>
    have reached := reached_run fresh kept cs
    have reached' := reached_run fresh kept ds
    have start := Reached.of_isFresh fresh
    have imports : (s₀.run cs).imports = (s₀.run ds).imports := by
      rw [start.imports_run fresh kept, start.imports_run fresh kept, same.requests_eq]
    have constructors : (s₀.run cs).pending.filter (·.signature.kind == .constructor) =
        (s₀.run ds).pending.filter (·.signature.kind == .constructor) := by
      rw [start.pending_run fresh kept, start.pending_run fresh kept, heldBack_filter,
        heldBack_filter, same.candidates_eq]
    have slots : (takeOver (s₀.run cs).slots (s₀.run cs).pending).1 =
        (takeOver (s₀.run ds).slots (s₀.run ds).pending).1 := by
      rw [← takeOver_constructors, constructors, takeOver_constructors, Session.slots,
        Session.slots, reached.members_eq reached' same]
    have new (spot : Spot) := h spot
    simp only [newAt, reached.insertions_eq.1, reached'.insertions_eq.1, slots] at new
    -- the edits are the same at each place of the order, so they are applied in
    -- the same order
    have arranged : Edit.arrange (s₀.run cs).buffer.edits =
        Edit.arrange (s₀.run ds).buffer.edits := by
      apply Edit.arrange_congr
      intro r
      rw [buffer_eq, buffer_eq, edits, edits]
      simp only [reached.unit_eq, reached'.unit_eq, reached.source_eq,
        reached'.source_eq, reached.insertions_eq.2, reached'.insertions_eq.2,
        imports, slots, List.map_append, List.filter_append, insertionEdits_congr new]
    have rendered : (s₀.run cs).buffer.render = (s₀.run ds).buffer.render := by
      rw [EditBuffer.render, EditBuffer.render, arranged, buffer_source, buffer_source,
        reached.source_eq, reached'.source_eq]
    rw [write, write, rendered, reached.isKept_eq, reached'.isKept_eq,
      reached.source_eq, reached'.source_eq, reached.unit_eq, reached'.unit_eq,
      reached.names_eq.1, reached'.names_eq.1, reached.names_eq.2,
      reached'.names_eq.2]

end Session

/-! ## What stands at a spot -/

/-- A text of several texts in their order, with nothing but
blanks between them. -/
inductive Gapped : List Text → Text → Prop
  | single (text : Text) : Gapped [text] text
  | cons (text : Text) {blank rest : Text} {texts : List Text}
      (blanks : Text.isBlank blank = true) (more : Gapped texts rest) :
      Gapped (text :: texts) (text ++ blank ++ rest)

theorem gapped_join {separator : Text} (hblank : Text.isBlank separator = true)
    {texts : List Text} (hne : texts ≠ []) :
    Gapped texts (Text.join separator texts) := by
  induction texts with
  | nil => exact absurd rfl hne
  | cons text rest ih =>
    cases rest with
    | nil =>
      rw [Text.join, List.intercalate_singleton]
      exact .single text
    | cons next more =>
      have hjoin : Text.join separator (text :: next :: more) =
          text ++ separator ++ Text.join separator (next :: more) := by
        simp [Text.join, List.intercalate, List.intersperse]
      rw [hjoin]
      exact .cons text hblank (ih (List.cons_ne_nil _ _))

namespace Session

/-- The position that new members of a spot are inserted at. Positions behind
the source mean its end. -/
def spotPosition (s : Session) : Spot → Nat
  | .behind position => position
  | .atStart => min (s.body.start + 1) s.source.length
  | .atEnd => min (s.bodyEndEdit []).start s.source.length

/-- A block stands in an outcome at a spot: it is part of what is inserted at the
position of the spot, and that stands right behind what becomes of the source in
front of the position. -/
structure StandsAt (s : Session) (spot : Spot) (block out : Text) : Prop where
  inserted : block <:+: Edit.insertedAt s.buffer.edits (s.spotPosition spot)
  behind :
    Edit.contents s.source s.buffer.edits 0 (s.spotPosition spot) ++
      Edit.insertedAt s.buffer.edits (s.spotPosition spot) <+: out

variable {s : Session} {slots : List Slot}

/-- A block that stands at a spot stands in the outcome in one piece. -/
theorem StandsAt.isInfix {spot : Spot} {block out : Text}
    (h : s.StandsAt spot block out) : block <:+: out :=
  h.inserted.trans ((List.suffix_append _ _).isInfix.trans h.behind.isInfix)

/-- What is recorded for new members behind one member is their texts, with
blanks around them. -/
theorem gapped_behind {left : List Pending} {position : Nat} (hne : left ≠ [])
    (hspot : ∀ p ∈ left, s.spot slots p = .behind position) :
    (∀ e ∈ left.filterMap (s.recordedBehind? slots), e.insertsAt position = true) ∧
    ∃ lead block, (left.filterMap (s.recordedBehind? slots)).flatMap Edit.text =
      lead ++ block ∧
      Text.isBlank lead = true ∧ Gapped (left.map (·.text)) block := by
  -- the gap in front of the first member leads the block, the others are inside
  -- it
  induction left with
  | nil => exact absurd rfl hne
  | cons p rest ih =>
    rw [List.forall_mem_cons] at hspot
    obtain ⟨anchor, hedit⟩ : ∃ anchor, s.recordedBehind? slots p =
        some ⟨position, position, gap anchor p.signature.kind ++ p.text⟩ := by
      rcases recordedBehind?_eq s slots p with ⟨here, anchor, h, hedit⟩ | ⟨h, -⟩
      · rw [hspot.1, Spot.behind.injEq] at h
        exact ⟨anchor, h ▸ hedit⟩
      · rw [hspot.1] at h
        rcases h with h | h <;> cases h
    have hinserts : Edit.insertsAt position
        ⟨position, position, gap anchor p.signature.kind ++ p.text⟩ = true := by
      simp [Edit.insertsAt, Edit.isInsertion]
    rw [List.filterMap_cons_some hedit]
    cases rest with
    | nil =>
      refine ⟨by simpa using hinserts, gap anchor p.signature.kind, p.text, ?_,
        isBlank_gap _ _, .single _⟩
      simp
    | cons next more =>
      obtain ⟨hall, lead, block, htexts, hblank, hgapped⟩ :=
        ih (List.cons_ne_nil _ _) hspot.2
      refine ⟨List.forall_mem_cons.mpr ⟨hinserts, hall⟩, gap anchor p.signature.kind,
        p.text ++ lead ++ block, ?_, isBlank_gap _ _, .cons _ hblank hgapped⟩
      rw [List.flatMap_cons, htexts]
      simp only [List.append_assoc]

theorem isInfix_bodyEndEdit (s : Session) (block : Text) :
    block <:+: (s.bodyEndEdit block).text := by
  rw [bodyEndEdit]
  dsimp only
  split
  · exact List.infix_append _ _ _
  · exact List.infix_append ['\n'] block _

/-- Whatever is put at the end of the body is inserted at one position. -/
theorem bodyEndEdit_insertion (s : Session) (block : Text) :
    (s.bodyEndEdit block).start = (s.bodyEndEdit []).start ∧
      (s.bodyEndEdit block).stop = (s.bodyEndEdit block).start := by
  rw [bodyEndEdit, bodyEndEdit]
  dsimp only
  split <;> exact ⟨rfl, rfl⟩

theorem insertionEdits_isInfix (s : Session) :
    s.insertionEdits (takeOver s.slots s.pending).1
      (takeOver s.slots s.pending).2 <:+: s.edits := by
  rw [edits]
  exact (List.suffix_append _ _).isInfix

/-- The edits behind members that insert at a position are those for what is new
behind the member that ends there. -/
theorem insertsAt_behindEdits (s : Session) (position : Nat) :
    (((takeOver s.slots s.pending).2.filterMap
      (s.recordedBehind? (takeOver s.slots s.pending).1)).filter
        (Edit.insertsAt position)) =
      ((s.newAt (.behind position)).filterMap
        (s.recordedBehind? (takeOver s.slots s.pending).1)).filter
          (Edit.insertsAt position) := by
  have hrank : Edit.insertsAt position = fun e => e.rank == 2 * position :=
    funext (Edit.insertsAt_eq_rank position)
  rw [hrank, filter_recordedBehind, Nat.mul_div_cancel_left position (by decide), newAt]

/-- What is inserted behind one member holds the new members of that spot
together. -/
theorem inserted_newAt_behind {position : Nat} (hne : s.newAt (.behind position) ≠ []) :
    ∃ block, Gapped ((s.newAt (.behind position)).map (·.text)) block ∧
      block <:+: Edit.insertedAt s.buffer.edits position := by
  have hspot : ∀ p ∈ s.newAt (.behind position),
      s.spot (takeOver s.slots s.pending).1 p = .behind position :=
    fun p hp => eq_of_beq (List.mem_filter.mp hp).2
  obtain ⟨hall, lead, block, htexts, -, hgapped⟩ := gapped_behind hne hspot
  refine ⟨block, hgapped, ?_⟩
  have hbehind : (((takeOver s.slots s.pending).2.map
      (s.place (takeOver s.slots s.pending).1)).filterMap Placement.edit?) <:+:
        s.edits := by
    refine List.IsInfix.trans ?_ s.insertionEdits_isInfix
    rw [insertionEdits_eq, List.append_assoc]
    exact (List.prefix_append _ _).isInfix
  -- what is recorded at the position holds what is new behind the member, in
  -- one piece
  have hrecorded :=
    (hbehind.map (Edit.clampTo s.source.length)).filter (Edit.insertsAt position)
  rw [behindEdits_eq, insertsAt_behindEdits, List.filter_eq_self.mpr hall] at hrecorded
  have htogether := Edit.flatMap_text_isInfix hrecorded
  rw [htexts] at htogether
  rw [buffer_eq, Edit.insertedAt]
  exact (List.suffix_append lead block).isInfix.trans htogether

/-- What is inserted at the position of a spot holds the new members of the spot
together. -/
theorem inserted_newAt {spot : Spot} (hne : s.newAt spot ≠ []) :
    ∃ block, Gapped ((s.newAt spot).map (·.text)) block ∧
      block <:+: Edit.insertedAt s.buffer.edits (s.spotPosition spot) := by
  have hfilled : (s.newAt spot).map (·.text) ≠ [] := by simpa using hne
  have htexts : ((s.newAt spot).map (·.text)).isEmpty = false := by simpa using hne
  cases spot with
  | behind position => exact inserted_newAt_behind hne
  | atStart =>
    refine ⟨_, gapped_join (show Text.isBlank ['\n'] = true from rfl) hfilled, ?_⟩
    have hedit : (⟨s.body.start + 1, s.body.start + 1,
        '\n' :: Text.join ['\n'] ((s.newAt .atStart).map (·.text)) ++ ['\n']⟩ : Edit) ∈
          s.edits := by
      refine s.insertionEdits_isInfix.subset ?_
      rw [insertionEdits_eq, startTexts_eq, ← newAt, htexts]
      exact List.mem_append_left _ (List.mem_append_right _ (List.mem_singleton_self _))
    exact (List.infix_append ['\n'] _ _).trans (text_isInfix_insertedAt hedit rfl)
  | atEnd =>
    refine ⟨_, gapped_join (show Text.isBlank ['\n', '\n'] = true from rfl) hfilled, ?_⟩
    have hedit : s.bodyEndEdit (Text.join ['\n', '\n']
        ((s.newAt .atEnd).map (·.text))) ∈ s.edits := by
      refine s.insertionEdits_isInfix.subset ?_
      rw [insertionEdits_eq, endTexts_eq, ← newAt, htexts]
      exact List.mem_append_right _ (List.mem_singleton_self _)
    obtain ⟨hstart, hstop⟩ := bodyEndEdit_insertion s
      (Text.join ['\n', '\n'] ((s.newAt .atEnd).map (·.text)))
    rw [spotPosition, ← hstart]
    exact (isInfix_bodyEndEdit s _).trans (text_isInfix_insertedAt hedit hstop)

/-- A spot with new members is a position of the source. -/
theorem spotPosition_le {spot : Spot} (hne : s.newAt spot ≠ []) :
    s.spotPosition spot ≤ s.source.length := by
  cases spot with
  | behind position =>
    obtain ⟨p, hp⟩ := List.exists_mem_of_ne_nil _ hne
    have hspot := eq_of_beq (List.mem_filter.mp hp).2
    rw [spot] at hspot
    split at hspot
    · cases hspot
      exact Nat.min_le_right _ _
    · cases hspot
    · cases hspot
  | atStart => exact Nat.min_le_right _ _
  | atEnd => exact Nat.min_le_right _ _

/-- The new members of a spot stand together in the outcome, at the spot. -/
theorem gapped_newAt {out : Text} (h : s.write = .ok (some out)) {spot : Spot}
    (hne : s.newAt spot ≠ []) :
    ∃ block, Gapped ((s.newAt spot).map (·.text)) block ∧
      s.StandsAt spot block out := by
  obtain ⟨block, hgapped, hinserted⟩ := inserted_newAt hne
  exact ⟨block, hgapped, hinserted, insertedAt_of_written h (spotPosition_le hne)⟩

/-- The spots of all new members. -/
def spots (s : Session) : List Spot :=
  (takeOver s.slots s.pending).2.map (s.spot (takeOver s.slots s.pending).1)

/-- What is new at each spot has to be compared at the spots of
new members only. -/
theorem forall_newAt_eq {s s' : Session}
    (h : ∀ spot ∈ s.spots ++ s'.spots, s.newAt spot = s'.newAt spot) (spot : Spot) :
    s.newAt spot = s'.newAt spot := by
  have hnone (s : Session) (hspot : spot ∉ s.spots) : s.newAt spot = [] := by
    refine List.filter_eq_nil_iff.mpr fun p hp hat => hspot ?_
    exact List.mem_map.mpr ⟨p, hp, eq_of_beq hat⟩
  by_cases hspot : spot ∈ s.spots ++ s'.spots
  · exact h spot hspot
  · rw [List.mem_append, not_or] at hspot
    rw [hnone s hspot.1, hnone s' hspot.2]

/-- Taking over leaves new members in their order. -/
theorem takeOver_sublist (slots : List Slot) (pending : List Pending) :
    List.Sublist (takeOver slots pending).2 pending := by
  induction pending generalizing slots with
  | nil => exact .refl _
  | cons p rest ih =>
    rw [takeOver]
    cases takeOverSlot? slots p with
    | none => exact (ih slots).cons_cons p
    | some i => exact (ih _).cons p

/-- The new members of a spot come in the order of the candidates for them. -/
theorem newAt_sublist {s₀ : Session} (fresh : s₀.IsFresh) (calls : List Call)
    (spot : Spot) :
    List.Sublist ((s₀.run calls).newAt spot)
      ((candidates calls).map fun c => ⟨c.signature, s₀.laidOut c.code⟩) := by
  have hleft : List.Sublist ((s₀.run calls).newAt spot) (s₀.run calls).pending :=
    List.filter_sublist.trans (takeOver_sublist _ _)
  refine hleft.trans ?_
  cases kept : s₀.isKept with
  | true =>
    rw [run_eq_of_isKept kept, fresh.pending]
    exact List.nil_sublist _
  | false =>
    rw [(Reached.of_isFresh fresh).pending_run fresh kept, fresh.pending]
    exact s₀.heldBack_sublist (candidates calls) []

end Session

/-- The place of a kind in the order of fields, constructors and methods. -/
def MemberKind.rank : MemberKind → Nat
  | .field => 0
  | .constructor => 1
  | .method => 2

/-- **New members stand in the order of the calls for them.** At each spot,
behind a member, at the start of the body or at its end, the new members stand
together, in the order in which they were asked for: fields in front of
constructors and those in front of methods if they were asked for so. Two runs
whose calls for each kind come in the same order write the same, as long as the
new members of each spot come in the same order as well. -/
theorem new_members_keep_call_order (source typeName : Text) (unit : CompilationUnit)
    (t : TypeDecl) (depth : Nat) (style : Style) (path : Option Text) :
    let s₀ := Session.ofType source typeName unit t depth style path
    (∀ (calls : List Call) (spot : Spot),
      List.Sublist ((s₀.run calls).newAt spot)
        ((candidates calls).map fun c => ⟨c.signature, s₀.laidOut c.code⟩) ∧
      (((candidates calls).Pairwise fun c d =>
        c.signature.kind.rank ≤ d.signature.kind.rank) →
        ((s₀.run calls).newAt spot).Pairwise fun p q =>
          p.signature.kind.rank ≤ q.signature.kind.rank) ∧
      ∀ out, (s₀.run calls).write = .ok (some out) → (s₀.run calls).newAt spot ≠ [] →
        ∃ block, Gapped (((s₀.run calls).newAt spot).map (·.text)) block ∧
          block <:+: out ∧ (s₀.run calls).StandsAt spot block out) ∧
    ∀ cs ds : List Call, SameByKind cs ds →
      (∀ spot, (s₀.run cs).newAt spot = (s₀.run ds).newAt spot) →
      (s₀.run cs).write = (s₀.run ds).write := by
  intro s₀
  have fresh : s₀.IsFresh :=
    Session.isFresh_ofType source typeName unit t depth style path
  refine ⟨fun calls spot => ?_,
    fun cs ds same new => Session.write_run_congr fresh same new⟩
  have hsublist := Session.newAt_sublist fresh calls spot
  refine ⟨hsublist, fun hsorted => ?_, fun out written hne => ?_⟩
  · exact List.Pairwise.sublist hsublist (List.pairwise_map.mpr hsorted)
  · obtain ⟨block, hgapped, hstands⟩ := Session.gapped_newAt written hne
    exact ⟨block, hgapped, hstands.isInfix, hstands⟩

namespace SpotSample

/-- A class with a field and a method written by hand. -/
def source : Text := "class A \x7b\n    int x;\n    void f() \x7b\x7d\n\x7d\n"

/-- The source as it is read. -/
def unit : CompilationUnit := CompilationUnit.read source

/-- A session over the class. -/
def session : Session := Session.ofType source "A" unit unit.types.head! 1 {}

/-- A new field. -/
def field : Call := .define (.field "a") "int a;"

/-- A new method. -/
def method : Call := .define (.method "g" []) "void g() \x7b\x7d"

/-- The class with both. -/
def outcome : Text :=
  "class A \x7b\n    int x;\n    @Generated(hash = 100361257)\n    int a;\n    void f() \x7b\x7d\n\n" ++
    "    @Generated(hash = -989931530)\n    void g() \x7b\x7d\n\x7d\n"

/-- The kinds may change places. -/
theorem sameByKind : SameByKind [field, method] [method, field] := by
  rintro (_ | _ | _ | _) <;> rfl

end SpotSample

/-- In the sample, field and method have spots of their own, and the order of
the calls does not show. -/
theorem new_members_keep_call_order_sample :
    SameByKind [SpotSample.field, SpotSample.method]
      [SpotSample.method, SpotSample.field] ∧
    (SpotSample.session.run [SpotSample.method, SpotSample.field]).write =
      .ok (some SpotSample.outcome) ∧
    (SpotSample.session.run [SpotSample.field, SpotSample.method]).write =
      .ok (some SpotSample.outcome) ∧
    ∃ block,
      Gapped (((SpotSample.session.run [SpotSample.method, SpotSample.field]).newAt
        (.behind 20)).map (·.text)) block ∧
      block <:+: SpotSample.outcome ∧
      (SpotSample.session.run [SpotSample.method, SpotSample.field]).StandsAt
        (.behind 20) block SpotSample.outcome := by
  obtain ⟨order, runs⟩ :=
    new_members_keep_call_order SpotSample.source "A" SpotSample.unit
      SpotSample.unit.types.head! 1 {} none
  have written : (SpotSample.session.run [SpotSample.method, SpotSample.field]).write =
      .ok (some SpotSample.outcome) := by decide +kernel
  have spots : ∀ spot,
      (SpotSample.session.run [SpotSample.field, SpotSample.method]).newAt spot =
      (SpotSample.session.run [SpotSample.method, SpotSample.field]).newAt spot :=
    Session.forall_newAt_eq (by decide +kernel)
  refine ⟨SpotSample.sameByKind, written, ?_, ?_⟩
  · exact (runs _ _ SpotSample.sameByKind spots).trans written
  · exact (order _ (.behind 20)).2.2 _ written (by decide +kernel)

namespace SharedSpot

/-- A class with a field, behind which fields and methods are put. -/
def source : Text := "class A \x7b\n    int x;\n\x7d\n"

/-- The source as it is read. -/
def unit : CompilationUnit := CompilationUnit.read source

/-- A session over the class. -/
def session : Session := Session.ofType source "A" unit unit.types.head! 1 {}

/-- The class with a field and a method, in this order. -/
def fieldFirst : Text :=
  "class A \x7b\n    int x;\n    @Generated(hash = 100361257)\n    int a;\n\n" ++
    "    @Generated(hash = -989931530)\n    void g() \x7b\x7d\n\x7d\n"

/-- The class with a method and a field, in this order. -/
def methodFirst : Text :=
  "class A \x7b\n    int x;\n\n    @Generated(hash = -989931530)\n    void g() \x7b\x7d\n" ++
    "    @Generated(hash = 100361257)\n    int a;\n\x7d\n"

end SharedSpot

/-- Kinds are not sorted at a spot: a method that is asked for in front of a
field stands in front of it, and runs that differ only in how the kinds are
interleaved write different texts. -/
theorem kinds_are_not_sorted :
    let s := SharedSpot.session
    SameByKind [SpotSample.field, SpotSample.method]
      [SpotSample.method, SpotSample.field] ∧
    (s.run [SpotSample.field, SpotSample.method]).write =
      .ok (some SharedSpot.fieldFirst) ∧
    (s.run [SpotSample.method, SpotSample.field]).write =
      .ok (some SharedSpot.methodFirst) ∧
    SharedSpot.fieldFirst ≠ SharedSpot.methodFirst ∧
    ((s.run [SpotSample.method, SpotSample.field]).newAt (.behind 20)).map
      (·.signature.kind) =
      [.method, .field] :=
  ⟨SpotSample.sameByKind, by decide +kernel⟩

end Graft.Merge
