import Graft.Proofs.Code.Overlap
import Graft.Proofs.Results
import Mathlib.Data.List.Basic

/-!
# Edits applied at once

Rendering sorts the edits and goes through them with one cursor. Its outcome can
be told without either: every position of the text contributes what is inserted
there, then what replaces a stretch that starts there, then its own character
unless an edit covers it (`contentAt`). Rendering gives the contents of all
positions, one after the other, unless two edits conflict (`render_eq_ok_iff`).
-/

namespace Graft

/-- The text between two positions, if they are in order and in the text. -/
def Text.slice? (t : Text) (start stop : Nat) : Option Text :=
  if start ≤ stop ∧ stop ≤ t.length then some (t.slice start stop) else none

namespace Code

/-- A call that records an edit. -/
inductive EditCall where
  | insert (position : Nat) (text : Text)
  | replace (start stop : Nat) (text : Text)
  | remove (start stop : Nat)
  deriving DecidableEq, Repr

/-- The edit that a call asks for. -/
def EditCall.edit : EditCall → Edit
  | .insert position text => ⟨position, position, text⟩
  | .replace start stop text => ⟨start, stop, text⟩
  | .remove start stop => ⟨start, stop, []⟩

/-- Records the edit of a call. -/
def EditBuffer.call (b : EditBuffer) : EditCall → EditBuffer
  | .insert position text => b.insert position text
  | .replace start stop text => b.replace start stop text
  | .remove start stop => b.remove start stop

namespace Edit

/-! ## Conflicts -/

/-- The edit starts strictly inside the range of another one. -/
def StartsInside (a b : Edit) : Prop := b.start < a.start ∧ a.start < b.stop

/-- Two edits that cannot both be applied: one starts strictly inside the range
of the other, or both replace text from one position on. -/
def Conflicts (a b : Edit) : Prop :=
  a.StartsInside b ∨ b.StartsInside a ∨
    (a.start = b.start ∧ a.start ≠ a.stop ∧ b.start ≠ b.stop)

instance (a b : Edit) : Decidable (a.Conflicts b) := by
  unfold Conflicts StartsInside
  infer_instance

/-- An edit of a text of some length: its range is in order and
ends in the text. -/
def IsWithin (length : Nat) (e : Edit) : Prop := e.start ≤ e.stop ∧ e.stop ≤ length

theorem isWithin_clampTo (length : Nat) (e : Edit) :
    (e.clampTo length).IsWithin length := by
  unfold IsWithin clampTo
  dsimp only
  omega

/-- Edits stand apart unless they conflict. -/
theorem isApart_iff {a b : Edit} (ha : a.start ≤ a.stop) (hb : b.start ≤ b.stop) :
    a.IsApart b ↔ ¬ a.Conflicts b := by
  unfold IsApart Conflicts StartsInside
  omega

/-! ## The contents of a position -/

/-- Whether the edit inserts at a position. -/
def insertsAt (p : Nat) (e : Edit) : Bool := e.isInsertion && e.start == p

/-- Whether the edit replaces text from a position on. -/
def replacesFrom (p : Nat) (e : Edit) : Bool := !e.isInsertion && e.start == p

/-- Whether the edit replaces the character at a position. -/
def covers (p : Nat) (e : Edit) : Bool := e.start ≤ p && p < e.stop

/-- What a position of an edited text holds: what is inserted there, what
replaces text from there on, and its own character unless that is replaced. -/
def contentAt (source : Text) (edits : List Edit) (p : Nat) : Text :=
  (edits.filter (insertsAt p)).flatMap text ++
    (edits.filter (replacesFrom p)).flatMap text ++
    (if edits.any (covers p) then [] else source[p]?.toList)

/-- The text with all edits applied at once: the contents of its positions in
their order, that of its end included. -/
def atOnce (source : Text) (edits : List Edit) : Text :=
  (List.range (source.length + 1)).flatMap (contentAt source edits)

section

variable {source : Text} {e : Edit} {rest : List Edit} {p : Nat}

theorem filter_of_no_start {edits : List Edit} (h : ∀ e ∈ edits, e.start ≠ p) :
    edits.filter (insertsAt p) = [] ∧ edits.filter (replacesFrom p) = [] := by
  rw [List.filter_eq_nil_iff, List.filter_eq_nil_iff]
  constructor <;>
    · intro e he
      simp [insertsAt, replacesFrom, h e he]

/-- Where no edit starts, there is at most the character itself. -/
theorem contentAt_of_no_start {edits : List Edit} (h : ∀ e ∈ edits, e.start ≠ p) :
    contentAt source edits p =
      if edits.any (covers p) then [] else source[p]?.toList := by
  obtain ⟨hinserts, hreplaces⟩ := filter_of_no_start h
  simp [contentAt, hinserts, hreplaces]

/-- In front of all edits, a position holds its own character. -/
theorem contentAt_of_lt {edits : List Edit} (h : ∀ e ∈ edits, p < e.start) :
    contentAt source edits p = source[p]?.toList := by
  have hcovers : edits.any (covers p) = false := by
    rw [List.any_eq_false]
    intro e he
    have := h e he
    simp [covers]
    omega
  rw [contentAt_of_no_start fun e he => Nat.ne_of_gt (h e he), hcovers,
    if_neg Bool.false_ne_true]

/-- An insertion goes in front of what its position holds without it. -/
theorem contentAt_insertion (h : e.stop = e.start) :
    contentAt source (e :: rest) e.start = e.text ++ contentAt source rest e.start := by
  simp [contentAt, insertsAt, replacesFrom, covers, isInsertion, h]

/-- A replacement stands where it starts, in place of the text. -/
theorem contentAt_replacement (h : e.start < e.stop)
    (hrest : ∀ f ∈ rest, e.stop ≤ f.start) :
    contentAt source (e :: rest) e.start = e.text := by
  have hother : ∀ f ∈ rest, f.start ≠ e.start := by
    intro f hf
    have := hrest f hf
    omega
  obtain ⟨hinserts, hreplaces⟩ := filter_of_no_start hother
  have hne : e.start ≠ e.stop := Nat.ne_of_lt h
  simp [contentAt, insertsAt, replacesFrom, covers, isInsertion, hne, h,
    hinserts, hreplaces]

/-- Behind its start, a replaced stretch holds nothing. -/
theorem contentAt_replaced (hstart : e.start < p) (hstop : p < e.stop)
    (hrest : ∀ f ∈ rest, e.stop ≤ f.start) : contentAt source (e :: rest) p = [] := by
  have hcovers : (e :: rest).any (covers p) = true := by
    simp [covers, Nat.le_of_lt hstart, hstop]
  rw [contentAt_of_no_start, hcovers, if_pos rfl]
  intro f hf
  rcases List.mem_cons.mp hf with rfl | hf
  · omega
  · have := hrest f hf
    omega

/-- An edit changes nothing outside its range. -/
theorem contentAt_cons_of_ne (hstart : e.start ≠ p) (hout : e.stop ≤ p ∨ p < e.start) :
    contentAt source (e :: rest) p = contentAt source rest p := by
  have hcovers : covers p e = false := by
    simp [covers]
    omega
  simp [contentAt, insertsAt, replacesFrom, hstart, hcovers]

end

/-! ## Contents of stretches -/

/-- The contents of the positions from `start` on, so many of them. -/
def contents (source : Text) (edits : List Edit) (start count : Nat) : Text :=
  (List.range' start count).flatMap (contentAt source edits)

theorem contents_add (source : Text) (edits : List Edit) (start m n : Nat) :
    contents source edits start (m + n) =
      contents source edits start m ++ contents source edits (start + m) n := by
  simp [contents, ← List.range'_append_1]

theorem contents_succ (source : Text) (edits : List Edit) (start n : Nat) :
    contents source edits start (n + 1) =
      contentAt source edits start ++ contents source edits (start + 1) n := by
  simp [contents, List.range'_succ]

theorem contents_congr {source : Text} {edits edits' : List Edit} {start n : Nat}
    (h : ∀ p, start ≤ p → p < start + n →
      contentAt source edits p = contentAt source edits' p) :
    contents source edits start n = contents source edits' start n := by
  unfold contents
  apply List.flatMap_congr
  intro p hp
  rw [List.mem_range'_1] at hp
  exact h p hp.1 hp.2

/-- Positions that no edit concerns hold the text as it is. -/
theorem contents_nil (source : Text) (start n : Nat) :
    contents source [] start n = source.slice start (start + n) := by
  induction n generalizing start with
  | zero => simp [contents]
  | succ n ih =>
    have hhead : source.slice start (start + 1) = source[start]?.toList := by
      apply List.ext_getElem?
      intro i
      rw [Text.getElem?_slice]
      cases i with
      | zero => cases source[start]? <;> simp
      | succ i => cases source[start]? <;> simp
    rw [contents_succ, ih, contentAt_of_lt (by simp), ← hhead,
      Text.slice_append_slice source (by omega) (by omega),
      show start + 1 + n = start + (n + 1) by omega]

/-- An edit with those behind it, from its start on: its text, and then their
contents from its stop on. -/
theorem contents_cons {source : Text} {e : Edit} {rest : List Edit}
    (he : e.start ≤ e.stop) (hrest : ∀ f ∈ rest, e.stop ≤ f.start) (n : Nat) :
    contents source (e :: rest) e.start (e.stop - e.start + (n + 1)) =
      e.text ++ contents source rest e.stop (n + 1) := by
  by_cases hstop : e.stop = e.start
  · rw [hstop, Nat.sub_self, Nat.zero_add, contents_succ, contents_succ,
      contentAt_insertion hstop, List.append_assoc]
    congr 2
    apply contents_congr
    intro p hp _
    exact contentAt_cons_of_ne (by omega) (by omega)
  · obtain ⟨m, hm⟩ : ∃ m, e.stop - e.start = m + 1 := ⟨e.stop - e.start - 1, by omega⟩
    have hinside : contents source (e :: rest) (e.start + 1) m = [] := by
      unfold contents
      rw [List.flatMap_eq_nil_iff]
      intro p hp
      rw [List.mem_range'_1] at hp
      exact contentAt_replaced (by omega) (by omega) hrest
    have hbehind : contents source (e :: rest) e.stop (n + 1) =
        contents source rest e.stop (n + 1) := by
      apply contents_congr
      intro p hp _
      exact contentAt_cons_of_ne (by omega) (by omega)
    rw [contents_add, hm, contents_succ, hinside,
      contentAt_replacement (by omega) hrest,
      show e.start + (m + 1) = e.stop by omega, hbehind, List.append_nil]

/-! ## Order -/

theorem insertsAt_eq_rank (p : Nat) (e : Edit) : e.insertsAt p = (e.rank == 2 * p) := by
  rw [Bool.eq_iff_iff]
  simp only [insertsAt, rank, Bool.and_eq_true, beq_iff_eq]
  split
  · next h =>
    simp only [h, true_and]
    omega
  · next h =>
    exact ⟨fun hinsertion => absurd hinsertion.1 h, fun hrank => by omega⟩

theorem replacesFrom_eq_rank (p : Nat) (e : Edit) :
    e.replacesFrom p = (e.rank == 2 * p + 1) := by
  rw [Bool.eq_iff_iff]
  simp only [replacesFrom, rank, Bool.and_eq_true, Bool.not_eq_true', beq_iff_eq]
  split
  · next h =>
    simp only [h, Bool.true_eq_false, false_and, false_iff]
    omega
  · next h =>
    simp only [h, true_and]
    omega

/-- An edit goes behind those of its rank. -/
theorem filter_rank_place {edits : List Edit}
    (h : edits.Pairwise fun a b => a.rank ≤ b.rank) (e : Edit) (r : Nat) :
    (place e edits).filter (·.rank == r) =
      edits.filter (·.rank == r) ++ [e].filter (·.rank == r) := by
  induction h with
  | nil => rfl
  | @cons f rest hhead _ ih =>
    rw [place]
    by_cases hbefore : e.goesBefore f = true
    · rw [if_pos hbefore]
      have hef := (goesBefore_iff e f).mp hbefore
      by_cases hr : e.rank = r
      · -- all others rank behind it
        have hnone : (f :: rest).filter (·.rank == r) = [] := by
          rw [List.filter_eq_nil_iff, List.forall_mem_cons]
          refine ⟨by simp; omega, fun g hg => ?_⟩
          have := hhead g hg
          simp
          omega
        rw [List.filter_cons, hnone, List.filter_cons]
        simp
      · have hr' : (e.rank == r) = false := by simpa using hr
        simp [List.filter_cons, hr']
    · rw [if_neg hbefore, List.filter_cons, ih, List.filter_cons (x := f)]
      split <;> rfl

/-- Edits of one rank are applied in the order in which they were made. -/
theorem filter_rank_arrange (edits : List Edit) (r : Nat) :
    (arrange edits).filter (·.rank == r) = edits.filter (·.rank == r) := by
  have key : ∀ done : List Edit, (done.Pairwise fun a b => a.rank ≤ b.rank) →
      (edits.foldl (fun done e => place e done) done).filter (·.rank == r) =
        done.filter (·.rank == r) ++ edits.filter (·.rank == r) := by
    induction edits with
    | nil =>
      intro done _
      simp
    | cons e rest ih =>
      intro done hdone
      rw [List.foldl_cons, ih _ (place_sorted hdone e), filter_rank_place hdone,
        List.append_assoc, ← List.filter_append, List.singleton_append]
  exact key [] .nil

theorem filter_insertsAt_arrange (edits : List Edit) (p : Nat) :
    (arrange edits).filter (insertsAt p) = edits.filter (insertsAt p) := by
  rw [show insertsAt p = fun e => e.rank == 2 * p from funext (insertsAt_eq_rank p)]
  exact filter_rank_arrange edits (2 * p)

theorem filter_replacesFrom_arrange (edits : List Edit) (p : Nat) :
    (arrange edits).filter (replacesFrom p) = edits.filter (replacesFrom p) := by
  rw [show replacesFrom p = fun e =>
    e.rank == 2 * p + 1 from funext (replacesFrom_eq_rank p)]
  exact filter_rank_arrange edits (2 * p + 1)

/-- The order of application does not show in the contents. -/
theorem contentAt_arrange (source : Text) (edits : List Edit) (p : Nat) :
    contentAt source (arrange edits) p = contentAt source edits p := by
  rw [contentAt, filter_insertsAt_arrange, filter_replacesFrom_arrange,
    (arrange_perm edits).any_eq, contentAt]

theorem atOnce_arrange (source : Text) (edits : List Edit) :
    atOnce source (arrange edits) = atOnce source edits := by
  unfold atOnce
  congr 1
  funext p
  exact contentAt_arrange source edits p

end Edit

namespace EditBuffer

open Edit

/-- What applying edits in order gives, and when it gives anything: each edit
must start behind the stop of the one before. -/
theorem apply_eq_ok_iff {source out : Text} {edits : List Edit} {cursor : Nat}
    (hwithin : ∀ e ∈ edits, e.IsWithin source.length)
    (hcursor : cursor ≤ source.length) :
    apply source cursor edits = .ok out ↔
      (edits.Pairwise (fun a b => a.stop ≤ b.start) ∧ ∀ e ∈ edits, cursor ≤ e.start) ∧
        out = contents source edits cursor (source.length + 1 - cursor) := by
  induction edits generalizing cursor out with
  | nil =>
    have htake : source.take (cursor + (source.length + 1 - cursor)) = source :=
      List.take_of_length_le (by omega)
    rw [contents_nil, Text.slice, htake]
    simp [apply, eq_comm]
  | cons e rest ih =>
    rw [List.forall_mem_cons] at hwithin
    obtain ⟨⟨hproper, hstop⟩, hrest⟩ := hwithin
    rw [apply, List.pairwise_cons, List.forall_mem_cons]
    split
    · next hlt =>
      constructor
      · intro h
        cases h
      · rintro ⟨⟨-, hge, -⟩, -⟩
        omega
    · next hge =>
      have hge : cursor ≤ e.start := Nat.le_of_not_lt hge
      -- the text up to the edit, its text, and what the others make of the text
      -- behind it
      have hcontents (hbehind : ∀ f ∈ rest, e.stop ≤ f.start) :
          contents source (e :: rest) cursor (source.length + 1 - cursor) =
            source.slice cursor e.start ++ e.text ++
              contents source rest e.stop (source.length + 1 - e.stop) := by
        have hfront : contents source (e :: rest) cursor (e.start - cursor) =
            source.slice cursor e.start := by
          have heq : contents source (e :: rest) cursor (e.start - cursor) =
              contents source [] cursor (e.start - cursor) := by
            apply contents_congr
            intro p _ hp
            rw [contentAt_of_lt, contentAt_of_lt (by simp)]
            rw [List.forall_mem_cons]
            refine ⟨by omega, fun f hf => ?_⟩
            have := hbehind f hf
            omega
          rw [heq, contents_nil, Nat.add_sub_cancel' hge]
        obtain ⟨n, hn⟩ : ∃ n, source.length + 1 - e.stop = n + 1 :=
          ⟨source.length - e.stop, by omega⟩
        have hcount : source.length + 1 - cursor =
            (e.start - cursor) + (e.stop - e.start + (n + 1)) := by
          omega
        rw [hcount, contents_add, Nat.add_sub_cancel' hge,
          contents_cons hproper hbehind, hfront, hn, List.append_assoc]
      constructor
      · intro h
        obtain ⟨tail, htail, rfl⟩ := ok_of_map h
        obtain ⟨⟨hpairwise, hbehind⟩, rfl⟩ := (ih hrest hstop).mp htail
        refine ⟨⟨⟨hbehind, hpairwise⟩, hge, fun f hf => ?_⟩, (hcontents hbehind).symm⟩
        have := hbehind f hf
        omega
      · rintro ⟨⟨⟨hbehind, hpairwise⟩, -⟩, rfl⟩
        rw [(ih hrest hstop).mpr ⟨⟨hpairwise, hbehind⟩, rfl⟩, hcontents hbehind]
        rfl

/-- **Rendering applies all edits at once.** It gives a text exactly if the
edits stand apart. -/
theorem render_eq_ok_iff {b : EditBuffer} {out : Text}
    (hwithin : ∀ e ∈ b.edits, e.IsWithin b.source.length) :
    b.render = .ok out ↔
      b.edits.Pairwise Edit.IsApart ∧ out = atOnce b.source b.edits := by
  have hperm := arrange_perm b.edits
  have hwithin' : ∀ e ∈ arrange b.edits, e.IsWithin b.source.length :=
    fun e he => hwithin e (hperm.mem_iff.mp he)
  have hall : contents b.source (arrange b.edits) 0 (b.source.length + 1 - 0) =
      atOnce b.source b.edits := by
    rw [← atOnce_arrange, atOnce, List.range_eq_range']
    rfl
  rw [render, apply_eq_ok_iff hwithin' (Nat.zero_le _), hall,
    ← hperm.pairwise_iff IsApart.symm]
  constructor
  · rintro ⟨⟨hpairwise, -⟩, rfl⟩
    exact ⟨hpairwise.imp Or.inl, rfl⟩
  · rintro ⟨hapart, rfl⟩
    refine ⟨⟨?_, fun e _ => Nat.zero_le _⟩, rfl⟩
    refine (hapart.and (arrange_sorted b.edits)).imp_of_mem ?_
    intro e f _ hf h
    exact h.1.stop_le (hwithin' f hf).1 h.2

/-! ## Slices -/

/-- Applies edits as `apply` does, as long as every piece that is taken of the
source exists. -/
def applyChecked (source : Text) (cursor : Nat) :
    List Edit → Option (Except EditOverlap Text)
  | [] => (source.slice? cursor source.length).map .ok
  | e :: rest =>
    if e.start < cursor then some (.error ⟨e.start, e.stop, cursor⟩)
    else do
      let piece ← source.slice? cursor e.start
      let tail ← applyChecked source e.stop rest
      some (tail.map (piece ++ e.text ++ ·))

/-- **No slice is out of range**, whatever the order of the edits. -/
theorem applyChecked_eq {source : Text} {edits : List Edit} {cursor : Nat}
    (hwithin : ∀ e ∈ edits, e.IsWithin source.length)
    (hcursor : cursor ≤ source.length) :
    applyChecked source cursor edits = some (apply source cursor edits) := by
  induction edits generalizing cursor with
  | nil =>
    rw [applyChecked, Text.slice?, if_pos ⟨hcursor, Nat.le_refl _⟩, apply, Text.slice,
      List.take_length]
    rfl
  | cons e rest ih =>
    rw [List.forall_mem_cons] at hwithin
    obtain ⟨⟨hproper, hstop⟩, hrest⟩ := hwithin
    rw [applyChecked, apply]
    split
    · rfl
    · next hge =>
      have hbounds : cursor ≤ e.start ∧ e.start ≤ source.length := by omega
      rw [Text.slice?, if_pos hbounds, ih hrest hstop]
      rfl

/-! ## Calls -/

/-- The text with calls made on it, in their order. -/
def ofCalls (source : Text) (calls : List EditCall) : EditBuffer :=
  calls.foldl call { source }

/-- What calls record: their edits, clamped to the text. -/
def recorded (source : Text) (calls : List EditCall) : List Edit :=
  calls.map fun c => c.edit.clampTo source.length

theorem call_eq (b : EditBuffer) (c : EditCall) :
    b.call c = { b with edits := b.edits ++ [c.edit.clampTo b.source.length] } := by
  cases c <;> rfl

theorem ofCalls_eq (source : Text) (calls : List EditCall) :
    ofCalls source calls = { source, edits := recorded source calls } := by
  have key : ∀ b : EditBuffer, calls.foldl call b =
      { b with edits := b.edits ++ recorded b.source calls } := by
    induction calls with
    | nil => simp [recorded]
    | cons c rest ih =>
      intro b
      rw [List.foldl_cons, ih, call_eq]
      simp [recorded]
  exact key { source }

theorem recorded_isWithin (source : Text) (calls : List EditCall) :
    ∀ e ∈ recorded source calls, e.IsWithin source.length := by
  intro e he
  obtain ⟨c, -, rfl⟩ := List.mem_map.mp he
  exact isWithin_clampTo _ _

/-- Two edits of a list, at different places of it, conflict. -/
def HasConflict (edits : List Edit) : Prop :=
  ∃ (i j : Nat) (a b : Edit), i < j ∧ edits[i]? = some a ∧
    edits[j]? = some b ∧ a.Conflicts b

/-- Edits stand apart unless two of them conflict. -/
theorem pairwise_isApart_iff {edits : List Edit}
    (hproper : ∀ e ∈ edits, e.start ≤ e.stop) :
    edits.Pairwise IsApart ↔ ¬ HasConflict edits := by
  rw [List.pairwise_iff_getElem]
  constructor
  · rintro h ⟨i, j, a, b, hij, ha, hb, hconflict⟩
    obtain ⟨hi, rfl⟩ := List.getElem?_eq_some_iff.mp ha
    obtain ⟨hj, rfl⟩ := List.getElem?_eq_some_iff.mp hb
    have hapart := h i j hi hj hij
    rw [isApart_iff (hproper _ (List.getElem_mem hi))
      (hproper _ (List.getElem_mem hj))] at hapart
    exact hapart hconflict
  · intro h i j hi hj hij
    rw [isApart_iff (hproper _ (List.getElem_mem hi)) (hproper _ (List.getElem_mem hj))]
    intro hconflict
    exact h ⟨i, j, _, _, hij, List.getElem?_eq_getElem hi,
      List.getElem?_eq_getElem hj, hconflict⟩

/-- Of edits that stand apart, one at most replaces text from a position on. -/
theorem length_filter_replacesFrom_le {edits : List Edit}
    (hproper : ∀ e ∈ edits, e.start ≤ e.stop) (hapart : edits.Pairwise IsApart)
    (p : Nat) : (edits.filter (replacesFrom p)).length ≤ 1 := by
  have hpairwise := hapart.filter (replacesFrom p)
  match hlist : edits.filter (replacesFrom p) with
  | [] => simp
  | [_] => simp
  | a :: b :: rest =>
    have hmem : a ∈ edits.filter (replacesFrom p) ∧
        b ∈ edits.filter (replacesFrom p) := by
      simp [hlist]
    obtain ⟨ha, hb⟩ := hmem
    rw [List.mem_filter] at ha hb
    have := hproper a ha.1
    have := hproper b hb.1
    rw [hlist, List.pairwise_cons] at hpairwise
    have hab := hpairwise.1 b List.mem_cons_self
    simp [replacesFrom, isInsertion, IsApart] at ha hb hab
    omega

theorem eq_of_perm_of_length_le {α : Type} {xs ys : List α} (h : xs.Perm ys)
    (hlen : xs.length ≤ 1) :
    xs = ys := by
  match xs with
  | [] => exact h.nil_eq
  | [x] => exact List.singleton_perm.mp h

/-- Edits that stand apart do the same in any order that keeps the insertions of
each position in theirs. -/
theorem atOnce_perm {source : Text} {edits edits' : List Edit}
    (hproper : ∀ e ∈ edits, e.start ≤ e.stop) (hapart : edits.Pairwise IsApart)
    (hperm : edits.Perm edits')
    (hinsertions : ∀ p, edits.filter (insertsAt p) = edits'.filter (insertsAt p)) :
    atOnce source edits = atOnce source edits' := by
  unfold atOnce
  congr 1
  funext p
  have hreplaces : edits.filter (replacesFrom p) = edits'.filter (replacesFrom p) :=
    eq_of_perm_of_length_le (hperm.filter _)
      (length_filter_replacesFrom_le hproper hapart p)
  rw [contentAt, contentAt, hinsertions, hreplaces, hperm.any_eq]

/-- **Rendering is the simultaneous application of the edits.** Whatever calls
were made, it fails exactly if two of the recorded edits conflict, and otherwise
applies all of them at once. Calls in another order give the same text, as long
as the insertions of each position keep their order. Every slice that is taken
of the source exists. -/
theorem render_at_once (source : Text) (calls : List EditCall) :
    ((∃ overlap, (ofCalls source calls).render = .error overlap) ↔
      HasConflict (recorded source calls)) ∧
    (∀ out, (ofCalls source calls).render = .ok out →
      out = atOnce source (recorded source calls)) ∧
    (∀ calls', calls.Perm calls' →
      (∀ p, (recorded source calls).filter (insertsAt p) =
        (recorded source calls').filter (insertsAt p)) →
      ∀ out, (ofCalls source calls).render = .ok out ↔
        (ofCalls source calls').render = .ok out) ∧
    applyChecked source 0 (arrange (recorded source calls)) =
      some (ofCalls source calls).render := by
  have hwithin := recorded_isWithin source calls
  have hproper : ∀ e ∈ recorded source calls, e.start ≤ e.stop :=
    fun e he => (hwithin e he).1
  have hrender (calls : List EditCall) (out : Text) :
      (ofCalls source calls).render = .ok out ↔
      (recorded source calls).Pairwise IsApart ∧
      out = atOnce source (recorded source calls) := by
    rw [ofCalls_eq]
    exact render_eq_ok_iff (recorded_isWithin source calls)
  refine ⟨?_, fun out h => ((hrender calls out).mp h).2, ?_, ?_⟩
  -- a render fails exactly if two edits are not apart
  · constructor
    · rintro ⟨overlap, herror⟩
      rw [← not_not (a := HasConflict _), ← pairwise_isApart_iff hproper]
      intro hapart
      rw [(hrender calls _).mpr ⟨hapart, rfl⟩] at herror
      cases herror
    · intro hconflict
      cases hresult : (ofCalls source calls).render with
      | error overlap => exact ⟨overlap, rfl⟩
      | ok out =>
        have hapart := ((hrender calls out).mp hresult).1
        exact absurd hconflict ((pairwise_isApart_iff hproper).mp hapart)
  · intro calls' hperm hinsertions out
    have hperm' : (recorded source calls).Perm (recorded source calls') := hperm.map _
    rw [hrender, hrender, hperm'.pairwise_iff IsApart.symm]
    constructor <;> rintro ⟨hapart, rfl⟩ <;> refine ⟨hapart, ?_⟩
    · rw [atOnce_perm hproper ((hperm'.pairwise_iff IsApart.symm).mpr hapart)
        hperm' hinsertions]
    · rw [atOnce_perm hproper ((hperm'.pairwise_iff IsApart.symm).mpr hapart)
        hperm' hinsertions]
  · have hsorted : ∀ e ∈ arrange (recorded source calls), e.IsWithin source.length :=
      fun e he => hwithin e ((mem_arrange e _).mp he)
    rw [applyChecked_eq hsorted (Nat.zero_le _), ofCalls_eq]
    rfl

/-- Two insertions, a replacement and a removal give the same
text in two orders. -/
theorem render_at_once_sample :
    (ofCalls "abcdef"
      [.replace 4 9 "XY", .insert 2 "-", .insert 2 "+", .remove 0 1]).render =
      .ok "b-+cdXY" ∧
    (ofCalls "abcdef"
      [.remove 0 1, .insert 2 "-", .replace 4 9 "XY", .insert 2 "+"]).render =
      .ok "b-+cdXY" := by
  have hfirst : (ofCalls "abcdef" [.replace 4 9 "XY", .insert 2 "-", .insert 2 "+",
      .remove 0 1]).render = .ok "b-+cdXY" := by decide +kernel
  have hrecorded :
      recorded "abcdef"
        [.replace 4 9 "XY", .insert 2 "-", .insert 2 "+", .remove 0 1] =
      [⟨4, 6, "XY"⟩, ⟨2, 2, "-"⟩, ⟨2, 2, "+"⟩, ⟨0, 1, []⟩] := by decide +kernel
  have hrecorded' : recorded "abcdef" [.remove 0 1, .insert 2 "-", .replace 4 9 "XY",
      .insert 2 "+"] = [⟨0, 1, []⟩, ⟨2, 2, "-"⟩, ⟨4, 6, "XY"⟩, ⟨2, 2, "+"⟩] := by
        decide +kernel
  obtain ⟨-, -, hreorder, -⟩ := render_at_once "abcdef"
    [.replace 4 9 "XY", .insert 2 "-", .insert 2 "+", .remove 0 1]
  refine ⟨hfirst, (hreorder _ (by decide +kernel) ?_ _).mp hfirst⟩
  intro p
  rw [hrecorded, hrecorded']
  by_cases hp : 2 = p <;> simp [insertsAt, isInsertion, hp]

end EditBuffer

end Code

end Graft
