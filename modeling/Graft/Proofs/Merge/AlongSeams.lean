import Graft.Proofs.Merge.MemberSeams
import Graft.Proofs.Code.Overlap

/-!
# Edits along seams

An edit goes along seams when it exchanges items of a body for a text that fits
there (`GoesAlong`). When all edits of a source do, but for a last one in front
of the closing brace, everything that was read by hand is read again in what
they make of the source (`Encloses.written_of_apply`).
-/

namespace Graft.Merge

open Java Entity Code

/-! ## Edits that are applied -/

section

variable {source : Text} {edits : List Edit}

/-- The middle of a text. -/
theorem slice_between (start a b rest : Text) :
    (start ++ (a ++ (b ++ rest))).slice (start ++ a).length
      (start ++ (a ++ b)).length = b := by
  have htake : (start ++ (a ++ (b ++ rest))).take (start ++ (a ++ b)).length =
      start ++ (a ++ b) := by
    have hall : ((start ++ (a ++ b)) ++ rest).take (start ++ (a ++ b)).length =
        start ++ (a ++ b) :=
      List.take_left
    rwa [List.append_assoc, List.append_assoc] at hall
  rw [Text.slice, htake, ← List.append_assoc, List.drop_left]

/-- What edits write begins with what the first of them leaves
in front of it. -/
theorem apply_cons_eq_ok {cursor : Nat} {e : Edit} {edits : List Edit} {t : Text}
    (h : EditBuffer.apply source cursor (e :: edits) = .ok t) : cursor ≤ e.start ∧
      ∃ t', EditBuffer.apply source e.stop edits = .ok t' ∧
        t = source.slice cursor e.start ++ e.text ++ t' := by
  rw [EditBuffer.apply] at h
  split at h
  · cases h
  · next hle =>
    refine ⟨Nat.le_of_not_lt hle, ?_⟩
    cases happly : EditBuffer.apply source e.stop edits with
    | error overlap =>
      rw [happly] at h
      cases h
    | ok t' =>
      rw [happly] at h
      cases h
      exact ⟨t', rfl, rfl⟩

/-- What stands in front of all edits is written as it is. -/
theorem apply_of_start_le {place : Nat} {edits : List Edit}
    (h : ∀ e ∈ edits, place ≤ e.start) {out : Text}
    (happly : EditBuffer.apply source 0 edits = .ok out) :
    ∃ t, EditBuffer.apply source place edits = .ok t ∧
      out = source.take place ++ t := by
  cases edits with
  | nil =>
    refine ⟨source.drop place, rfl, ?_⟩
    rw [List.take_append_drop]
    exact (Except.ok.inj happly).symm
  | cons e edits =>
    obtain ⟨-, t, hrest, rfl⟩ := apply_cons_eq_ok happly
    have hle := h e List.mem_cons_self
    refine ⟨source.slice place e.start ++ e.text ++ t, ?_, ?_⟩
    · rw [EditBuffer.apply, if_neg (Nat.not_lt.mpr hle), hrest]
      rfl
    · rw [← Text.slice_append_slice source (Nat.zero_le place) hle]
      simp [Text.slice]

/-- What edits write at a line break begins with one, if what they
put there does. -/
theorem head_of_apply {cursor : Nat} {t : Text} (hbreak : source[cursor]? = some '\n')
    (h : ∀ e ∈ edits, e.start = cursor → e.text.head? = some '\n')
    (happly : EditBuffer.apply source cursor edits = .ok t) : t.head? = some '\n' := by
  cases edits with
  | nil =>
    obtain rfl := Except.ok.inj happly
    rw [List.head?_drop, hbreak]
  | cons e edits =>
    obtain ⟨hle, t', -, rfl⟩ := apply_cons_eq_ok happly
    rcases Nat.lt_or_eq_of_le hle with hlt | heq
    · have hhead : (source.slice cursor e.start).head? = some '\n' := by
        rw [List.head?_eq_getElem?, Text.getElem?_slice_of_lt (by omega),
          Nat.add_zero, hbreak]
      rw [List.append_assoc, List.head?_append, hhead, Option.some_or]
    · rw [← heq, Text.slice_self, List.nil_append, List.head?_append,
        h e List.mem_cons_self heq.symm, Option.some_or]

/-- An edit that ranks behind all others goes last. -/
theorem arrange_concat {edits : List Edit} {last : Edit}
    (h : ∀ e ∈ edits, e.rank ≤ last.rank) :
    Edit.arrange (edits ++ [last]) = Edit.arrange edits ++ [last] := by
  have hplace : ∀ edits : List Edit, (∀ e ∈ edits, e.rank ≤ last.rank) →
      Edit.place last edits = edits ++ [last] := by
    intro edits hall
    induction edits with
    | nil => rfl
    | cons e edits ih =>
      rw [List.forall_mem_cons] at hall
      rw [Edit.place, if_neg, ih hall.2, List.cons_append]
      rw [Edit.goesBefore_iff]
      exact Nat.not_lt.mpr hall.1
  rw [Edit.arrange, List.foldl_append]
  exact hplace _ fun e he => h e ((Edit.mem_arrange e edits).mp he)

end

/-! ## Edits along seams -/

section

variable {source start body rest : Text} {s : Cursor} {inner : List Tree}
    {kind : TypeKind}

/-- What stands between two places of a source may make way for text that fits:
these are seams of a body, and nothing between them is read by hand. -/
inductive Exchangeable (source start body : Text) (s : Cursor) (inner : List Tree)
    (kind : TypeKind) (p q : Nat) : Prop
  | mk {u x : Text} {front gone : List Tree} (start_eq : p = (start ++ u).length)
      (stop_eq : q = (start ++ (u ++ x)).length) (seam : Seam body s inner u front)
      (seam' : Seam body s inner (u ++ x) (front ++ gone))
      (may : ∀ back, MayChange kind front gone back)
      (generated : views source (declarations source (some kind) gone) = []) :
      Exchangeable source start body s inner kind p q

/-- An edit is applied no later than an insertion behind a solid character in
front of a place. -/
def GoesBehindSolid (source : Text) (close : Nat) (e : Edit) : Prop :=
  ∃ p < close, IsSolid source p ∧ e.rank ≤ 2 * (p + 1)

theorem GoesBehindSolid.of_le {close p : Nat} {e : Edit} (hp : p < close)
    (solid : IsSolid source p)
    (hle : e.start ≤ p ∨ (e.start = p + 1 ∧ e.stop = e.start)) :
    GoesBehindSolid source close e := by
  refine ⟨p, hp, solid, ?_⟩
  rw [Edit.rank]
  rcases hle with hle | ⟨hstart, hstop⟩
  · split <;> omega
  · rw [if_pos (by rw [Edit.isInsertion, hstop, beq_self_eq_true]), hstart]

/-- A place behind a solid character, in front of a line break. -/
structure EndsLine (source : Text) (p : Nat) : Prop where
  solid : IsSolid source (p - 1)
  breaks : source[p]? = some '\n'

/-- At the end of a line, an edit begins a new one. -/
def OpensLine (source : Text) (e : Edit) : Prop :=
  EndsLine source e.start → e.text.head? = some '\n'

/-- An edit goes along seams of a body: what it puts there fits between items,
or in a line that ends there. -/
structure GoesAlong (source start body : Text) (s : Cursor) (inner : List Tree)
    (kind : TypeKind) (e : Edit) :
    Prop where
  exchangeable : Exchangeable source start body s inner kind e.start e.stop
  behindSolid : GoesBehindSolid source (start ++ body).length e
  fits : Fits (inAnnotationBody (some kind)) false e.text ∨
    (Fits (inAnnotationBody (some kind)) true e.text ∧ EndsLine source e.stop)
  opens : OpensLine source e

/-- **A run of edits along seams**: what they write from a seam on holds
everything that was read by hand when what is written behind them does. -/
theorem written_apply {read : List View} (h : Encloses start body rest s inner)
    (hsource : source = start ++ (body ++ rest)) {edits last : List Edit}
    (along : ∀ e ∈ edits, GoesAlong source start body s inner kind e)
    (opens : ∀ e ∈ last, OpensLine source e)
    (hlast : ∀ u front t, Seam body s inner u front →
      EditBuffer.apply source (start ++ u).length last = .ok t →
      Written start rest s kind read u front t)
    {u : Text} {front : List Tree} (seam : Seam body s inner u front) {t : Text}
    (happly : EditBuffer.apply source (start ++ u).length (edits ++ last) = .ok t) :
    Written start rest s kind read u front t := by
  -- from one seam to the next: what is between them stays, and the edit takes
  -- the place of what it removes
  induction edits generalizing u front t with
  | nil => exact hlast u front t seam happly
  | cons e edits ih =>
    rw [List.forall_mem_cons] at along
    obtain @⟨v, x, front', gone, start_eq, stop_eq, seamStart, seamStop,
        may, generated⟩ :=
      along.1.exchangeable
    obtain ⟨hle, t', hrest, rfl⟩ := apply_cons_eq_ok happly
    rw [start_eq, List.length_append, List.length_append,
      Nat.add_le_add_iff_left] at hle
    obtain ⟨y, rfl⟩ := seam.of_le seamStart hle
    have hchanged : Written start rest s kind read (u ++ y) front' (e.text ++ t') := by
      have hbehind := ih along.2 seamStop (stop_eq ▸ hrest)
      rcases along.1.fits with fits | ⟨fits, ends⟩
      · exact hbehind.change h seamStart seamStop may (hsource ▸ generated) fits
          (absurd · Bool.false_ne_true)
      · refine hbehind.change h seamStart seamStop may (hsource ▸ generated)
          fits fun _ => ?_
        refine head_of_apply ends.breaks (fun f hf hstart => ?_) hrest
        rcases List.mem_append.mp hf with hf | hf
        · exact (along.2 f hf).opens (hstart ▸ ends)
        · exact opens f hf (hstart ▸ ends)
    have hslice : source.slice (start ++ u).length e.start = y := by
      obtain ⟨w, rfl⟩ := seamStart.text
      rw [start_eq, hsource, List.append_assoc, List.append_assoc, slice_between]
    rw [hslice, List.append_assoc]
    exact hchanged.back seam seamStart h.nested

/-- With no edits left, the source is written as it is. -/
theorem written_apply_nil (h : Encloses start body rest s inner)
    (hsource : source = start ++ (body ++ rest)) {u : Text} {front : List Tree}
    (seam : Seam body s inner u front) {t : Text}
    (happly : EditBuffer.apply source (start ++ u).length [] = .ok t) :
    Written start rest s kind (bodyViews source kind inner) u front t := by
  obtain ⟨w, hw⟩ := seam.text
  obtain rfl : w ++ rest = t := by
    rw [EditBuffer.apply, hsource, ← hw, List.append_assoc, ← List.append_assoc start,
      List.drop_left] at happly
    exact Except.ok.inj happly
  rw [hsource]
  exact h.written seam hw.symm

/-- The last edit of a body: in front of the closing brace, or of the line that
it has for itself. -/
inductive GoesLast (source start body : Text) (kind : TypeKind) (e : Edit) : Prop
  | mk {line blank : Text} (split : body = line ++ blank)
      (start_eq : e.start = (start ++ line).length) (stop_eq : e.stop = e.start)
      (blanks : Text.isBlank blank = true)
      (ends : (∀ c ∈ line.getLast?, c = '\n') ∨
        (blank = [] ∧ e.text.head? = some '\n'))
    (fits : Fits (inAnnotationBody (some kind)) false e.text)
    (opens : OpensLine source e) :
      GoesLast source start body kind e

/-- What the last edit writes. -/
theorem written_apply_last (h : Encloses start body rest s inner)
    (hsource : source = start ++ (body ++ rest)) (hrest : rest.head? = some '\x7d')
    {e : Edit} (last : GoesLast source start body kind e) {u : Text}
    {front : List Tree} (seam : Seam body s inner u front) {t : Text}
    (happly : EditBuffer.apply source (start ++ u).length [e] = .ok t) :
    Written start rest s kind (bodyViews source kind inner) u front t := by
  obtain @⟨line, blank, split, start_eq, stop_eq, blanks, ends, fits, -⟩ := last
  obtain ⟨hle, t', happly', rfl⟩ := apply_cons_eq_ok happly
  rw [start_eq, List.length_append, List.length_append, Nat.add_le_add_iff_left] at hle
  obtain ⟨y, rfl⟩ : ∃ y, line = u ++ y := by
    obtain ⟨y, rfl⟩ := List.prefix_of_prefix_length_le seam.text ⟨blank, split.symm⟩ hle
    exact ⟨y, rfl⟩
  rw [List.append_assoc] at split
  have hslice : source.slice (start ++ u).length e.start = y := by
    rw [start_eq, hsource, split, List.append_assoc, List.append_assoc, slice_between]
  obtain rfl : blank ++ rest = t' := by
    have hdrop : source.drop e.stop = blank ++ rest := by
      rw [stop_eq, start_eq, hsource, split, ← List.append_assoc u,
        List.append_assoc (u ++ y),
        ← List.append_assoc start (u ++ y) (blank ++ rest), List.drop_left]
    rw [← hdrop]
    exact Except.ok.inj happly'
  rw [hslice, List.append_assoc, hsource]
  refine h.written_last seam split blanks ?_ hrest fits
  refine ends.imp_left fun hline c hc => hline c ?_
  rw [Option.mem_def] at hc ⊢
  rw [List.getLast?_append, hc, Option.some_or]

/-- Behind the last edit of a body there are only blanks. -/
theorem GoesLast.rank_le {e last : Edit} (h : GoesLast source start body kind last)
    (hsource : source = start ++ (body ++ rest))
    (he : GoesBehindSolid source (start ++ body).length e) : e.rank ≤ last.rank := by
  obtain @⟨line, blank, rfl, start_eq, stop_eq, blanks, -, -, -⟩ := h
  obtain ⟨p, hp, solid, hle⟩ := he
  have hblank : Text.isBlank
      (source.slice (start ++ line).length (start ++ (line ++ blank)).length) =
        true := by
    rw [hsource, List.append_assoc, slice_between]
    exact blanks
  have hlt : p < (start ++ line).length := by
    apply Nat.lt_of_not_le
    intro hbehind
    exact not_solid_of_blank hblank hbehind hp solid
  have hlast : last.rank = 2 * last.start := by
    rw [Edit.rank, if_pos (by rw [Edit.isInsertion, stop_eq, beq_self_eq_true])]
  rw [hlast, start_eq]
  omega

/-- **Edits along seams of a body**, but for a last one in front of its closing
brace, leave what stands in front of the body as it is and hold everything that
was read in it by hand. -/
theorem Encloses.written_of_apply {out : Text} {along last : List Edit}
    (h : Encloses start body rest s inner)
    (hsource : source = start ++ (body ++ rest)) (hrest : rest.head? = some '\x7d')
    (hfirst : ∀ e ∈ along, GoesAlong source start body s inner kind e)
    (hlast : last = [] ∨ ∃ e, last = [e] ∧ GoesLast source start body kind e)
    (happly : EditBuffer.apply source 0 (Edit.arrange (along ++ last)) = .ok out) :
    ∃ t, out = start ++ t ∧
      Written start rest s kind (bodyViews source kind inner) [] [] t := by
  -- the edit at the end of the body comes last also when all are put in order
  have harrange : Edit.arrange (along ++ last) = Edit.arrange along ++ last := by
    rcases hlast with rfl | ⟨e, rfl, hlast⟩
    · rw [List.append_nil, List.append_nil]
    · exact arrange_concat fun e he => hlast.rank_le hsource (hfirst e he).behindSolid
  have hstart : ∀ e ∈ Edit.arrange along ++ last, start.length ≤ e.start := by
    intro e he
    rw [List.mem_append, Edit.mem_arrange] at he
    rcases he with he | he
    · obtain ⟨start_eq, -⟩ := (hfirst e he).exchangeable
      rw [start_eq, List.length_append]
      exact Nat.le_add_right _ _
    · rcases hlast with rfl | ⟨e, rfl, ⟨-, start_eq, -, -, -, -, -⟩⟩
      · cases he
      · rw [List.mem_singleton.mp he, start_eq, List.length_append]
        exact Nat.le_add_right _ _
  rw [harrange] at happly
  obtain ⟨t, happly, rfl⟩ := apply_of_start_le hstart happly
  refine ⟨t, by rw [hsource, List.take_left], ?_⟩
  -- from the first seam on, edit by edit, up to what goes last
  refine written_apply h hsource
    (fun e he => hfirst e ((Edit.mem_arrange e along).mp he))
    ?_ ?_ (.first h.undocumented) (by rwa [List.append_nil])
  · rcases hlast with rfl | ⟨e, rfl, ⟨-, -, -, -, -, -, opens⟩⟩
    · exact fun e he => absurd he List.not_mem_nil
    · exact fun f hf => List.mem_singleton.mp hf ▸ opens
  · intro u front t seam happly
    rcases hlast with rfl | ⟨e, rfl, hlast⟩
    · exact written_apply_nil h hsource seam happly
    · exact written_apply_last h hsource hrest hlast seam happly

end

end Graft.Merge
