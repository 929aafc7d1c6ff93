import Graft.Proofs.Merge.AlongSeams
import Graft.Proofs.Merge.Placement

/-!
# What was written by hand is read again

Every edit that a pass makes inside the braces of its type goes along seams of
the body, or in front of the closing brace (`Session.Reached.exists_recorded`).
So the outcome is read as the source was: the type is found again, at the same
depth, and every member that is not generated is read again with the same
signature, mark and text, in the same order (`hand_written_read_again`).
-/

namespace Graft.Merge

open Java Entity Code

section

variable {source start body rest : Text} {type : TypeDecl} {s : Cursor}
    {inner : List Tree}

/-! ## Seams around members -/

/-- Every member is read from an item of the body, with a seam behind it. -/
theorem BodyOf.exists_item (h : BodyOf source type start body rest s inner)
    {d : Declaration} (hd : d ∈ type.members) :
    ∃ front item back v, ItemOf source type.kind inner d front item back ∧
      Seam body s inner v (front ++ item) ∧ d.extent.stop = (start ++ v).length ∧
      ∃ c, v.getLast? = some c ∧ Char.isBlank c = false := by
  rw [h.members] at hd
  obtain ⟨front, item, back, hitem⟩ := exists_itemOf hd
  obtain ⟨x, hx, hstop⟩ := hitem.stop
  have hlast : (Tree.flats (front ++ item)).getLast? = some x := by
    rw [Tree.flats_append, List.getLast?_append, hx, Option.some_or]
  obtain ⟨v, seam, hv, solid⟩ :=
    h.encloses.exists_seam_behind (by rw [hitem.trees, List.append_assoc])
      (hitem.settled.append hitem.whole) hlast
  exact ⟨front, item, back, v, hitem, seam, hstop.trans hv, solid⟩

/-- Behind a member there is room. -/
theorem BodyOf.behind_member (h : BodyOf source type start body rest s inner)
    {d : Declaration} (hd : d ∈ type.members) :
    Exchangeable source start body s inner type.kind d.extent.stop d.extent.stop ∧
      ∃ p < (start ++ body).length, d.extent.stop = p + 1 ∧ IsSolid source p := by
  obtain ⟨front, item, back, v, hitem, seam, hstop, c, hc, hsolid⟩ := h.exists_item hd
  constructor
  · have seam' : Seam body s inner (v ++ []) (front ++ item ++ []) := by
      simpa using seam
    exact .mk hstop (by rw [List.append_nil, hstop]) seam seam' hitem.mayFollow rfl
  · obtain ⟨v, rfl⟩ := List.getLast?_eq_some_iff.mp hc
    obtain ⟨w, hw⟩ := seam.text
    refine ⟨(start ++ v).length, ?_,
      by rw [hstop, ← List.append_assoc, List.length_append]; rfl, c, ?_, hsolid⟩
    · rw [← hw]
      simp
    · rw [h.source_eq, ← hw, List.append_assoc v, List.append_assoc v,
        ← List.append_assoc start]
      simp

theorem extent_start_eq {d : Declaration} {t : Token} (hdoc : d.doc = t.doc)
    (hstart : d.span.start = t.start) :
    d.extent.start = extentStart t := by
  cases h : t.doc with
  | none => simp only [Declaration.extent, extentStart, hdoc, hstart, h]
  | some doc => simp only [Declaration.extent, extentStart, hdoc, hstart, h]

/-- A generated member may make way. -/
theorem BodyOf.member (h : BodyOf source type start body rest s inner) {d : Declaration}
    (hd : d ∈ type.members) (generated : (provenanceOf d.modifiers).isGenerated = true)
    (attached : EndsClear tokens (source.take d.extent.start)) :
    Exchangeable source start body s inner type.kind d.extent.start d.extent.stop ∧
      d.extent.start < d.extent.stop ∧ source[d.extent.start]? ≠ some '\n' := by
  obtain ⟨front, item, back, v, hitem, seam', hstop, -⟩ := h.exists_item hd
  obtain ⟨x, hx, hdoc, hstart⟩ := hitem.doc
  rw [extent_start_eq hdoc hstart] at attached ⊢
  have hhead : (Tree.flats (item ++ back)).head? = some x := by
    rw [Tree.flats_append, List.head?_append, hx, Option.some_or]
  obtain ⟨u, seam, hu, hbreak⟩ :=
    h.exists_seam_before hitem.trees hitem.settled hhead attached
  have hne : item ≠ [] := by
    rintro rfl
    cases hx
  obtain ⟨y, hy, rfl⟩ := seam.exists_between seam' hne
  refine ⟨?_, ?_, hbreak⟩
  · refine .mk hu hstop seam seam' hitem.mayGo ?_
    rw [hitem.declares]
    refine views_eq_nil fun d' hd' m hm => ?_
    rw [List.mem_singleton.mp hd'] at hm
    rw [(of_mem_membersOf hm).2.1]
    exact generated
  · have hpos := List.length_pos_iff.mpr hy
    simp only [hu, hstop, List.length_append]
    omega

/-- The braces around a body are solid. -/
theorem BodyOf.braces (h : BodyOf source type start body rest s inner) :
    (∃ p, p + 1 = start.length ∧ IsSolid source p) ∧
    IsSolid source (start ++ body).length := by
  constructor
  · obtain ⟨front, rfl⟩ := List.getLast?_eq_some_iff.mp h.opens
    refine ⟨front.length, by rw [List.length_append]; rfl, _, ?_,
      (by decide : Char.isBlank '\x7b' = false)⟩
    rw [h.source_eq, List.append_assoc]
    simp
  · obtain ⟨more, rfl⟩ := List.head?_eq_some_iff.mp h.closes
    refine ⟨_, ?_, (by decide : Char.isBlank '\x7d' = false)⟩
    rw [h.source_eq, ← List.append_assoc]
    simp

/-- There is room behind the opening brace. -/
theorem BodyOf.opening (h : BodyOf source type start body rest s inner) :
    Exchangeable source start body s inner type.kind start.length start.length := by
  have seam : Seam body s inner [] [] := .first h.encloses.undocumented
  have seam' : Seam body s inner ([] ++ []) ([] ++ []) := seam
  exact .mk (by simp) (by simp) seam seam' (fun _ => .opening) rfl

/-- A place in a text behind another one splits it. -/
theorem exists_split {start u : Text} {p : Nat} (hle : start.length ≤ p)
    (hle' : p ≤ (start ++ u).length) :
    ∃ a b, u = a ++ b ∧ p = (start ++ a).length := by
  refine ⟨u.take (p - start.length), u.drop (p - start.length),
    (List.take_append_drop _ _).symm, ?_⟩
  rw [List.length_append] at hle' ⊢
  rw [List.length_take, Nat.min_eq_left (by omega)]
  omega

/-- What stands in front of the start of a line ends with a line break. -/
theorem eq_break_of_startsLine {start a w : Text}
    (h : StartsLine (start ++ (a ++ w)) (start ++ a).length) :
    ∀ c ∈ a.getLast?, c = '\n' := by
  intro c hc
  obtain ⟨a, rfl⟩ := List.getLast?_eq_some_iff.mp hc
  rcases h with hzero | hbreak
  · simp at hzero
  · simpa using hbreak

/-- Blanks around what may make way may go with it, from the
start of a line on. -/
theorem BodyOf.widen (h : BodyOf source type start body rest s inner)
    {p q p' q' : Nat}
    (hexchange : Exchangeable source start body s inner type.kind p q)
    (hwidens : WidensByBlanks source p q p' q')
    (hline : p' = p ∨ StartsLine source p') :
    Exchangeable source start body s inner type.kind p' q' := by
  obtain @⟨u, x, front, gone, rfl, rfl, seam, seam', may, generated⟩ := hexchange
  obtain ⟨z, rfl⟩ := seam'.text
  obtain ⟨⟨opening, hopening, solid⟩, closing⟩ := h.braces
  have hstarts := hwidens.starts
  have hstops := hwidens.stops
  -- the blanks end at the braces
  have hopens :=
    outside_of_widens hwidens solid (.inl (by simp only [List.length_append]; omega))
  have hcloses := outside_of_widens hwidens closing
    (.inr (by simp only [List.length_append]; omega))
  obtain ⟨a, b, rfl, rfl⟩ : ∃ a b, u = a ++ b ∧ p' = (start ++ a).length := by
    refine exists_split ?_ hstarts
    simp only [List.length_append] at hstops
    omega
  obtain ⟨c, w, rfl,
      rfl⟩ : ∃ c w, z = c ++ w ∧ q' = (start ++ (a ++ b ++ x) ++ c).length := by
    refine exists_split hstops ?_
    simp only [List.length_append] at hstarts hcloses ⊢
    omega
  have hsource := h.source_eq
  have hb : Text.isBlank b = true := by
    have hblank := hwidens.before
    rwa [hsource, List.append_assoc, List.append_assoc, List.append_assoc a,
      slice_between] at hblank
  have hc : Text.isBlank c = true := by
    have hblank := hwidens.after
    have hslice := slice_between start (a ++ b ++ x) c (w ++ rest)
    rw [hsource] at hblank
    simp only [List.append_assoc] at hblank hslice
    rwa [hslice] at hblank
  have hb' : b = [] ∨ ∀ d ∈ a.getLast?, d = '\n' := by
    rcases hline with heq | hline
    · left
      simpa using heq
    · right
      rw [hsource] at hline
      simp only [List.append_assoc] at hline
      exact eq_break_of_startsLine hline
  have hbehind := seam'.blank_behind (b := c) hc ⟨w, by simp only [List.append_assoc]⟩
  refine .mk rfl (x := b ++ (x ++ c)) ?_ (seam.blank_before hb hb') ?_ may generated
  · simp only [List.append_assoc]
  · simpa only [List.append_assoc] using hbehind

/-! ## Edits of a pass -/

/-- The end of a member in front of a line break. -/
theorem BodyOf.endsLine (h : BodyOf source type start body rest s inner)
    {d : Declaration} (hd : d ∈ type.members)
    (hbreak : source[d.extent.stop]? = some '\n') :
    EndsLine source d.extent.stop := by
  obtain ⟨-, p, -, hstop, solid⟩ := h.behind_member hd
  exact ⟨by rwa [hstop], hbreak⟩

theorem not_endsLine_of_startsLine {p : Nat} (h : StartsLine source p) :
    ¬ EndsLine source p := by
  rintro ⟨solid, hbreak⟩
  rcases h with rfl | h
  · exact not_solid_break hbreak solid
  · exact not_solid_break h solid

/-- What fits in a line fits where lines end. -/
theorem Fits.or_endsLine {inAnnotationType inLine : Bool} {text : Text} {stop : Nat}
    (h : Fits inAnnotationType inLine text)
    (ends : inLine = true → EndsLine source stop) :
    Fits inAnnotationType false text ∨
      (Fits inAnnotationType true text ∧ EndsLine source stop) := by
  cases inLine with
  | false => exact .inl h
  | true => exact .inr ⟨h, ends rfl⟩

section

variable {inLine : Bool} {d : Declaration} {text : Text}

/-- A generated member that is replaced makes way. -/
theorem BodyOf.goesAlong_replaced (h : BodyOf source type start body rest s inner)
    (hd : d ∈ type.members)
    (generated : (provenanceOf d.modifiers).isGenerated = true)
    (attached : EndsClear tokens (source.take d.extent.start))
    (fits : Fits (inAnnotationBody (some type.kind)) inLine text)
    (ends : inLine = true → source[d.extent.stop]? = some '\n') :
    GoesAlong source start body s inner type.kind
      ⟨d.extent.start, d.extent.stop, text⟩ := by
  obtain ⟨hexchange, hlt, hfirst⟩ := h.member hd generated attached
  obtain ⟨-, p, hp, hstop, solid⟩ := h.behind_member hd
  exact
    { exchangeable := hexchange
      behindSolid := .of_le hp solid (.inl (by dsimp only; omega))
      fits := fits.or_endsLine fun hline => h.endsLine hd (ends hline)
      opens := fun hends => absurd hends.breaks hfirst }

/-- A generated member that is removed makes way, with the blanks around it. -/
theorem BodyOf.goesAlong_removed (h : BodyOf source type start body rest s inner)
    (hd : d ∈ type.members)
    (generated : (provenanceOf d.modifiers).isGenerated = true)
    (attached : EndsClear tokens (source.take d.extent.start)) :
    GoesAlong source start body s inner type.kind
      ⟨(removalRange source d.extent).1, (removalRange source d.extent).2, []⟩ := by
  obtain ⟨hexchange, hlt, hfirst⟩ := h.member hd generated attached
  obtain ⟨-, p, hp, hstop, solid⟩ := h.behind_member hd
  have hlength : d.extent.stop ≤ source.length := by
    have := congrArg List.length h.source_eq
    simp only [List.length_append] at this hp
    omega
  have hwidens := widens_removalRange (Nat.le_of_lt hlt) hlength
  have hstarts := hwidens.starts
  have hline := removalRange_start (Nat.le_trans (Nat.le_of_lt hlt) hlength)
  refine
    { exchangeable := h.widen hexchange hwidens hline
      behindSolid := .of_le hp solid (.inl (by dsimp only; omega))
      fits := .inl (.blank rfl)
      opens := fun hends => ?_ }
  rcases hline with heq | hline
  · exact absurd hends.breaks (heq ▸ hfirst)
  · exact absurd hends (not_endsLine_of_startsLine hline)

/-- What is put behind a member goes between items. -/
theorem BodyOf.goesAlong_behind (h : BodyOf source type start body rest s inner)
    (hd : d ∈ type.members)
    (fits : Fits (inAnnotationBody (some type.kind)) inLine text)
    (ends : inLine = true → source[d.extent.stop]? = some '\n')
    (anchor kind : MemberKind) :
    GoesAlong source start body s inner type.kind
      ⟨d.extent.stop, d.extent.stop, gap anchor kind ++ text⟩ := by
  obtain ⟨hexchange, p, hp, hstop, solid⟩ := h.behind_member hd
  obtain ⟨more, hgap⟩ := exists_gap anchor kind
  exact
    { exchangeable := hexchange
      behindSolid := .of_le hp solid (.inr ⟨hstop, rfl⟩)
      fits :=
        (fits.blank_append (Session.isBlank_gap anchor kind)).or_endsLine fun hline =>
        h.endsLine hd (ends hline)
      opens := fun _ => by dsimp only; rw [hgap]; rfl }

/-- What is put behind the opening brace goes between items. -/
theorem BodyOf.goesAlong_opening (h : BodyOf source type start body rest s inner)
    {texts : List Text}
    (fits : ∀ text ∈ texts, Fits (inAnnotationBody (some type.kind)) inLine text) :
    GoesAlong source start body s inner type.kind
      ⟨type.body.start + 1, type.body.start + 1,
        '\n' :: Text.join ['\n'] texts ++ ['\n']⟩ := by
  obtain ⟨⟨p, hp, solid⟩, -⟩ := h.braces
  have hjoin : Fits (inAnnotationBody (some type.kind)) inLine
      (['\n'] ++ Text.join ['\n'] texts) :=
    (Fits.join rfl rfl fits).blank_append rfl
  rw [h.start_eq]
  exact
    { exchangeable := h.opening
      behindSolid := .of_le (p := p) (by rw [List.length_append]; omega) solid
        (.inr ⟨hp.symm, rfl⟩)
      fits := .inl (hjoin.append_blank rfl rfl)
      opens := fun _ => rfl }

/-- What is put in front of the closing brace goes last. -/
theorem BodyOf.goesLast {session : Session}
    (h : BodyOf session.source type start body rest s inner)
    (hbody : session.body = type.body) {texts : List Text}
    (fits : ∀ text ∈ texts, Fits (inAnnotationBody (some type.kind)) inLine text) :
    GoesLast session.source start body type.kind
      (session.bodyEndEdit (Text.join ['\n', '\n'] texts)) := by
  have hclose : session.body.stop - 1 = (start ++ body).length := by
    rw [hbody, h.stop_eq, Nat.add_sub_cancel]
  have hopen := h.start_eq
  have hlength : (start ++ body).length ≤ session.source.length := by
    rw [h.source_eq]
    simp
  have hjoin : Fits (inAnnotationBody (some type.kind)) inLine
      (Text.join ['\n', '\n'] texts) :=
    .join rfl rfl fits
  rw [Session.bodyEndEdit, hclose]
  dsimp only
  split
  -- the closing brace has its line for itself: the block goes in front of that
  -- line
  · next hline =>
    rw [Bool.and_eq_true, decide_eq_true_iff, hbody] at hline
    obtain ⟨hlt, hblank⟩ := hline
    have hstarts := lineStart_starts hlength
    have hle : lineStart session.source (start ++ body).length ≤
        (start ++ body).length := Nat.sub_le _ _
    obtain ⟨a, b, rfl, heq⟩ := exists_split (by omega) hle
    rw [heq] at hblank hstarts ⊢
    refine .mk rfl rfl rfl ?_ (.inl ?_) ?_ fun hends =>
      absurd hends (not_endsLine_of_startsLine hstarts)
    · rwa [h.source_eq, List.append_assoc, slice_between] at hblank
    · rw [h.source_eq, List.append_assoc] at hstarts
      exact eq_break_of_startsLine hstarts
    · refine (hjoin.blank_append ?_).append_blank rfl rfl
      split <;> rfl
  -- otherwise the block begins a line of its own
  · have hlead : Fits (inAnnotationBody (some type.kind)) inLine
        (['\n'] ++ Text.join ['\n', '\n'] texts) :=
      hjoin.blank_append rfl
    refine .mk (List.append_nil body).symm rfl rfl rfl (.inr ⟨rfl, rfl⟩)
      (hlead.append_blank ?_ rfl)
      fun _ => rfl
    rw [Text.isBlank_cons, Style.isBlank_indent]
    rfl

end

/-- What is written in place of a member fits when all texts in place do. -/
theorem fits_replacementText {inAnnotationType inLine : Bool} {slots : List Slot}
    (h : ∀ text ∈ textsInPlace slots, Fits inAnnotationType inLine text)
    (extent : Extent) :
    Fits inAnnotationType inLine (replacementText slots extent) := by
  have hjoin : Fits inAnnotationType inLine (Text.join ['\n'] (textsInPlace
      (slots.filter (·.member.extent == extent)))) := by
    refine .join rfl rfl fun text htext => h text ?_
    obtain ⟨slot, hslot, hreplacement⟩ := List.mem_filterMap.mp htext
    exact List.mem_filterMap.mpr ⟨slot, (List.mem_filter.mp hslot).1, hreplacement⟩
  obtain ⟨front, hfront, htrim⟩ :=
    Text.exists_append_trimStart (Text.join ['\n'] (textsInPlace
      (slots.filter (·.member.extent == extent))))
  rw [htrim] at hjoin
  exact hjoin.of_blank_append hfront

section

variable {session : Session} {slots : List Slot} {pending : List Pending} {text : Text}

theorem mem_texts_of_start
    (h : text ∈ (pending.map (session.place slots)).filterMap Placement.startText?) :
    text ∈ pending.map (·.text) := by
  obtain ⟨texts, -, hperm⟩ := Session.carry_places [] session slots pending
  exact hperm.mem_iff.mp (List.mem_append_left _ (List.mem_append_right _ h))

theorem mem_texts_of_end
    (h : text ∈ (pending.map (session.place slots)).filterMap Placement.endText?) :
    text ∈ pending.map (·.text) := by
  obtain ⟨texts, -, hperm⟩ := Session.carry_places [] session slots pending
  exact hperm.mem_iff.mp (List.mem_append_right _ h)

end

/-- The edits of a pass that imports nothing go along seams of the body, but
for a last one. -/
theorem BodyOf.exists_edits {session : Session} {inLine : Bool}
    (h : BodyOf session.source type start body rest s inner)
    (hbody : session.body = type.body) (imports : session.imports = [])
    (hslots : ∀ slot ∈ (takeOver session.slots session.pending).1,
      ∃ d ∈ type.members, slot.StandsFor d)
    (attached : ∀ d ∈ type.members, IsGenerated d →
      EndsClear tokens (session.source.take d.extent.start))
    (fits : ∀ text ∈ textsInPlace (takeOver session.slots session.pending).1 ++
      (takeOver session.slots session.pending).2.map (·.text),
      Fits (inAnnotationBody (some type.kind)) inLine text)
    (ends : inLine = true → ∀ d ∈ type.members, signaturesOf d ≠ [] →
      session.source[d.extent.stop]? = some '\n') :
    ∃ along last, session.edits = along ++ last ∧
      (∀ e ∈ along, GoesAlong session.source start body s inner type.kind e) ∧
      (last = [] ∨ ∃ e, last = [e] ∧
        GoesLast session.source start body type.kind e) := by
  have himports : importEdits session.unit session.imports = [] := by
    rw [importEdits, imports]
    rfl
  have hedits : session.edits = importEdits session.unit session.imports ++
      replacementEdits (takeOver session.slots session.pending).1 ++
      removalEdits session.source (takeOver session.slots session.pending).1 ++
      session.insertionEdits (takeOver session.slots session.pending).1
        (takeOver session.slots session.pending).2 := rfl
  rw [himports, List.nil_append, Session.insertionEdits_eq, ← List.append_assoc,
    ← List.append_assoc] at hedits
  generalize (takeOver session.slots session.pending).1 = slots at hedits hslots fits
  generalize (takeOver session.slots session.pending).2 = pending at hedits fits
  rw [List.forall_mem_append] at fits
  -- replacements, removals and insertions go along seams; what is put at the
  -- end of the body goes last
  refine ⟨_, _, hedits, fun e he => ?_, ?_⟩
  · simp only [List.mem_append] at he
    rcases he with ((he | he) | he) | he
    · obtain ⟨extent, hextent, rfl⟩ := List.mem_map.mp he
      obtain ⟨slot, hslot, rfl⟩ := mem_distinctExtents.mp hextent
      obtain ⟨hmem, hreplaced⟩ := List.mem_filter.mp hslot
      obtain ⟨d, hd, hfor⟩ := hslots slot hmem
      have generated := hfor.replaced (Option.isSome_iff_ne_none.mp hreplaced)
      rw [hfor.extent]
      exact h.goesAlong_replaced hd generated (attached d hd ⟨hfor.declares, generated⟩)
        (fits_replacementText fits.1 _) fun hline => ends hline d hd hfor.declares
    · obtain ⟨slot, hslot, hstale, heq⟩ := exists_removed he
      obtain ⟨d, hd, hfor⟩ := hslots slot hslot
      have generated := hfor.stale hstale
      rw [heq, hfor.extent]
      exact h.goesAlong_removed hd generated (attached d hd ⟨hfor.declares, generated⟩)
    · obtain ⟨slot, hslot, -, p, hp, anchor, rfl⟩ := Session.exists_behind he
      obtain ⟨d, hd, hfor⟩ := hslots slot hslot
      rw [hfor.extent]
      exact h.goesAlong_behind hd (fits.2 _ (List.mem_map_of_mem hp))
        (fun hline => ends hline d hd hfor.declares) _ _
    · split at he
      · cases he
      · rw [List.mem_singleton.mp he, hbody]
        exact h.goesAlong_opening fun text htext => fits.2 _ (mem_texts_of_start htext)
  · split
    · exact .inl rfl
    · exact .inr ⟨_, rfl,
        h.goesLast hbody fun text htext => fits.2 _ (mem_texts_of_end htext)⟩

/-- An edit that goes along seams is recorded as it is. -/
theorem GoesAlong.clampTo {kind : TypeKind} {e : Edit}
    (h : GoesAlong source start body s inner kind e)
    (hsource : source = start ++ (body ++ rest)) : e.clampTo source.length = e := by
  obtain ⟨start_eq, stop_eq, -, seam, -, -⟩ := h.exchangeable
  have hle := seam.text.length_le
  refine Edit.clampTo_of_le ?_ ?_
  · rw [start_eq, stop_eq]
    simp
  · simp only [stop_eq, hsource, List.length_append] at hle ⊢
    omega

theorem GoesLast.clampTo {kind : TypeKind} {e : Edit}
    (h : GoesLast source start body kind e)
    (hsource : source = start ++ (body ++ rest)) : e.clampTo source.length = e := by
  obtain ⟨rfl, start_eq, stop_eq, -, -, -, -⟩ := h
  refine Edit.clampTo_of_le (Nat.le_of_eq stop_eq.symm) ?_
  rw [stop_eq, start_eq, hsource]
  simp

/-! ## Passes -/

/-- A pass that only brings candidates imports nothing. -/
theorem Session.Reached.imports_eq_nil {s₀ s : Session} {candidates : List Candidate}
    (h : Reached s₀ (candidates.map Candidate.call) s) : s.imports = [] := by
  rw [List.eq_nil_iff_forall_not_mem]
  intro q hq
  obtain ⟨c, -, hc⟩ := List.mem_map.mp ((h.imports q).mp hq).1
  cases hc

/-- What a pass records goes along seams of the body, but for a last edit. -/
theorem Session.Reached.exists_recorded {s₀ session : Session} {calls : List Call}
    {inLine : Bool} (h : Reached s₀ calls session) (ledger : Ledger s₀ calls session)
    (fresh : s₀.IsFresh) (imports : session.imports = [])
    (hmembers : s₀.members = indexMembers type) (hsource : s₀.source = source)
    (hbody : s₀.body = type.body)
    (around : BodyOf source type start body rest s inner)
    (attached : ∀ m ∈ indexMembers type, m.provenance.isGenerated = true →
      EndsClear tokens (source.take m.extent.start))
    (fits : ∀ text ∈ s₀.accepted calls,
      Fits (inAnnotationBody (some type.kind)) inLine text)
    (ends : inLine = true → ∀ m ∈ indexMembers type,
      source[m.extent.stop]? = some '\n') :
    ∃ along last, session.buffer.edits = along ++ last ∧
      (∀ e ∈ along, GoesAlong source start body s inner type.kind e) ∧
      (last = [] ∨ ∃ e, last = [e] ∧ GoesLast source start body type.kind e) := by
  rw [← h.source_eq] at hsource
  rw [← h.body_eq] at hbody
  subst hsource
  have hmember : ∀ d ∈ type.members, signaturesOf d ≠ [] → ∃ m ∈ indexMembers type,
      m.extent = d.extent ∧ m.provenance = provenanceOf d.modifiers := by
    intro d hd hdeclares
    obtain ⟨signature, hsignature⟩ := List.exists_mem_of_ne_nil _ hdeclares
    exact ⟨_, mem_indexMembers.mpr ⟨d, hd, List.mem_map_of_mem hsignature⟩, rfl, rfl⟩
  -- what is assumed of the members holds for the declarations that they are
  -- from
  obtain ⟨along, last, hedits, hfirst, hlast⟩ := around.exists_edits hbody imports
    (fun slot hslot => h.standsFor_takeOver fresh hmembers hslot)
    (fun d hd hgen => by
      obtain ⟨m, hm, hextent, hprovenance⟩ := hmember d hd hgen.declares
      exact hextent ▸ attached m hm (hprovenance ▸ hgen.marked))
    (fun text htext => fits text ((h.texts_accepted ledger fresh).mem_iff.mp htext))
    (fun hline d hd hdeclares => by
      obtain ⟨m, hm, hextent, -⟩ := hmember d hd hdeclares
      exact hextent ▸ ends hline m hm)
  refine ⟨along, last, ?_, hfirst, hlast⟩
  -- all edits lie within the source, so the buffer records them as they are
  have hlast' : ∀ e ∈ last, e.clampTo session.source.length = e := by
    rcases hlast with rfl | ⟨e, rfl, hlast⟩
    · exact fun e he => absurd he List.not_mem_nil
    · intro e he
      rw [List.mem_singleton.mp he]
      exact hlast.clampTo around.source_eq
  rw [Session.buffer_eq, hedits]
  refine (List.map_congr_left fun e he => ?_).trans (List.map_id _)
  rcases List.mem_append.mp he with he | he
  · exact (hfirst e he).clampTo around.source_eq
  · exact hlast' e he

end

/-- The members of a type end their lines. -/
def EndLines (source : Text) (type : TypeDecl) : Prop :=
  ∀ m ∈ indexMembers type, source[m.extent.stop]? = some '\n'

instance (source : Text) (type : TypeDecl) : Decidable (EndLines source type) :=
  inferInstanceAs
    (Decidable (∀ m ∈ indexMembers type, source[m.extent.stop]? = some '\n'))

/-- **What was written by hand is read again.** In a pass over a type of a
source whose brackets are closed, with no loose documentation comment in front
of a generated member, let every candidate be whole items when it is marked and
laid out, or, where all members end their lines, when it stands on lines of its
own. Then the outcome has the type again, at the same depth, and in it every
member that is not generated, in the same order, with the same signature, the
same mark and the same text. -/
theorem hand_written_read_again {source typeName : Text} {type : TypeDecl}
    {depth : Nat} {style : Style} {path : Option Text} {candidates : List Candidate}
    {out : Text} (closed : Tree.flats (Tree.ofTokens (tokens source)) = tokens source)
    (found : locate? (CompilationUnit.read source).types typeName =
      some (type, depth))
    (attached : ∀ m ∈ indexMembers type, m.provenance.isGenerated = true →
      EndsClear tokens (source.take m.extent.start))
    (alone : ∀ c ∈ candidates,
      StandsAlone type.kind (layout style depth (ensureStamped c.code)) ∨
      (StandsAlone type.kind (layout style depth (ensureStamped c.code) ++ ['\n']) ∧
        EndLines source type))
    (written :
      ((Session.ofType source typeName (CompilationUnit.read source) type depth
        style path).run
      (candidates.map Candidate.call)).write = .ok (some out)) :
    ∃ type', locate? (CompilationUnit.read out).types typeName = some (type', depth) ∧
      (views source type.members).Sublist (views out type'.members) := by
  have fresh := Session.isFresh_ofType source typeName (CompilationUnit.read source)
    type depth style path
  have reached := Session.reached_run fresh (Session.isKept_of_written written)
    (candidates.map Candidate.call)
  have ledger := Session.ledger_run fresh (Session.isKept_of_written written)
    (candidates.map Candidate.call)
  -- it is enough that what is written between the braces holds what was read by
  -- hand
  obtain ⟨start, body, rest, s, inner, around, hagain⟩ := found_again closed found
  have hfits : ∀ text ∈
      (Session.ofType source typeName (CompilationUnit.read source) type depth style
      path).accepted (candidates.map Candidate.call),
      Fits (inAnnotationBody (some type.kind))
        (decide (EndLines source type)) text := by
    intro text htext
    obtain ⟨c, hc, rfl⟩ := Session.exists_of_accepted htext
    obtain ⟨c', hc', heq⟩ := List.mem_map.mp hc
    rw [← (Call.define.inj heq).2]
    rcases alone c' hc' with halone | ⟨halone, ends⟩
    · exact halone.fits.anyway
    · rw [decide_eq_true ends]
      exact halone.fits_inLine
  -- every edit of the pass goes along the seams of the body
  obtain ⟨along, last, hrecorded, hfirst, hlast⟩ := reached.exists_recorded ledger fresh
    reached.imports_eq_nil rfl rfl rfl around attached hfits of_decide_eq_true
  have hrender := (Session.write_eq_some written).2
  rw [EditBuffer.render, Session.buffer_source, hrecorded, reached.source_eq] at hrender
  obtain ⟨t, rfl, hwritten⟩ :=
    around.encloses.written_of_apply around.source_eq around.closes hfirst hlast hrender
  exact hagain t hwritten

/-- The first type of a file is found by its name. -/
theorem locate?_head {types : List TypeDecl} {name : Text}
    (h : types.head?.any (·.name == name) = true) :
    locate? types name = some (types.head!, 1) := by
  cases types with
  | nil => cases h
  | cons t rest =>
    obtain ⟨levels, hlevels⟩ : ∃ levels, typesHeight (t :: rest) = levels + 1 := by
      refine Nat.exists_eq_add_one.mpr ?_
      obtain ⟨_, _, _, _, _, _, _⟩ := t
      simp only [typesHeight, List.map_cons, List.foldr_cons, typeHeight]
      omega
    have hname : (t.name == name) = true := h
    rw [locate?, hlevels, locateFrom, List.find?_cons, hname]
    rfl

namespace Sample

/-- Candidates for one of the generated fields of the sample, and
for a new method. -/
def candidates : List Candidate :=
  [⟨.field "a", "int a = 1;"⟩,
    ⟨.method "g" ["int".toList], "int g(int n) \x7b\nreturn n;\n\x7d"⟩]

/-- What a pass with them makes of the sample. -/
def merged : Text :=
  "class A \x7b\n    int x; // by hand\n    @Generated(hash = 1957890965)\n    int a = 1;\n" ++
    "    @Keep void f() \x7b\x7d\n\n    @Generated(hash = 1887546783)\n    int g(int n) \x7b\n" ++
    "        return n;\n    \x7d\n\x7d\n"

theorem written_merged : ((Session.ofType source "A" unit type 1 {}).run
    (candidates.map Candidate.call)).write = .ok (some merged) := by
  decide +kernel

end Sample

/-- In the sample, the field and the method written by hand are read again. -/
theorem hand_written_read_again_sample :
    views Sample.source Sample.type.members =
      [⟨.field "x", .unmarked, "int x;"⟩,
        ⟨.method "f" [], .keep, "@Keep void f() \x7b\x7d"⟩] ∧
    ∃ type', locate? (CompilationUnit.read Sample.merged).types "A" = some (type', 1) ∧
      (views Sample.source Sample.type.members).Sublist
        (views Sample.merged type'.members) := by
  have alone : ∀ c ∈ Sample.candidates,
      StandsAlone Sample.type.kind (layout {} 1 (ensureStamped c.code)) ∨
      (StandsAlone Sample.type.kind (layout {} 1 (ensureStamped c.code) ++ ['\n']) ∧
        EndLines Sample.source Sample.type) := by
    decide +kernel
  refine ⟨by decide +kernel, ?_⟩
  exact hand_written_read_again (by decide +kernel) (locate?_head (by decide +kernel))
    (by decide +kernel) alone Sample.written_merged

end Graft.Merge
