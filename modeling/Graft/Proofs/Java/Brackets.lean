import Graft.Java.Tree

/-!
# How tokens group

Tokens whose brackets close each other become the same trees wherever they stand
(`Bracketed`). What the trees from one position on look like is said for every
list of trees at every depth (`HoldAt`): the tokens read before the position and
behind a grouped front leave it as it is (`holdAt_ofTokens`).
-/

namespace Graft.Java

/-- Tokens in which every bracket is closed by the one that fits it, and the
trees they become. -/
inductive Bracketed : List Token → List Tree → Prop
  | nil : Bracketed [] []
  | leaf {t : Token} {tokens : List Token} {trees : List Tree}
      (plain : closingOf? t = none) (closesNone : isClosing t = false)
      (more : Bracketed tokens trees) :
      Bracketed (t :: tokens) (.leaf t :: trees)
  | group {left right : Token} {inside tokens : List Token} {inner trees : List Tree}
      (fits : closingOf? left = some right.text) (opensNone : closingOf? right = none)
      (closes : isClosing right = true) (within : Bracketed inside inner)
      (more : Bracketed tokens trees) :
      Bracketed (left :: (inside ++ right :: tokens)) (.group left inner right :: trees)

namespace Tree

/-! ## Steps of grouping -/

variable {finish t left : Token} {open' : List (Token × List Tree)}
    {done outer : List Tree} {rest : List Token}

theorem groupFrom_opening {right : Text} (h : closingOf? t = some right) :
    groupFrom finish open' done (t :: rest) =
      groupFrom finish ((t, done) :: open') [] rest := by
  rw [groupFrom.eq_def]
  simp [h]

theorem groupFrom_plain (h : closingOf? t = none) (h' : isClosing t = false) :
    groupFrom finish open' done (t :: rest) =
      groupFrom finish open' (.leaf t :: done) rest := by
  rw [groupFrom.eq_def]
  simp [h, h']

theorem groupFrom_closing (h : closingOf? t = none) (h' : isClosing t = true)
    (fits : closingOf? left = some t.text) :
    groupFrom finish ((left, outer) :: open') done (t :: rest) =
      groupFrom finish open' (.group left done.reverse t :: outer) rest := by
  rw [groupFrom.eq_def]
  simp [h, h', fits]

/-- A closing bracket that fits none is a stray. -/
theorem groupFrom_stray (h : closingOf? t = none) (h' : isClosing t = true)
    (fits : ∀ o ∈ open'.head?, closingOf? o.1 ≠ some t.text) :
    groupFrom finish open' done (t :: rest) =
      groupFrom finish open' (.stray t :: done) rest := by
  rw [groupFrom.eq_def]
  cases open' with
  | nil => simp [h, h']
  | cons o open' => simp [h, h', fits o rfl]

end Tree

namespace Bracketed

variable {tokens tokens' : List Token} {trees trees' : List Tree}

theorem append (h : Bracketed tokens trees) (h' : Bracketed tokens' trees') :
    Bracketed (tokens ++ tokens') (trees ++ trees') := by
  induction h with
  | nil => exact h'
  | leaf plain closesNone _ ih => exact .leaf plain closesNone ih
  | group fits opensNone closes within _ _ ih =>
    simp only [List.cons_append, List.append_assoc]
    exact .group fits opensNone closes within ih

/-- Wherever they stand, bracketed tokens become their trees. -/
theorem groupFrom (h : Bracketed tokens trees) (finish : Token)
    (open' : List (Token × List Tree)) (done : List Tree) (rest : List Token) :
    Tree.groupFrom finish open' done (tokens ++ rest) =
      Tree.groupFrom finish open' (trees.reverse ++ done) rest := by
  induction h generalizing open' done rest with
  | nil => rfl
  | leaf plain closesNone _ ih =>
    rw [List.cons_append, Tree.groupFrom_plain plain closesNone, ih]
    simp
  | group fits opensNone closes _ _ ihWithin ihMore =>
    rw [List.cons_append, List.append_assoc, Tree.groupFrom_opening fits, ihWithin,
      List.cons_append, Tree.groupFrom_closing opensNone closes fits, ihMore]
    simp

end Bracketed

/-! ## The trees from a position on -/

mutual

/-- Inside a tree, the trees from a position on are of a kind. -/
def Tree.HoldsAt (position : Nat) (holds : List Tree → Prop) : Tree → Prop
  | .group _ inner _ => HoldAt position holds inner
  | .leaf _ => True
  | .stray _ => True

/-- Among the trees, at any depth, those from a position on are of a kind. -/
def HoldAt (position : Nat) (holds : List Tree → Prop) : List Tree → Prop
  | [] => True
  | t :: rest =>
    (t.first.start = position → holds (t :: rest)) ∧ t.HoldsAt position holds ∧
      HoldAt position holds rest

end

section

variable {position : Nat} {holds holds' : List Tree → Prop}

mutual

theorem Tree.HoldsAt.mono (himp : ∀ us, holds us → holds' us) :
    (t : Tree) → t.HoldsAt position holds → t.HoldsAt position holds'
  | .leaf _, _ => by
    rw [Tree.HoldsAt]
    trivial
  | .stray _, _ => by
    rw [Tree.HoldsAt]
    trivial
  | .group _ inner _, h => by
    rw [Tree.HoldsAt] at h ⊢
    exact HoldAt.mono himp inner h

theorem HoldAt.mono (himp : ∀ us, holds us → holds' us) :
    (trees : List Tree) → HoldAt position holds trees → HoldAt position holds' trees
  | [], _ => by
    rw [HoldAt]
    trivial
  | t :: rest, h => by
    rw [HoldAt] at h ⊢
    exact ⟨fun hstart => himp _ (h.1 hstart), Tree.HoldsAt.mono himp t h.2.1,
      HoldAt.mono himp rest h.2.2⟩

end

end

namespace HoldAt

variable {position : Nat} {holds : List Tree → Prop} {trees trees' : List Tree}

theorem nil (position : Nat) (holds : List Tree → Prop) : HoldAt position holds [] := by
  unfold HoldAt
  trivial

theorem cons_iff {t : Tree} : HoldAt position holds (t :: trees) ↔
    (t.first.start = position → holds (t :: trees)) ∧ t.HoldsAt position holds ∧
      HoldAt position holds trees := by
  rw [HoldAt]

theorem suffix (h : HoldAt position holds trees) (hsuffix : trees' <:+ trees) :
    HoldAt position holds trees' := by
  induction trees with
  | nil => rwa [List.suffix_nil.mp hsuffix]
  | cons t rest ih =>
    rcases List.suffix_cons_iff.mp hsuffix with rfl | hrest
    · exact h
    · exact ih (cons_iff.mp h).2.2 hrest

theorem inner {left right : Token} {inside : List Tree}
    (h : HoldAt position holds trees) (hmem : .group left inside right ∈ trees) :
    HoldAt position holds inside := by
  obtain ⟨before, behind, rfl⟩ := List.append_of_mem hmem
  have hgroup := (cons_iff.mp (h.suffix (List.suffix_append before _))).2.1
  rwa [Tree.HoldsAt] at hgroup

/-- Where no tree begins at the position, more trees may follow. -/
theorem append_of_none (h : HoldAt position (fun _ => False) trees)
    (h' : HoldAt position holds trees') : HoldAt position holds (trees ++ trees') := by
  induction trees with
  | nil => exact h'
  | cons t rest ih =>
    obtain ⟨hnone, hinside, hrest⟩ := cons_iff.mp h
    exact cons_iff.mpr
      ⟨fun hstart => (hnone hstart).elim,
        hinside.mono (fun _ => False.elim) t, ih hrest⟩

/-- A tree that begins elsewhere may be added, if those in front of it
stay of their kind. -/
theorem concat {t : Tree} (h : HoldAt position holds trees)
    (helse : t.first.start ≠ position) (ht : t.HoldsAt position holds)
    (hstable : ∀ us, holds us → holds (us ++ [t])) :
    HoldAt position holds (trees ++ [t]) := by
  induction trees with
  | nil => exact cons_iff.mpr ⟨fun h => absurd h helse, ht, nil position holds⟩
  | cons u rest ih =>
    obtain ⟨hu, hinside, hrest⟩ := cons_iff.mp h
    exact cons_iff.mpr ⟨fun hstart => hstable _ (hu hstart), hinside, ih hrest⟩

end HoldAt

theorem Bracketed.holdAt {tokens : List Token} {trees : List Tree}
    (h : Bracketed tokens trees) {position : Nat}
    (helse : ∀ t ∈ tokens, t.start ≠ position) (holds : List Tree → Prop) :
    HoldAt position holds trees := by
  induction h with
  | nil => exact .nil position holds
  | leaf _ _ _ ih =>
    obtain ⟨hfirst, hrest⟩ := List.forall_mem_cons.mp helse
    exact HoldAt.cons_iff.mpr ⟨fun h => absurd h hfirst, trivial, ih hrest⟩
  | group _ _ _ _ _ ihWithin ihMore =>
    obtain ⟨hfirst, hrest⟩ := List.forall_mem_cons.mp helse
    obtain ⟨hwithin, hmore⟩ := List.forall_mem_append.mp hrest
    have hinner := ihWithin hwithin
    exact HoldAt.cons_iff.mpr ⟨fun h => absurd h hfirst, by rwa [Tree.HoldsAt],
      ihMore (List.forall_mem_cons.mp hmore).2⟩

/-! ## Grouping keeps what holds -/

/-- What holds of the trees from a position on holds of the brackets that are
open and of the trees behind them. -/
structure StateHolds (position : Nat) (holds : List Tree → Prop)
    (open' : List (Token × List Tree)) (done : List Tree) : Prop where
  opened : ∀ o ∈ open', o.1.start ≠ position ∧ HoldAt position holds o.2.reverse
  done : HoldAt position holds done.reverse

namespace StateHolds

variable {position : Nat} {holds : List Tree → Prop} (ends : Token → Prop)
  {open' : List (Token × List Tree)} {done : List Tree}

/-- A tree that begins elsewhere joins the others. -/
theorem join (hstable : ∀ us t, holds us → ends t.last → holds (us ++ [t]))
    (h : HoldAt position holds done.reverse) {t : Tree}
    (helse : t.first.start ≠ position) (hends : ends t.last)
    (ht : t.HoldsAt position holds) :
    HoldAt position holds (t :: done).reverse := by
  rw [List.reverse_cons]
  exact h.concat helse ht fun us hus => hstable us t hus hends

theorem step (hstable : ∀ us t, holds us → ends t.last → holds (us ++ [t]))
    (h : StateHolds position holds open' done) {t : Token} (helse : t.start ≠ position)
    (hends : ends t) :
    ∃ open'' done', StateHolds position holds open'' done' ∧ ∀ finish rest,
      Tree.groupFrom finish open' done (t :: rest) =
        Tree.groupFrom finish open'' done' rest := by
  -- the place is not where the token is, so it stays in what has been read or
  -- is open
  cases hopening : closingOf? t with
  | some right =>
    refine ⟨(t, done) :: open', [], ⟨?_, .nil position holds⟩, fun _ _ =>
      Tree.groupFrom_opening hopening⟩
    exact List.forall_mem_cons.mpr ⟨⟨helse, h.done⟩, h.opened⟩
  | none =>
  cases hclosing : isClosing t with
  | false =>
    exact ⟨open', .leaf t :: done,
      ⟨h.opened, join ends hstable h.done helse hends trivial⟩, fun _ _ =>
      Tree.groupFrom_plain hopening hclosing⟩
  | true =>
  by_cases hfits : ∃ left outer open'', open' = (left, outer) :: open'' ∧
      closingOf? left = some t.text
  · obtain ⟨left, outer, open'', rfl, hfits⟩ := hfits
    obtain ⟨⟨hleft, houter⟩, hopened⟩ := List.forall_mem_cons.mp h.opened
    have hgroup : (Tree.group left done.reverse t).HoldsAt position holds := by
      rw [Tree.HoldsAt]
      exact h.done
    exact ⟨open'', .group left done.reverse t :: outer,
      ⟨hopened, join ends hstable houter hleft hends hgroup⟩, fun _ _ =>
        Tree.groupFrom_closing hopening hclosing hfits⟩
  · refine ⟨open', .stray t :: done,
      ⟨h.opened, join ends hstable h.done helse hends trivial⟩, fun _ _ =>
      Tree.groupFrom_stray hopening hclosing fun o ho hfit => hfits ?_⟩
    obtain ⟨open'', rfl⟩ := List.head?_eq_some_iff.mp ho
    exact ⟨o.1, o.2, open'', rfl, hfit⟩

theorem run (hstable : ∀ us t, holds us → ends t.last → holds (us ++ [t]))
    (h : StateHolds position holds open' done) {tokens : List Token}
    (helse : ∀ t ∈ tokens, t.start ≠ position ∧ ends t) :
    ∃ open'' done', StateHolds position holds open'' done' ∧ ∀ finish rest,
      Tree.groupFrom finish open' done (tokens ++ rest) =
        Tree.groupFrom finish open'' done' rest := by
  induction tokens generalizing open' done with
  | nil => exact ⟨open', done, h, fun _ _ => rfl⟩
  | cons t tokens ih =>
    obtain ⟨⟨hfirst, hends⟩, hrest⟩ := List.forall_mem_cons.mp helse
    obtain ⟨open1, done1, hnext, hstep⟩ := h.step ends hstable hfirst hends
    obtain ⟨open2, done2, hlast, hrun⟩ := ih hnext hrest
    exact ⟨open2, done2, hlast,
      fun finish rest => by rw [List.cons_append, hstep, hrun]⟩

theorem closeAll (hstable : ∀ us t, holds us → ends t.last → holds (us ++ [t]))
    {finish : Token} (hfinish : ends finish)
    (h : StateHolds position holds open' done) :
    HoldAt position holds (Tree.closeAll finish open' done) := by
  induction open' generalizing done with
  | nil => exact h.done
  | cons o open' ih =>
    obtain ⟨⟨hleft, houter⟩, hopened⟩ := List.forall_mem_cons.mp h.opened
    have hgroup : (Tree.group o.1 done.reverse finish).HoldsAt position holds := by
      rw [Tree.HoldsAt]
      exact h.done
    exact ih ⟨hopened, join ends hstable houter hleft hfinish hgroup⟩

/-- Tokens that begin elsewhere leave brackets and trees that do. -/
theorem exists_of_none {tokens : List Token} (h : ∀ t ∈ tokens, t.start ≠ position) :
    ∃ open' done, StateHolds position (fun _ => False) open' done ∧ ∀ finish rest,
      Tree.groupFrom finish [] [] (tokens ++ rest) =
        Tree.groupFrom finish open' done rest := by
  have hstart : StateHolds position (fun _ => False) [] [] :=
    ⟨List.forall_mem_nil _, .nil position _⟩
  exact hstart.run (fun _ => True) (fun _ _ h _ => h) fun t ht => ⟨h t ht, trivial⟩

end StateHolds

/-- Trees that begin with some, behind which nothing ends before a position. -/
def BeginWith (front : List Tree) (stop : Nat) (trees : List Tree) : Prop :=
  ∃ more, trees = front ++ more ∧ ∀ t ∈ more, stop ≤ t.last.stop

theorem BeginWith.concat {front trees : List Tree} {stop : Nat}
    (h : BeginWith front stop trees) {t : Tree} (ht : stop ≤ t.last.stop) :
    BeginWith front stop (trees ++ [t]) := by
  obtain ⟨more, rfl, hmore⟩ := h
  refine ⟨more ++ [t], List.append_assoc .., List.forall_mem_append.mpr ⟨hmore, ?_⟩⟩
  exact List.forall_mem_singleton.mpr ht

/-- Bracketed tokens lead the trees from the place of the first of them on. -/
theorem Bracketed.holdAt_first {front : List Token} {trees : List Tree}
    (h : Bracketed front trees) {position : Nat}
    (htail : ∀ t ∈ front.tail, t.start ≠ position) (stop : Nat) :
    HoldAt position (BeginWith trees stop) trees := by
  have hbegin : BeginWith trees stop trees :=
    ⟨[], (List.append_nil _).symm, List.forall_mem_nil _⟩
  cases h with
  | nil => exact .nil position _
  | leaf _ _ more =>
    exact HoldAt.cons_iff.mpr ⟨fun _ => hbegin, trivial, more.holdAt htail _⟩
  | group _ _ _ within more =>
    obtain ⟨hwithin, hmore⟩ := List.forall_mem_append.mp htail
    refine HoldAt.cons_iff.mpr
      ⟨fun _ => hbegin, ?_, more.holdAt (List.forall_mem_cons.mp hmore).2 _⟩
    rw [Tree.HoldsAt]
    exact within.holdAt hwithin _

/-- Where no token begins, no tree does. -/
theorem holdAt_ofTokens_of_none {tokens : List Token} {position : Nat}
    (h : ∀ t ∈ tokens, t.start ≠ position) :
    HoldAt position (fun _ => False) (Tree.ofTokens tokens) := by
  obtain ⟨open', done, hstate, hread⟩ := StateHolds.exists_of_none h
  have hclosed : ∀ finish,
      Tree.groupFrom finish [] [] tokens = Tree.closeAll finish open' done := by
    intro finish
    have hfinish := hread finish []
    rw [List.append_nil] at hfinish
    rw [hfinish, Tree.groupFrom]
  unfold Tree.ofTokens
  dsimp only
  rw [hclosed]
  exact hstate.closeAll (fun _ => True) (fun _ _ h _ => h) trivial

/-- **Bracketed tokens lead the trees from their place on**, whatever is open in
front of them. -/
theorem holdAt_ofTokens {before front behind : List Token} {trees : List Tree}
    {position stop : Nat} (hfront : Bracketed front trees)
    (hbefore : ∀ t ∈ before, t.start ≠ position)
    (htail : ∀ t ∈ front.tail, t.start ≠ position)
    (hbehind : ∀ t ∈ behind, t.start ≠ position ∧ stop ≤ t.stop)
    (hlast : ∀ t ∈ (front ++ behind).getLast?, stop ≤ t.stop) (hne : front ≠ []) :
    HoldAt position (BeginWith trees stop)
      (Tree.ofTokens (before ++ (front ++ behind))) := by
  -- the state in front of the trees, behind them, and at the end of the text
  obtain ⟨open', done, hstate, hreadBefore⟩ := StateHolds.exists_of_none hbefore
  have hstable : ∀ us (t : Tree), BeginWith trees stop us → stop ≤ t.last.stop →
      BeginWith trees stop (us ++ [t]) := fun _ _ hus ht => hus.concat ht
  have hread : StateHolds position (BeginWith trees stop) open'
      (trees.reverse ++ done) := by
    refine ⟨fun o ho => ?_, ?_⟩
    · obtain ⟨hleft, houter⟩ := hstate.opened o ho
      exact ⟨hleft, houter.mono (fun _ => False.elim) _⟩
    · rw [List.reverse_append, List.reverse_reverse]
      exact hstate.done.append_of_none (hfront.holdAt_first htail stop)
  obtain ⟨open'', done', hend, hreadBehind⟩ := hread.run (stop ≤ ·.stop) hstable hbehind
  have hgroup : ∀ finish, Tree.groupFrom finish [] [] (before ++ (front ++ behind)) =
      Tree.closeAll finish open'' done' := by
    intro finish
    have hfinish := hreadBehind finish []
    rw [List.append_nil] at hfinish
    rw [hreadBefore, hfront.groupFrom, hfinish, Tree.groupFrom]
  obtain ⟨last, hlast'⟩ : ∃ last, (front ++ behind).getLast? = some last :=
    ⟨_, List.getLast?_eq_some_getLast (List.append_ne_nil_of_left_ne_nil hne _)⟩
  have hwhole : (before ++ (front ++ behind)).getLast? = some last := by
    rw [List.getLast?_append, hlast', Option.some_or]
  unfold Tree.ofTokens
  simp only [hwhole, hgroup]
  exact hend.closeAll (stop ≤ ·.stop) hstable (hlast last hlast')

end Graft.Java
