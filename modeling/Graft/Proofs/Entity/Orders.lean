import Graft.Entity.Order
import Graft.Proofs.Results
import Graft.Proofs.Text.Words

/-!
# The grammar of ordered property lists

What an ordered property list looks like, said without the functions that read
it: entries with commas between them, each of them a name and a word for its
direction or none, with blanks around (`PrintsEntry`), and what can be wrong
with an entry (`FaultIn`).

* `read_eq_ok_iff` and `read_eq_error_iff` hold the reading of one
  entry against them.
* `readEntries_eq_error_iff` finds the leftmost entry that
  something is wrong with.
* `readOrder_follows_grammar` gives the outcome for every text, and says that
  every printing of a list of properties is read as the list.
-/

namespace Graft.Entity

open Text

/-! ## The grammar -/

/-- A name of a property in an ordered list. -/
structure IsListName (name : Text) : Prop where
  isWord : IsWord name
  no_comma : ',' ∉ name

/-- The word for a direction. -/
def Direction.word : Direction → Text
  | .ascending => "ASC"
  | .descending => "DESC"

/-- A word of capitals with each of its letters written as a
capital or small. -/
def InAnyCase (word t : Text) : Prop :=
  List.Forall₂ (fun c d => d = c ∨ d = c.toLower) word t

/-- What stands behind a name: nothing, which means ascending, or blanks and a
word for the direction. -/
inductive PrintsDirection : Direction → Text → Prop
  | none : PrintsDirection .ascending []
  | word {direction : Direction} {gap word : Text} (blank : isBlank gap = true)
      (gap_ne : gap ≠ []) (spelled : InAnyCase direction.word word) :
      PrintsDirection direction (gap ++ word)

/-- An entry that stands for a property: its name and its direction,
with blanks around. -/
inductive PrintsEntry (property : OrderedProperty) : Text → Prop
  | mk {before direction behind : Text} (blank_before : isBlank before = true)
      (name : IsListName property.name)
      (printed : PrintsDirection property.direction direction)
      (blank_behind : isBlank behind = true) :
      PrintsEntry property (before ++ (property.name ++ (direction ++ behind)))

/-- What is wrong with an entry at a position, and the error that says so. -/
inductive FaultIn (position : Nat) : Text → OrderError → Prop
  /-- Nothing is there. -/
  | nothing {entry : Text} (blank : isBlank entry = true) :
      FaultIn position entry (.emptyEntry position)
  /-- The word behind the name is no direction. -/
  | unknown {before name gap word behind : Text}
      (blank_before : isBlank before = true) (isName : IsWord name)
      (blank : isBlank gap = true) (gap_ne : gap ≠ []) (isWord : IsWord word)
      (none : ∀ direction : Direction, ¬ InAnyCase direction.word word)
      (ends : EndsWord behind) :
      FaultIn position (before ++ (name ++ (gap ++ (word ++ behind))))
        (.unknownDirection name word)
  /-- Something follows the direction; the error shows the entry without the
  blanks around it. -/
  | further {before name gap word gap' more behind : Text} {direction : Direction}
      (blank_before : isBlank before = true) (isName : IsWord name)
      (blank : isBlank gap = true) (gap_ne : gap ≠ [])
      (spelled : InAnyCase direction.word word) (blank' : isBlank gap' = true)
      (gap_ne' : gap' ≠ []) (more_ne : more ≠ []) (trimmed : IsTrimmed more)
      (blank_behind : isBlank behind = true) :
      FaultIn position
        (before ++ ((name ++ (gap ++ (word ++ (gap' ++ more)))) ++ behind))
        (.tooManyWords (name ++ (gap ++ (word ++ (gap' ++ more)))))

/-! ## Words for directions -/

theorem toNat_toLower (c : Char) :
    c.toLower.toNat = if 65 ≤ c.toNat ∧
    c.toNat ≤ 90 then c.toNat + 32 else c.toNat := by
  unfold Char.toLower
  split
  · next h =>
    have hcapital : 65 ≤ c.toNat ∧ c.toNat ≤ 90 := ⟨h.1, h.2⟩
    rw [if_pos hcapital]
    show (c.val + ('a'.val - 'A'.val)).toNat = _
    rw [UInt32.toNat_add]
    show (c.toNat + 32) % 2 ^ 32 = _
    omega
  · next h => rw [if_neg fun hcapital => h ⟨hcapital.1, hcapital.2⟩]

theorem toLower_eq_toLower_iff {c d : Char} (h : 65 ≤ c.toNat ∧ c.toNat ≤ 90) :
    d.toLower = c.toLower ↔ d = c ∨ d = c.toLower := by
  rw [← Char.toNat_inj, ← Char.toNat_inj, ← Char.toNat_inj (d := c.toLower),
    toNat_toLower, toNat_toLower, if_pos h]
  split <;> omega

/-- Small and capital letters do not count. -/
theorem inAnyCase_iff_map {word t : Text}
    (h : ∀ c ∈ word, 65 ≤ c.toNat ∧ c.toNat ≤ 90) :
    InAnyCase word t ↔ t.map Char.toLower = word.map Char.toLower := by
  unfold InAnyCase
  induction word generalizing t with
  | nil => simp
  | cons c word ih =>
    obtain ⟨hc, hword⟩ := List.forall_mem_cons.mp h
    cases t with
    | nil => simp
    | cons d t =>
      rw [List.forall₂_cons, ih hword, List.map_cons, List.map_cons, List.cons_eq_cons,
        toLower_eq_toLower_iff hc]

theorem Direction.capital_of_mem_word (direction : Direction) :
    ∀ c ∈ direction.word, 65 ≤ c.toNat ∧ c.toNat ≤ 90 := by
  have hall : (direction.word.all fun c => 65 ≤ c.toNat ∧ c.toNat ≤ 90) = true := by
    cases direction <;> rfl
  exact fun c hc => of_decide_eq_true (List.all_eq_true.mp hall c hc)

theorem inAnyCase_iff (direction : Direction) (word : Text) :
    InAnyCase direction.word word ↔ Direction.ofWord? word = some direction := by
  rw [inAnyCase_iff_map direction.capital_of_mem_word, Direction.ofWord?]
  cases direction with
  | ascending =>
    change word.map Char.toLower = "asc".toList ↔ _
    split
    · next h => exact iff_of_true h rfl
    · next h => exact iff_of_false h (by split <;> nofun)
  | descending =>
    change word.map Char.toLower = "desc".toList ↔ _
    split
    · next h => exact iff_of_false (by rw [h]; decide) nofun
    · split
      · next h => exact iff_of_true h rfl
      · next h => exact iff_of_false h nofun

theorem ofWord?_eq_none_iff (word : Text) :
    Direction.ofWord? word = none ↔ ∀ direction :
    Direction, ¬ InAnyCase direction.word word := by
  simp only [inAnyCase_iff, Option.eq_none_iff_forall_ne_some, ne_eq]

theorem InAnyCase.isWord {direction : Direction} {word : Text}
    (h : InAnyCase direction.word word) :
    IsWord word := by
  have hall :
      (direction.word.all fun c => !Char.isBlank c && !Char.isBlank c.toLower) =
        true := by
    cases direction <;> rfl
  have hsolid : ∀ c ∈ direction.word,
      Char.isBlank c = false ∧ Char.isBlank c.toLower = false := by
    intro c hc
    simpa using List.all_eq_true.mp hall c hc
  constructor
  · rintro rfl
    have hnil := List.forall₂_nil_right_iff.mp h
    cases direction <;> cases hnil
  · intro d hd
    obtain ⟨c, hc, hcase⟩ := exists_of_mem_of_forall₂ h hd
    rcases hcase with rfl | rfl
    · exact (hsolid d hc).1
    · exact (hsolid c hc).2

/-! ## One entry -/

theorem words_name_word {before name gap word rest : Text}
    (hbefore : isBlank before = true) (hname : IsWord name)
    (hgap : isBlank gap = true) (hne : gap ≠ []) (hword : IsWord word)
    (hrest : EndsWord rest) :
    words (before ++ (name ++ (gap ++ (word ++ rest)))) =
      name :: word :: words rest := by
  rw [words_append_blank hbefore, words_append hname (endsWord_append hgap hne _),
    words_append_blank hgap, words_append hword hrest]

theorem PrintsEntry.read_eq {property : OrderedProperty} {entry : Text}
    (h : PrintsEntry property entry) (position : Nat) :
    OrderedProperty.read position entry = .ok property := by
  obtain ⟨name, direction⟩ := property
  obtain @⟨before, text, behind, hbefore, hname, hdirection, hbehind⟩ := h
  have hends := endsWord_of_blank hbehind
  cases hdirection with
  | none =>
    rw [List.nil_append, OrderedProperty.read, words_append_blank hbefore,
      words_append hname.isWord hends, words_of_blank hbehind]
  | @word _ gap word hgap hne hword =>
    rw [List.append_assoc, OrderedProperty.read,
      words_name_word hbefore hname.isWord hgap hne hword.isWord hends,
      words_of_blank hbehind]
    dsimp only
    rw [(inAnyCase_iff direction word).mp hword]
    rfl

theorem FaultIn.read_eq {position : Nat} {entry : Text} {e : OrderError}
    (h : FaultIn position entry e) :
    OrderedProperty.read position entry = .error e := by
  cases h with
  | nothing blank => rw [OrderedProperty.read, words_of_blank blank]
  | @unknown before name gap word behind hbefore hname hgap hne hword hnone hends =>
    rw [OrderedProperty.read, words_name_word hbefore hname hgap hne hword hends]
    dsimp only
    rw [(ofWord?_eq_none_iff word).mpr hnone]
  | @further before name gap word gap' more behind direction hbefore hname hgap hne
      hword hgap' hne'
      hmore htrimmed hbehind =>
    let entry := name ++ (gap ++ (word ++ (gap' ++ more)))
    have hentry : trim (before ++ (entry ++ behind)) = entry := by
      have hwhole : IsTrimmed (name ++ ((gap ++ (word ++ gap')) ++ more)) :=
        htrimmed.behind_word hmore hname _
      rw [trim_append_left hbefore, trim_append_right hbehind]
      simpa [entry] using hwhole.trim_eq
    have hwords : words (before ++ (entry ++ behind)) =
        name :: word :: words (gap' ++ (more ++ behind)) := by
      have hends : EndsWord (gap' ++ (more ++ behind)) := endsWord_append hgap' hne' _
      rw [← words_name_word hbefore hname hgap hne hword.isWord hends]
      simp [entry]
    -- something is left behind the direction, so the whole entry is at fault
    have hfurther : (words (gap' ++ (more ++ behind))).isEmpty = false := by
      have hsolid : isBlank more = false := by
        rw [← Bool.not_eq_true, ← trim_eq_nil_iff, htrimmed.trim_eq]
        exact hmore
      rw [← Bool.not_eq_true, List.isEmpty_iff, words_eq_nil_iff]
      simp [hsolid]
    rw [OrderedProperty.read, hwords]
    dsimp only
    rw [(inAnyCase_iff direction word).mp hword]
    dsimp only
    rw [hfurther, hentry]
    rfl

/-- An entry is read, or something is wrong with it. -/
theorem prints_or_fault {entry : Text} (hcomma : ',' ∉ entry) (position : Nat) :
    (∃ property, PrintsEntry property entry) ∨ ∃ e, FaultIn position entry e := by
  -- by the words of the entry: none, a name, a name and a direction, or more
  cases hwords : words entry with
  | nil => exact .inr ⟨_, .nothing ((words_eq_nil_iff entry).mp hwords)⟩
  | cons name ws =>
    obtain ⟨before, rest, rfl, hbefore, hname, hends, hrest⟩ :=
      words_eq_cons_iff.mp hwords
    have hlist : IsListName name := ⟨hname, fun h => hcomma (by simp [h])⟩
    cases ws with
    | nil =>
      have hblank := (words_eq_nil_iff rest).mp hrest
      have hprints : PrintsEntry ⟨name, .ascending⟩
          (before ++ (name ++ ([] ++ rest))) :=
        .mk hbefore hlist .none hblank
      exact .inl ⟨_, hprints⟩
    | cons word more =>
      obtain ⟨gap, rest', rfl, hgap, hword, hends', hrest'⟩ :=
        words_eq_cons_iff.mp hrest
      have hne : gap ≠ [] := hends.gap_ne_nil hword.ne_nil hword.first
      cases hdirection : Direction.ofWord? word with
      | none =>
        have hnone := (ofWord?_eq_none_iff word).mp hdirection
        exact .inr ⟨_, .unknown hbefore hname hgap hne hword hnone hends'⟩
      | some direction =>
        have hspelled := (inAnyCase_iff direction word).mpr hdirection
        by_cases hblank : isBlank rest' = true
        · refine .inl ⟨⟨name, direction⟩, ?_⟩
          rw [← List.append_assoc gap]
          exact .mk hbefore hlist (.word hgap hne hspelled) hblank
        · obtain ⟨gap', behind, hgap', hbehind, hparts⟩ := exists_trim rest'
          have hmore : trim rest' ≠ [] :=
            fun hnil => hblank ((trim_eq_nil_iff rest').mp hnil)
          have htrimmed := isTrimmed_trim rest'
          generalize trim rest' = more at hparts hmore htrimmed
          subst hparts
          rw [List.append_assoc] at hends'
          have hne' : gap' ≠ [] := hends'.gap_ne_nil hmore htrimmed.first
          have hsame : before ++ (name ++ (gap ++ (word ++ (gap' ++ more ++ behind)))) =
              before ++ ((name ++ (gap ++ (word ++ (gap' ++ more)))) ++ behind) := by
                simp
          rw [hsame]
          exact .inr
            ⟨_, .further hbefore hname hgap hne hspelled hgap' hne' hmore
              htrimmed hbehind⟩

theorem read_eq_ok_iff {entry : Text} (hcomma : ',' ∉ entry) {position : Nat}
    {property : OrderedProperty} :
    OrderedProperty.read position entry = .ok property ↔
      PrintsEntry property entry := by
  refine ⟨fun h => ?_, fun h => h.read_eq position⟩
  rcases prints_or_fault hcomma position with ⟨property', hprints⟩ | ⟨e, hfault⟩
  · rw [hprints.read_eq position] at h
    rwa [← Except.ok.inj h]
  · rw [hfault.read_eq] at h
    cases h

theorem read_eq_error_iff {entry : Text} (hcomma : ',' ∉ entry) {position : Nat}
    {e : OrderError} :
    OrderedProperty.read position entry = .error e ↔ FaultIn position entry e := by
  refine ⟨fun h => ?_, FaultIn.read_eq⟩
  rcases prints_or_fault hcomma position with ⟨property, hprints⟩ | ⟨e', hfault⟩
  · rw [hprints.read_eq position] at h
    cases h
  · rw [hfault.read_eq] at h
    rwa [← Except.error.inj h]

/-! ## All entries -/

theorem readEntries_cons (position : Nat) (entry : Text) (rest : List Text) :
    readEntries position (entry :: rest) = (do
      let property ← OrderedProperty.read position entry
      let properties ← readEntries (position + 1) rest
      pure (property :: properties)) := rfl

theorem readEntries_eq_ok_iff {entries : List Text}
    (hcomma : ∀ entry ∈ entries, ',' ∉ entry) {position : Nat}
    {properties : List OrderedProperty} :
    readEntries position entries = .ok properties ↔
      List.Forall₂ PrintsEntry properties entries := by
  induction entries generalizing position properties with
  | nil =>
    rw [List.forall₂_nil_right_iff, readEntries, Except.ok.injEq]
    exact eq_comm
  | cons entry rest ih =>
    obtain ⟨hentry, hrest⟩ := List.forall_mem_cons.mp hcomma
    rw [readEntries_cons, bind_eq_ok_iff, List.forall₂_cons_right_iff]
    constructor
    · rintro ⟨property, hread, hbehind⟩
      obtain ⟨later, hlater, hwhole⟩ := ok_of_bind hbehind
      cases hwhole
      exact ⟨property, later, (read_eq_ok_iff hentry).mp hread,
        (ih hrest).mp hlater, rfl⟩
    · rintro ⟨property, later, hprints, hlater, rfl⟩
      refine ⟨property, hprints.read_eq position, ?_⟩
      rw [(ih hrest).mpr hlater]
      rfl

/-- The entries in front of one that something is wrong with stand
for properties. -/
def LeftmostFault (position : Nat) (entries : List Text) (e : OrderError) : Prop :=
  ∃ before entry behind, entries = before ++ entry :: behind ∧
    (∀ x ∈ before, ∃ property, PrintsEntry property x) ∧
    FaultIn (position + before.length) entry e

theorem leftmostFault_cons_iff {position : Nat} {entry : Text} {rest : List Text}
    {e : OrderError} :
    LeftmostFault position (entry :: rest) e ↔ FaultIn position entry e ∨
      (∃ property, PrintsEntry property entry) ∧
      LeftmostFault (position + 1) rest e := by
  constructor
  · rintro ⟨before, entry', behind, hparts, hbefore, hfault⟩
    cases before with
    | nil =>
      obtain ⟨rfl, rfl⟩ := List.cons.inj hparts
      exact .inl hfault
    | cons x before =>
      obtain ⟨rfl, rfl⟩ := List.cons.inj hparts
      obtain ⟨hprints, hbefore⟩ := List.forall_mem_cons.mp hbefore
      refine .inr ⟨hprints, before, entry', behind, rfl, hbefore, ?_⟩
      rwa [List.length_cons, Nat.add_comm before.length, ← Nat.add_assoc] at hfault
  · rintro (hfault | ⟨hprints, before, entry', behind, rfl, hbefore, hfault⟩)
    · exact ⟨[], entry, rest, rfl, List.forall_mem_nil _, hfault⟩
    · refine ⟨entry :: before, entry', behind, rfl,
        List.forall_mem_cons.mpr ⟨hprints, hbefore⟩, ?_⟩
      rwa [List.length_cons, Nat.add_comm before.length, ← Nat.add_assoc]

theorem readEntries_eq_error_iff {entries : List Text}
    (hcomma : ∀ entry ∈ entries, ',' ∉ entry) {position : Nat} {e : OrderError} :
    readEntries position entries = .error e ↔ LeftmostFault position entries e := by
  induction entries generalizing position with
  | nil =>
    refine iff_of_false (by rw [readEntries]; nofun) ?_
    rintro ⟨before, entry, behind, hnil, -⟩
    simp at hnil
  | cons entry rest ih =>
    obtain ⟨hentry, hrest⟩ := List.forall_mem_cons.mp hcomma
    have hprints : ∀ property, PrintsEntry property entry ↔
        OrderedProperty.read position entry = .ok property :=
      fun _ => (read_eq_ok_iff hentry).symm
    rw [readEntries_cons, leftmostFault_cons_iff,
      ← read_eq_error_iff hentry, ← ih hrest]
    simp only [hprints]
    cases OrderedProperty.read position entry with
    | error e' => simp [bind, Except.bind]
    | ok property =>
      cases readEntries (position + 1) rest <;>
        simp [bind, Except.bind, pure, Except.pure]

/-! ## Whole lists -/

/-- A text that lists properties: entries for them one behind the other, with
commas in between. -/
def Prints (properties : List OrderedProperty) (spec : Text) : Prop :=
  ∃ entries, entries ≠ [] ∧ spec = join [','] entries ∧
    List.Forall₂ PrintsEntry properties entries

/-- What is wrong with a text that lists no properties: it is blank, or
else something is wrong with the leftmost of the pieces between its commas
that is no entry. -/
def FaultOf (spec : Text) (e : OrderError) : Prop :=
  (isBlank spec = true ∧ e = .empty) ∨ (isBlank spec = false ∧ ∃ pieces, pieces ≠ [] ∧
    spec = join [','] pieces ∧ (∀ piece ∈ pieces, ',' ∉ piece) ∧
    LeftmostFault 0 pieces e)

theorem not_mem_of_blank {c : Char} {t : Text} (hc : Char.isBlank c = false)
    (h : isBlank t = true) : c ∉ t := by
  intro hmem
  rw [List.all_eq_true.mp h c hmem] at hc
  cases hc

theorem InAnyCase.no_comma {direction : Direction} {word : Text}
    (h : InAnyCase direction.word word) : ',' ∉ word := by
  have hall : (direction.word.all fun c => c != ',' && c.toLower != ',') = true := by
    cases direction <;> rfl
  have hletters : ∀ c ∈ direction.word, c ≠ ',' ∧ c.toLower ≠ ',' := by
    intro c hc
    simpa using List.all_eq_true.mp hall c hc
  intro hd
  obtain ⟨c, hc, hcase⟩ := exists_of_mem_of_forall₂ h hd
  rcases hcase with rfl | heq
  · exact (hletters _ hc).1 rfl
  · exact (hletters c hc).2 heq.symm

theorem PrintsDirection.no_comma {direction : Direction} {text : Text}
    (h : PrintsDirection direction text) : ',' ∉ text := by
  cases h with
  | none => exact List.not_mem_nil
  | word hgap _ hword =>
    have hblank := not_mem_of_blank (c := ',') (by decide) hgap
    simp [hblank, hword.no_comma]

theorem PrintsEntry.no_comma {property : OrderedProperty} {entry : Text}
    (h : PrintsEntry property entry) : ',' ∉ entry := by
  obtain ⟨hbefore, hname, hdirection, hbehind⟩ := h
  have hblank : ∀ {t : Text}, isBlank t = true → ',' ∉ t := not_mem_of_blank (by decide)
  simp [hblank hbefore, hname.no_comma, hdirection.no_comma, hblank hbehind]

theorem PrintsEntry.not_isBlank {property : OrderedProperty} {entry : Text}
    (h : PrintsEntry property entry) : isBlank entry = false := by
  obtain ⟨_, hname, _, _⟩ := h
  simp [hname.isWord.not_isBlank]

theorem Prints.not_isBlank {properties : List OrderedProperty} {spec : Text}
    (h : Prints properties spec) : isBlank spec = false := by
  obtain ⟨entries, hne, rfl, hprints⟩ := h
  obtain ⟨entry, hentry⟩ := List.exists_mem_of_ne_nil entries hne
  obtain ⟨property, -, hread⟩ := exists_of_mem_of_forall₂ hprints hentry
  rw [← Bool.not_eq_true]
  intro hblank
  have hall : isBlank entry = true :=
    List.all_eq_true.mpr fun c hc =>
      List.all_eq_true.mp hblank c (subset_join hentry hc)
  rw [hread.not_isBlank] at hall
  cases hall

/-- Properties have printings if their names can be listed. -/
theorem exists_prints {properties : List OrderedProperty} (hne : properties ≠ [])
    (hnames : ∀ property ∈ properties, IsListName property.name) :
    ∃ spec, Prints properties spec := by
  have hentries : ∃ entries, List.Forall₂ PrintsEntry properties entries := by
    clear hne
    induction properties with
    | nil => exact ⟨[], .nil⟩
    | cons property rest ih =>
      obtain ⟨hname, hrest⟩ := List.forall_mem_cons.mp hnames
      obtain ⟨entries, hentries⟩ := ih hrest
      have hspelled : InAnyCase property.direction.word property.direction.word :=
        List.forall₂_same.mpr fun c _ => .inl rfl
      have hprinted : PrintsDirection property.direction
          ([' '] ++ property.direction.word) :=
        .word (by decide) (List.cons_ne_nil _ _) hspelled
      have hentry : PrintsEntry property
          ([] ++ (property.name ++ ([' '] ++ property.direction.word ++ []))) :=
        .mk rfl hname hprinted rfl
      exact ⟨_ :: entries, .cons hentry hentries⟩
  obtain ⟨entries, hentries⟩ := hentries
  have hlength := hentries.length_eq
  refine ⟨join [','] entries, entries, ?_, rfl, hentries⟩
  rintro rfl
  exact hne (List.length_eq_zero_iff.mp hlength)

theorem readOrder_eq_ok_iff {spec : Text} {properties : List OrderedProperty} :
    readOrder spec = .ok properties ↔ Prints properties spec := by
  constructor
  · intro h
    rw [readOrder] at h
    split at h
    · cases h
    · have hcomma : ∀ piece ∈ splitOn ',' spec, ',' ∉ piece :=
        fun _ => not_mem_of_mem_splitOn
      exact ⟨splitOn ',' spec, splitOn_ne_nil ',' spec, (join_splitOn ',' spec).symm,
        (readEntries_eq_ok_iff hcomma).mp h⟩
  · intro h
    rw [readOrder, h.not_isBlank]
    obtain ⟨entries, hne, rfl, hprints⟩ := h
    have hcomma : ∀ entry ∈ entries, ',' ∉ entry := by
      intro entry hentry
      obtain ⟨property, -, hread⟩ := exists_of_mem_of_forall₂ hprints hentry
      exact hread.no_comma
    rw [splitOn_join hcomma hne]
    exact (readEntries_eq_ok_iff hcomma).mpr hprints

theorem readOrder_eq_error_iff {spec : Text} {e : OrderError} :
    readOrder spec = .error e ↔ FaultOf spec e := by
  rw [readOrder, FaultOf]
  cases hblank : isBlank spec with
  | true => simp [eq_comm]
  | false =>
    have hpieces : (∃ pieces, pieces ≠ [] ∧ spec = join [','] pieces ∧
        (∀ piece ∈ pieces, ',' ∉ piece) ∧ LeftmostFault 0 pieces e) ↔
          LeftmostFault 0 (splitOn ',' spec) e := by
      constructor
      · rintro ⟨pieces, hne, hjoin, hcomma, hfault⟩
        rwa [splitOn_eq_iff.mpr ⟨hne, hjoin, hcomma⟩]
      · intro hfault
        obtain ⟨hne, hjoin, hcomma⟩ :=
          splitOn_eq_iff.mp (rfl : splitOn ',' spec = splitOn ',' spec)
        exact ⟨_, hne, hjoin, hcomma, hfault⟩
    rw [hpieces, ← readEntries_eq_error_iff fun _ => not_mem_of_mem_splitOn]
    simp

/-- **Ordered property lists are read by their grammar**: as the properties that
a text lists, or else with the error for what is wrong with it. So every list of
properties with names that can be listed has printings, and every printing of it
is read as the list. -/
theorem readOrder_follows_grammar :
    (∀ spec properties, readOrder spec = .ok properties ↔ Prints properties spec) ∧
      (∀ spec e, readOrder spec = .error e ↔ FaultOf spec e) ∧
      ∀ properties : List OrderedProperty, properties ≠ [] →
        (∀ property ∈ properties, IsListName property.name) →
          (∃ spec, Prints properties spec) ∧
            ∀ spec, Prints properties spec → readOrder spec = .ok properties := by
  refine ⟨fun spec properties => readOrder_eq_ok_iff,
    fun spec e => readOrder_eq_error_iff, ?_⟩
  intro properties hne hnames
  exact ⟨exists_prints hne hnames, fun spec => readOrder_eq_ok_iff.mpr⟩

/-- Two properties, one of them with the word for a direction as its name. -/
def sampleOrder : List OrderedProperty := [⟨"desc", .descending⟩, ⟨"age", .ascending⟩]

theorem sampleOrder_names : ∀ property ∈ sampleOrder, IsListName property.name := by
  have hword : ∀ w : Text, w ≠ [] → (w.all fun c => !Char.isBlank c) = true → ',' ∉ w →
      IsListName w := by
    intro w hne hsolid hcomma
    refine ⟨⟨hne, fun c hc => ?_⟩, hcomma⟩
    simpa using List.all_eq_true.mp hsolid c hc
  intro property hmem
  rcases List.mem_pair.mp hmem with rfl | rfl <;> apply hword <;> decide

theorem sampleOrder_prints : Prints sampleOrder " desc\tdeSC , age" := by
  have hnames := sampleOrder_names
  refine ⟨[" desc\tdeSC ".toList, " age".toList], List.cons_ne_nil _ _, by decide, ?_⟩
  refine .cons ?_ (.cons ?_ .nil)
  · have hword : InAnyCase Direction.descending.word "deSC" := by
      unfold InAnyCase
      decide
    have hprinted : PrintsDirection .descending (['\t'] ++ "deSC".toList) :=
      .word (by decide) (List.cons_ne_nil _ _) hword
    show PrintsEntry _ ([' '] ++ ("desc".toList ++ (['\t'] ++ "deSC".toList ++ [' '])))
    exact .mk (by decide) (hnames _ List.mem_cons_self) hprinted (by decide)
  · show PrintsEntry _ ([' '] ++ ("age".toList ++ ([] ++ [])))
    exact .mk (by decide)
      (hnames _ (List.mem_cons_of_mem _ List.mem_cons_self)) .none rfl

theorem readOrder_follows_grammar_sample :
    sampleOrder ≠ [] ∧ (∀ property ∈ sampleOrder, IsListName property.name) ∧
      Prints sampleOrder " desc\tdeSC , age" ∧
      readOrder " desc\tdeSC , age" = .ok sampleOrder := by
  have hne : sampleOrder ≠ [] := List.cons_ne_nil _ _
  have hread := (readOrder_follows_grammar.2.2 sampleOrder hne sampleOrder_names).2
  exact ⟨hne, sampleOrder_names, sampleOrder_prints, hread _ sampleOrder_prints⟩

end Graft.Entity
