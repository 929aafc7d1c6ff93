import Graft.Code.Template
import Graft.Proofs.Text.Cutting
import Mathlib.Data.List.Forall2

/-!
# Filling templates

A template is read once, from the front: to the next two braces that open a
placeholder, from there to the next two that close it, and on behind them.

* `Rounds` is this search, one round for each placeholder. It ends on every
  text, with the answer that filling the text gives (`exists_rounds`,
  `Rounds.fill_eq`).
* `Parts` is a template with its placeholders told apart. `render_parts` says
  what it is filled to, and which error there is otherwise.
-/

namespace Graft.Code

/-- What opens a placeholder. -/
def opening : Text := ['\x7b', '\x7b']

/-- What closes a placeholder. -/
def closing : Text := ['\x7d', '\x7d']

section

variable {template : Text} {bindings : Bindings}

/-! ## To the next pair of braces -/

theorem fill_nil : fill template bindings none [] = .ok [] := rfl

theorem fill_opening (rest : Text) :
    fill template bindings none (opening ++ rest) =
      fill template bindings (some []) rest := rfl

theorem fill_some_nil (key : Text) :
    fill template bindings (some key) [] = .error (.unterminated template) := rfl

theorem fill_closing (key rest : Text) :
    fill template bindings (some key) (closing ++ rest) =
      match bindings.lookup (Text.trim key.reverse) with
      | none => .error (.missingBinding template (Text.trim key.reverse))
      | some v => (fill template bindings none rest).map (placeholderText v ++ ·) := rfl

theorem fill_none_cons {c : Char} {rest : Text} (h : ¬ opening <+: c :: rest) :
    fill template bindings none (c :: rest) =
      (fill template bindings none rest).map (c :: ·) := by
  rw [fill]
  rintro more rfl rfl
  exact h ⟨more, rfl⟩

theorem fill_some_cons {key : Text} {c : Char} {rest : Text}
    (h : ¬ closing <+: c :: rest) :
    fill template bindings (some key) (c :: rest) =
      fill template bindings (some (c :: key)) rest := by
  rw [fill]
  rintro more rfl rfl
  exact h ⟨more, rfl⟩

theorem map_map {ε α β γ : Type} (r : Except ε α) (f : α → β) (g : β → γ) :
    (r.map f).map g = r.map (g ∘ f) := Functor.map_map f g r

theorem not_isPrefix_of_afterHead? {pattern t : Text}
    (h : Text.afterHead? pattern t = none) :
    ¬ pattern <+: t := by
  rintro ⟨after, heq⟩
  rw [Text.afterHead?_eq_some_iff.mpr heq.symm] at h
  cases h

/-- What stands before a placeholder is kept. -/
theorem fill_before {t before behind : Text}
    (h : Text.cutAt? opening t = some (before, behind)) :
    fill template bindings none t =
      (fill template bindings (some []) behind).map (before ++ ·) := by
  induction t generalizing before with
  | nil => cases h
  | cons c rest ih =>
    rw [Text.cutAt?] at h
    cases hhead : Text.afterHead? opening (c :: rest) with
    | some after =>
      rw [hhead] at h
      obtain ⟨rfl, rfl⟩ : [] = before ∧ after = behind := by simpa using h
      rw [Text.afterHead?_eq_some_iff.mp hhead, fill_opening]
      cases fill template bindings (some []) after <;> rfl
    | none =>
      rw [hhead] at h
      obtain ⟨⟨before', behind'⟩, hcut, heq⟩ := Option.map_eq_some_iff.mp h
      obtain ⟨rfl, rfl⟩ : c :: before' = before ∧ behind' = behind := by simpa using heq
      rw [fill_none_cons (not_isPrefix_of_afterHead? hhead), ih hcut, map_map]
      rfl

/-- A text without a placeholder is kept. -/
theorem fill_last {t : Text} (h : Text.cutAt? opening t = none) :
    fill template bindings none t = .ok t := by
  rw [Text.cutAt?_eq_none_iff] at h
  induction t with
  | nil => exact fill_nil
  | cons c rest ih =>
    rw [List.infix_cons_iff, not_or] at h
    rw [fill_none_cons h.1, ih h.2]
    rfl

/-- The key of a placeholder is what stands between the braces. -/
theorem fill_key {read t key rest : Text}
    (h : Text.cutAt? closing t = some (key, rest)) :
    fill template bindings (some read) t =
      fill template bindings (some (key.reverse ++ read)) (closing ++ rest) := by
  induction t generalizing read key with
  | nil => cases h
  | cons c t ih =>
    rw [Text.cutAt?] at h
    cases hhead : Text.afterHead? closing (c :: t) with
    | some after =>
      rw [hhead] at h
      obtain ⟨rfl, rfl⟩ : [] = key ∧ after = rest := by simpa using h
      rw [Text.afterHead?_eq_some_iff.mp hhead]
      rfl
    | none =>
      rw [hhead] at h
      obtain ⟨⟨key', rest'⟩, hcut, heq⟩ := Option.map_eq_some_iff.mp h
      obtain ⟨rfl, rfl⟩ : c :: key' = key ∧ rest' = rest := by simpa using heq
      rw [fill_some_cons (not_isPrefix_of_afterHead? hhead), ih hcut]
      simp

/-- A placeholder that is not closed cannot be filled. -/
theorem fill_unclosed {read t : Text} (h : Text.cutAt? closing t = none) :
    fill template bindings (some read) t = .error (.unterminated template) := by
  rw [Text.cutAt?_eq_none_iff] at h
  induction t generalizing read with
  | nil => exact fill_some_nil read
  | cons c rest ih =>
    rw [List.infix_cons_iff, not_or] at h
    rw [fill_some_cons h.1, ih h.2]

theorem fill_bound {key : Text} {v : Value}
    (h : bindings.lookup (Text.trim key) = some v) (rest : Text) :
    fill template bindings (some key.reverse) (closing ++ rest) =
      (fill template bindings none rest).map (placeholderText v ++ ·) := by
  rw [fill_closing, List.reverse_reverse, h]

theorem fill_unbound {key : Text} (h : bindings.lookup (Text.trim key) = none)
    (rest : Text) :
    fill template bindings (some key.reverse) (closing ++ rest) =
      .error (.missingBinding template (Text.trim key)) := by
  rw [fill_closing, List.reverse_reverse, h]

/-! ## The rounds of the search -/

/-- The search for placeholders in a text: how many it fills, and the answer
that it ends with. -/
inductive Rounds (template : Text) (bindings : Bindings) :
    Nat → Text → Except TemplateError Text → Prop
  /-- No placeholder is left. -/
  | last {t : Text} (done : Text.cutAt? opening t = none) :
      Rounds template bindings 0 t (.ok t)
  /-- The next placeholder is not closed. -/
  | unterminated {t before behind : Text}
      (opens : Text.cutAt? opening t = some (before, behind))
      (unclosed : Text.cutAt? closing behind = none) :
      Rounds template bindings 0 t (.error (.unterminated template))
  /-- Nothing is bound to the name of the next placeholder. -/
  | missing {t before behind key rest : Text}
      (opens : Text.cutAt? opening t = some (before, behind))
      (closes : Text.cutAt? closing behind = some (key, rest))
      (unbound : bindings.lookup (Text.trim key) = none) :
      Rounds template bindings 0 t (.error (.missingBinding template (Text.trim key)))
  /-- The next placeholder is filled, and the search goes on behind it. -/
  | next {n : Nat} {t before behind key rest : Text} {v : Value}
      {answer : Except TemplateError Text}
      (opens : Text.cutAt? opening t = some (before, behind))
      (closes : Text.cutAt? closing behind = some (key, rest))
      (bound : bindings.lookup (Text.trim key) = some v)
      (more : Rounds template bindings n rest answer) :
      Rounds template bindings (n + 1) t (answer.map (before ++ placeholderText v ++ ·))

/-- The search ends with the answer that filling the text gives. -/
theorem Rounds.fill_eq {n : Nat} {t : Text} {answer : Except TemplateError Text}
    (h : Rounds template bindings n t answer) :
    fill template bindings none t = answer := by
  induction h with
  | last done => exact fill_last done
  | unterminated opens unclosed =>
    rw [fill_before opens, fill_unclosed unclosed]
    rfl
  | missing opens closes unbound =>
    rw [fill_before opens, fill_key closes, List.append_nil, fill_unbound unbound]
    rfl
  | next opens closes bound more ih =>
    rw [fill_before opens, fill_key closes, List.append_nil,
      fill_bound bound, map_map, ih]
    congr 1
    funext rest
    exact (List.append_assoc _ _ _).symm

/-- The search ends on every text: each round takes two pairs of
braces with it. -/
theorem exists_rounds (template : Text) (bindings : Bindings) (t : Text) :
    ∃ n answer, 4 * n ≤ t.length ∧ Rounds template bindings n t answer := by
  induction hlength : t.length using Nat.strongRecOn generalizing t with
  | ind length ih =>
    subst hlength
    cases hopen : Text.cutAt? opening t with
    | none => exact ⟨0, _, Nat.zero_le _, .last hopen⟩
    | some cut =>
      obtain ⟨before, behind⟩ := cut
      cases hclose : Text.cutAt? closing behind with
      | none => exact ⟨0, _, Nat.zero_le _, .unterminated hopen hclose⟩
      | some cut =>
        obtain ⟨key, rest⟩ := cut
        cases hbound : bindings.lookup (Text.trim key) with
        | none => exact ⟨0, _, Nat.zero_le _, .missing hopen hclose hbound⟩
        | some v =>
          have hparts : t = before ++ opening ++ (key ++ closing ++ rest) := by
            rw [← Text.eq_of_cutAt? hclose, ← Text.eq_of_cutAt? hopen]
          have hshorter : rest.length + 4 ≤ t.length := by
            rw [hparts]
            simp only [List.length_append, opening, closing, List.length_cons,
              List.length_nil]
            omega
          obtain ⟨n, answer, hn, hrounds⟩ := ih rest.length (by omega) rest rfl
          exact ⟨n + 1, _, by omega, .next hopen hclose hbound hrounds⟩

/-! ## Templates with their placeholders told apart -/

/-- A placeholder with the text that stands before it. -/
structure Hole where
  before : Text
  /-- The key as written between the braces. -/
  key : Text
  before_plain : ¬ opening <:+: before
  before_apart : before.getLast? ≠ some '\x7b'
  key_plain : '\x7d' ∉ key

namespace Hole

/-- The placeholder as written. -/
def text (h : Hole) : Text := h.before ++ opening ++ (h.key ++ closing)

/-- The name that a value is looked up by: the key without the
blanks around it. -/
def name (h : Hole) : Text := Text.trim h.key

end Hole

/-- A template: placeholders, and the text behind the last of them. -/
structure Parts where
  holes : List Hole
  last : Text
  last_plain : ¬ opening <:+: last

namespace Parts

/-- The template as written. -/
def text (p : Parts) : Text := p.holes.flatMap Hole.text ++ p.last

/-- The texts before the placeholders, each with a value behind it,
and the last text. -/
def filled (p : Parts) (values : List Value) : Text :=
  (List.zipWith (fun h v => h.before ++ placeholderText v) p.holes values).flatten ++
    p.last

end Parts

/-- Two equal characters are not complete in a text with another one of
them behind it. -/
theorem not_isInfix_concat {c : Char} {t : Text} (h : ¬ [c, c] <:+: t)
    (hlast : t.getLast? ≠ some c) : ¬ [c, c] <:+: t ++ [c] := by
  rintro ⟨front, back, heq⟩
  rcases List.eq_nil_or_concat' back with rfl | ⟨back, d, rfl⟩
  · rw [List.append_nil, List.append_cons] at heq
    have hfront := (List.append_inj' heq rfl).1
    rw [← hfront] at hlast
    simp at hlast
  · rw [← List.append_assoc] at heq
    exact h ⟨front, back, (List.append_inj' heq rfl).1⟩

theorem Hole.cutAt?_opening (h : Hole) (rest : Text) :
    Text.cutAt? opening (h.text ++ rest) =
      some (h.before, h.key ++ closing ++ rest) := by
  rw [Hole.text, List.append_assoc]
  exact Text.cutAt?_of_first (List.cons_ne_nil _ _)
    (not_isInfix_concat h.before_plain h.before_apart) _

theorem Hole.cutAt?_closing (h : Hole) (rest : Text) :
    Text.cutAt? closing (h.key ++ closing ++ rest) = some (h.key, rest) := by
  apply Text.cutAt?_of_first (List.cons_ne_nil _ _)
  apply not_isInfix_concat
  · exact fun hwithin => h.key_plain (hwithin.mem List.mem_cons_self)
  · exact fun hlast => h.key_plain (List.mem_of_getLast? hlast)

/-- Reading comes from the beginning of a placeholder to the end of its key. -/
theorem Hole.fill_text (h : Hole) (rest : Text) :
    fill template bindings none (h.text ++ rest) =
      (fill template bindings (some h.key.reverse) (closing ++ rest)).map
        (h.before ++ ·) := by
  rw [fill_before (h.cutAt?_opening rest), fill_key (h.cutAt?_closing rest),
    List.append_nil]

theorem Hole.fill_missing {h : Hole} (unbound : bindings.lookup h.name = none)
    (rest : Text) :
    fill template bindings none (h.text ++ rest) =
      .error (.missingBinding template h.name) := by
  rw [h.fill_text, fill_unbound unbound]
  rfl

/-- The values are those bound to the names of the placeholders. -/
def AreBound (bindings : Bindings) (holes : List Hole) (values : List Value) : Prop :=
  List.Forall₂ (fun h v => bindings.lookup h.name = some v) holes values

theorem exists_areBound {holes : List Hole}
    (h : ∀ hole ∈ holes, (bindings.lookup hole.name).isSome) :
    ∃ values, AreBound bindings holes values := by
  induction holes with
  | nil => exact ⟨[], .nil⟩
  | cons hole rest ih =>
    obtain ⟨hhole, hrest⟩ := List.forall_mem_cons.mp h
    obtain ⟨v, hv⟩ := Option.isSome_iff_exists.mp hhole
    obtain ⟨values, hvalues⟩ := ih hrest
    exact ⟨v :: values, .cons hv hvalues⟩

/-- Placeholders with values are filled, and reading goes on behind them. -/
theorem AreBound.fill_holes {holes : List Hole} {values : List Value}
    (h : AreBound bindings holes values) (rest : Text) :
    fill template bindings none (holes.flatMap Hole.text ++ rest) =
      (fill template bindings none rest).map
        ((List.zipWith (fun h v => h.before ++ placeholderText v) holes
          values).flatten ++ ·) := by
  induction h with
  | nil => cases hrest : fill template bindings none rest <;> simp [hrest, Except.map]
  | @cons hole v holes values bound _ ih =>
    rw [List.flatMap_cons, List.append_assoc, hole.fill_text, fill_bound bound, ih,
      map_map, map_map]
    congr 1
    funext more
    simp

/-- Braces that are not closed are found behind any text without a placeholder,
be it one that ends with a brace itself. -/
theorem fill_unterminated {last unclosed : Text} (hlast : ¬ opening <:+: last)
    (hunclosed : ¬ closing <:+: unclosed) :
    fill template bindings none (last ++ opening ++ unclosed) =
      .error (.unterminated template) := by
  have hfound : ∀ {before behind : Text}, ¬ opening <:+: before →
      before.getLast? ≠ some '\x7b' →
      ¬ closing <:+: behind →
      fill template bindings none (before ++ opening ++ behind) =
        .error (.unterminated template) := by
    intro before behind hbefore hapart hbehind
    have hcut : Text.cutAt? opening (before ++ opening ++ behind) =
        some (before, behind) :=
      Text.cutAt?_of_first (List.cons_ne_nil _ _)
        (not_isInfix_concat hbefore hapart) behind
    rw [fill_before hcut, fill_unclosed (Text.cutAt?_eq_none_iff.mpr hbehind)]
    rfl
  by_cases hbrace : last.getLast? = some '\x7b'
  -- the search finds the braces one character earlier
  · obtain ⟨front, rfl⟩ := List.getLast?_eq_some_iff.mp hbrace
    have hmoved : front ++ ['\x7b'] ++ opening ++ unclosed =
        front ++ opening ++ '\x7b' :: unclosed := by simp [opening]
    rw [hmoved]
    apply hfound
    · exact fun hwithin => hlast (hwithin.trans (List.prefix_append _ _).isInfix)
    · intro hfront
      obtain ⟨front, rfl⟩ := List.getLast?_eq_some_iff.mp hfront
      exact hlast ⟨front, [], by simp [opening]⟩
    · rw [List.infix_cons_iff, not_or]
      exact ⟨by simp [closing], hunclosed⟩
  · exact hfound hlast hbrace hunclosed

/-- **Filling a template** puts the values in the places of the placeholders and
looks at nothing twice. The first placeholder without a value is an error, and
so are braces that are not closed behind placeholders with values. On every
text, the search ends after as many rounds as it fills placeholders. -/
theorem render_parts (templates : Templates) (name : Text)
    (bindings : Bindings) (p : Parts) :
    (templates.lookup name = some p.text →
      (∀ values, AreBound bindings p.holes values →
        templates.render name bindings = .ok (p.filled values)) ∧
      ∀ front hole back, p.holes = front ++ hole :: back →
        (∀ h ∈ front, (bindings.lookup h.name).isSome) →
        bindings.lookup hole.name = none →
        templates.render name bindings = .error (.missingBinding name hole.name)) ∧
    (∀ unclosed, ¬ closing <:+: unclosed →
      templates.lookup name = some (p.text ++ opening ++ unclosed) →
      (∀ h ∈ p.holes, (bindings.lookup h.name).isSome) →
      templates.render name bindings = .error (.unterminated name)) ∧
    ∀ body, templates.lookup name = some body →
      ∃ n, 4 * n ≤ body.length ∧
        Rounds name bindings n body (templates.render name bindings) := by
  have hrender : ∀ {body}, templates.lookup name = some body →
      templates.render name bindings = fill name bindings none body := by
    intro body hbody
    rw [Templates.render, hbody]
  refine ⟨fun htext => ⟨?_, ?_⟩, ?_, ?_⟩
  · intro values hvalues
    rw [hrender htext, Parts.text, hvalues.fill_holes,
      fill_last (Text.cutAt?_eq_none_iff.mpr p.last_plain)]
    rfl
  · intro front hole back hsplit hfront hmissing
    obtain ⟨values, hvalues⟩ := exists_areBound hfront
    rw [hrender htext, Parts.text, hsplit, List.flatMap_append, List.flatMap_cons,
      List.append_assoc, hvalues.fill_holes, List.append_assoc,
      Hole.fill_missing hmissing]
    rfl
  · intro unclosed hunclosed htext hbound
    obtain ⟨values, hvalues⟩ := exists_areBound hbound
    rw [hrender htext, Parts.text, List.append_assoc, List.append_assoc,
      hvalues.fill_holes, ← List.append_assoc,
      fill_unterminated p.last_plain hunclosed]
    rfl
  -- the rounds are counted on the body itself, whatever it holds
  · intro body hbody
    obtain ⟨n, answer, hn, hrounds⟩ := exists_rounds name bindings body
    rw [hrender hbody, hrounds.fill_eq]
    exact ⟨n, hn, hrounds⟩

end

namespace TemplateSample

/-- A getter with placeholders for its type, its name and its value. -/
def getter : Parts where
  holes := [
    { before := [], key := "type".toList
      before_plain := Text.cutAt?_eq_none_iff.mp (by decide),
      before_apart := by decide, key_plain := by decide },
    { before := " get".toList, key := " Name ".toList
      before_plain := Text.cutAt?_eq_none_iff.mp (by decide),
      before_apart := by decide, key_plain := by decide },
    { before := "() \x7b return ".toList, key := "value".toList
      before_plain := Text.cutAt?_eq_none_iff.mp (by decide),
      before_apart := by decide, key_plain := by decide }]
  last := "; \x7d".toList
  last_plain := Text.cutAt?_eq_none_iff.mp (by decide)

/-- The getter, and the same with braces at the end that are not closed. -/
def templates : Templates :=
  [("getter".toList, getter.text),
    ("open".toList, getter.text ++ opening ++ "end\x7d".toList)]

/-- A text that looks like a placeholder, a name, and a value
that is not a text. -/
def values : List Value :=
  [.text "\x7b\x7bname\x7d\x7d", .text "All", .list [.integer 2, .null]]

/-- The values bound to their names. -/
def bindings : Bindings :=
  List.zip (List.map String.toList ["type", "Name", "value"]) values

end TemplateSample

open TemplateSample in
/-- In the sample, a value with braces is put in as it is. Without the value of
the name, this name is reported, whatever comes behind it. -/
theorem render_parts_sample :
    getter.text =
      "\x7b\x7btype\x7d\x7d get\x7b\x7b Name \x7d\x7d() \x7b return \x7b\x7bvalue\x7d\x7d; \x7d".toList ∧
      AreBound bindings getter.holes values ∧
      templates.render "getter" bindings =
        .ok "\x7b\x7bname\x7d\x7d getAll() \x7b return [2,null]; \x7d".toList ∧
      templates.render "getter" (bindings.take 1) =
        .error (.missingBinding "getter" "Name") ∧
      templates.render "open" bindings = .error (.unterminated "open") := by
  have htext : templates.lookup "getter".toList = some getter.text := rfl
  have hopen : templates.lookup "open".toList =
      some (getter.text ++ opening ++ "end\x7d".toList) := rfl
  have hbound : AreBound bindings getter.holes values :=
    .cons rfl (.cons rfl (.cons rfl .nil))
  have hfilled : getter.filled values =
      "\x7b\x7bname\x7d\x7d getAll() \x7b return [2,null]; \x7d".toList := by
        decide +kernel
  obtain ⟨hall, -, -⟩ := render_parts templates "getter" bindings getter
  obtain ⟨hfew, -, -⟩ := render_parts templates "getter" (bindings.take 1) getter
  obtain ⟨-, hunclosed, -⟩ := render_parts templates "open" bindings getter
  refine ⟨by decide, hbound, hfilled ▸ (hall htext).1 values hbound, ?_, ?_⟩
  · exact (hfew htext).2 (getter.holes.take 1) _ (getter.holes.drop 2) rfl
      (by decide) rfl
  · exact hunclosed "end\x7d".toList (Text.cutAt?_eq_none_iff.mp (by decide))
      hopen (by decide)

end Graft.Code
