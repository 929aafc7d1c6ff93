import Graft.Proofs.Merge.TypeTexts
import Graft.Proofs.Text.Slice

/-!
# Which texts of types match

`typesMatch_iff_simple` holds the comparison of type texts against the types
that they spell: it goes by the simple types, unless a package has uncommon
characters or stands in the bound of a wildcard. `bound_loses_word` says what
happens in such a bound.
-/

namespace Graft.Merge

/-! ## Simple types can be told from their words -/

/-- What can follow a type argument. -/
def EndsArgument (rest : Text) : Prop := ∀ c ∈ rest.head?, c = ',' ∨ c = '>'

theorem endsArgument_further (as : List WrittenArgument) (rest : Text) :
    EndsArgument ((furtherWords as).flatten ++ rest) := by
  intro c hc
  cases as with
  | nil =>
    obtain rfl : '>' = c := by simpa [furtherWords] using hc
    exact .inr rfl
  | cons a as =>
    obtain rfl : ',' = c := by simpa [furtherWords] using hc
    exact .inl rfl

/-- Array levels are counted by their brackets. -/
theorem levels_inj {m n : Nat} {rest rest' : Text} (hrest : rest.head? ≠ some '[')
    (hrest' : rest'.head? ≠ some '[')
    (heq : (levelWords m).flatten ++ rest = (levelWords n).flatten ++ rest') :
    m = n ∧ rest = rest' := by
  unfold levelWords at heq
  induction m generalizing n with
  | zero =>
    cases n with
    | zero => exact ⟨rfl, heq⟩
    | succ n => exact absurd (by rw [show rest = _ from heq]; rfl) hrest
  | succ m ih =>
    cases n with
    | zero => exact absurd (by rw [show rest' = _ from heq.symm]; rfl) hrest'
    | succ n =>
      rw [List.replicate_succ, List.replicate_succ] at heq
      have hbrackets : ['[', ']'] ++ _ = ['[', ']'] ++ _ := heq
      obtain ⟨rfl, hrests⟩ := ih (List.append_cancel_left hbrackets)
      exact ⟨rfl, hrests⟩

theorem not_isNameChar {c : Char} (h : c ∈ typeSigns) : isNameChar c = false := by
  simp [isNameChar, h]

/-- A name ends in front of a sign. -/
theorem name_inj {m n : SimpleName} {rest rest' : Text}
    (hrest : ∀ c ∈ rest.head?, c ∈ typeSigns)
    (hrest' : ∀ c ∈ rest'.head?, c ∈ typeSigns)
    (heq : m.text ++ rest = n.text ++ rest') :
    m = n ∧ rest = rest' := by
  obtain ⟨htext, hrests⟩ := (Text.front_inj m.proper n.proper
    (fun c hc => not_isNameChar (hrest c hc))
      (fun c hc => not_isNameChar (hrest' c hc))).mp heq
  exact ⟨SimpleName.ext htext, hrests⟩

/-- What is left of a type without packages: its name, its type arguments and
its array levels. -/
theorem words_simple (qualifier : List SimpleName) (name : SimpleName)
    (arguments : List WrittenArgument) (levels : Nat) (rest : Text) :
    (WrittenType.mk qualifier name arguments levels).simple.words.flatten ++ rest =
      name.text ++ ((argumentsWords (simpleArguments arguments)).flatten ++
        ((levelWords levels).flatten ++ rest)) := by
  simp [WrittenType.simple, WrittenType.words, qualifierWords]

/-- A type is no wildcard. -/
theorem simple_ne_wildcard (t : WrittenType) (rest more : Text) :
    t.simple.words.flatten ++ rest ≠ '?' :: more := by
  cases t with
  | mk qualifier name arguments levels =>
    obtain ⟨c, text, hname, -⟩ := name.exists_head
    rw [words_simple, hname]
    intro heq
    obtain rfl : c = '?' := (List.cons.inj heq).1
    exact (SimpleName.solid_of_mem (n := name) (c := '?') (by simp [hname])).2
      (by decide)

/-- A bound does not end the argument. -/
theorem bound_ne_end {rest : Text} (hrest : EndsArgument rest) (bound : Bound)
    (more : Text) :
    bound.word ++ more ≠ rest := by
  rintro rfl
  cases bound with
  | upper => exact absurd (hrest 'e' rfl) (by decide)
  | lower => exact absurd (hrest 's' rfl) (by decide)

theorem bound_inj {b b' : Bound} {rest rest' : Text}
    (heq : b.word ++ rest = b'.word ++ rest') :
    b = b' ∧ rest = rest' := by
  have hletter : ∀ {more more' : Text},
      Bound.upper.word ++ more ≠ Bound.lower.word ++ more' :=
    fun h => absurd (List.cons.inj h).1 (by decide)
  cases b <;> cases b'
  · exact ⟨rfl, List.append_cancel_left heq⟩
  · exact absurd heq hletter
  · exact absurd heq.symm hletter
  · exact ⟨rfl, List.append_cancel_left heq⟩

/-- Signs stand behind the name of a type. -/
theorem sign_levels {rest : Text} (hrest : EndsArgument rest) (n : Nat) :
    ∀ c ∈ ((levelWords n).flatten ++ rest).head?, c ∈ typeSigns ∧ c ≠ '<' := by
  intro c hc
  cases n with
  | zero => rcases hrest c hc with rfl | rfl <;> decide
  | succ n =>
    obtain rfl : '[' = c := by simpa [levelWords, List.replicate_succ] using hc
    decide

theorem sign_arguments {rest : Text} (hrest : ∀ c ∈ rest.head?, c ∈ typeSigns)
    (as : List WrittenArgument) :
    ∀ c ∈ ((argumentsWords as).flatten ++ rest).head?, c ∈ typeSigns := by
  intro c hc
  cases as with
  | nil => exact hrest c hc
  | cons a as =>
    obtain rfl : '<' = c := by simpa [argumentsWords] using hc
    decide

/-- Behind the first sign, type arguments have the words of further ones. -/
theorem further_of_arguments {as bs : List WrittenArgument} {rest rest' : Text}
    (hrest : rest.head? ≠ some '<') (hrest' : rest'.head? ≠ some '<')
    (heq : (argumentsWords as).flatten ++ rest = (argumentsWords bs).flatten ++ rest') :
    (furtherWords as).flatten ++ rest = (furtherWords bs).flatten ++ rest' := by
  cases as with
  | nil =>
    cases bs with
    | nil => exact congrArg (List.cons '>') heq
    | cons b bs => exact absurd (congrArg List.head? heq) hrest
  | cons a as =>
    cases bs with
    | nil => exact absurd (congrArg List.head? heq.symm) hrest'
    | cons b bs => exact congrArg (List.cons ',') (List.cons.inj heq).2

theorem words_bounded (bound : Bound) (t : WrittenType) (rest : Text) :
    (WrittenArgument.bounded bound t).simple.words.flatten ++ rest =
      '?' :: (bound.word ++ (t.simple.words.flatten ++ rest)) := by
  simp [WrittenArgument.simple, WrittenArgument.words]

theorem words_arguments (a : WrittenArgument) (as : List WrittenArgument)
    (rest : Text) :
    (argumentsWords (simpleArguments (a :: as))).flatten ++ rest =
      '<' :: (a.simple.words.flatten ++
        ((furtherWords (simpleArguments as)).flatten ++ rest)) := by
  simp [simpleArguments, argumentsWords]

theorem words_further (a : WrittenArgument) (as : List WrittenArgument) (rest : Text) :
    (furtherWords (simpleArguments (a :: as))).flatten ++ rest =
      ',' :: (a.simple.words.flatten ++
        ((furtherWords (simpleArguments as)).flatten ++ rest)) := by
  simp [simpleArguments, furtherWords]

mutual

/-- A simple type can be told from its words, whatever argument or end
comes behind it. -/
theorem WrittenType.simple_inj : (t u : WrittenType) → ∀ {rest rest' : Text},
    EndsArgument rest → EndsArgument rest' →
    t.simple.words.flatten ++ rest = u.simple.words.flatten ++ rest' →
      t.simple = u.simple ∧ rest = rest'
  | .mk _ m as i, .mk _ n bs j, rest, rest', hrest, hrest', heq => by
    have hlevels := sign_levels hrest i
    have hlevels' := sign_levels hrest' j
    rw [words_simple, words_simple] at heq
    obtain ⟨rfl, hbehind⟩ := name_inj (sign_arguments (fun c hc => (hlevels c hc).1) _)
      (sign_arguments (fun c hc => (hlevels' c hc).1) _) heq
    obtain ⟨harguments, hbrackets⟩ := simpleArguments_inj as bs (further_of_arguments
      (fun h => (hlevels _ h).2 rfl) (fun h => (hlevels' _ h).2 rfl) hbehind)
    have hends : ∀ {more : Text}, EndsArgument more → more.head? ≠ some '[' :=
      fun hmore h => absurd (hmore _ h) (by decide)
    obtain ⟨rfl, hrests⟩ := levels_inj (hends hrest) (hends hrest') hbrackets
    rw [WrittenType.simple, WrittenType.simple, harguments]
    exact ⟨rfl, hrests⟩

theorem WrittenArgument.simple_inj : (a b : WrittenArgument) → ∀ {rest rest' : Text},
    EndsArgument rest → EndsArgument rest' →
    a.simple.words.flatten ++ rest = b.simple.words.flatten ++ rest' →
      a.simple = b.simple ∧ rest = rest'
  | .type t, .type u, _, _, hrest, hrest', heq => by
    obtain ⟨hsimple, hrests⟩ := t.simple_inj u hrest hrest' heq
    exact ⟨congrArg WrittenArgument.type hsimple, hrests⟩
  | .type t, .wildcard, _, _, _, _, heq => absurd heq (simple_ne_wildcard t _ _)
  | .type t, .bounded _ _, _, _, _, _, heq => absurd heq (simple_ne_wildcard t _ _)
  | .wildcard, .type u, _, _, _, _, heq => absurd heq.symm (simple_ne_wildcard u _ _)
  | .wildcard, .wildcard, _, _, _, _, heq => ⟨rfl, (List.cons.inj heq).2⟩
  | .wildcard, .bounded bound u, _, _, hrest, _, heq => by
    rw [words_bounded] at heq
    exact absurd (List.cons.inj heq).2.symm (bound_ne_end hrest bound _)
  | .bounded _ _, .type u, _, _, _, _, heq => absurd heq.symm (simple_ne_wildcard u _ _)
  | .bounded bound t, .wildcard, _, _, _, hrest', heq => by
    rw [words_bounded] at heq
    exact absurd (List.cons.inj heq).2 (bound_ne_end hrest' bound _)
  | .bounded bound t, .bounded bound' u, _, _, hrest, hrest', heq => by
    rw [words_bounded, words_bounded] at heq
    obtain ⟨rfl, htypes⟩ := bound_inj (List.cons.inj heq).2
    obtain ⟨hsimple, hrests⟩ := t.simple_inj u hrest hrest' htypes
    exact ⟨congrArg (WrittenArgument.bounded bound) hsimple, hrests⟩

theorem simpleArguments_inj : (as bs : List WrittenArgument) → ∀ {rest rest' : Text},
    (furtherWords (simpleArguments as)).flatten ++ rest =
      (furtherWords (simpleArguments bs)).flatten ++ rest' →
      simpleArguments as = simpleArguments bs ∧ rest = rest'
  | [], [], _, _, heq => ⟨rfl, (List.cons.inj heq).2⟩
  | [], _ :: _, _, _, heq => absurd (List.cons.inj heq).1 (by decide)
  | _ :: _, [], _, _, heq => absurd (List.cons.inj heq).1 (by decide)
  | a :: as, b :: bs, rest, rest', heq => by
    rw [words_further, words_further] at heq
    obtain ⟨hfirst, hbehind⟩ := a.simple_inj b (endsArgument_further _ rest)
      (endsArgument_further _ rest') (List.cons.inj heq).2
    obtain ⟨hfurther, hrests⟩ := simpleArguments_inj as bs hbehind
    rw [simpleArguments, simpleArguments, hfirst, hfurther]
    exact ⟨rfl, hrests⟩

end

/-- Simple types with the same text are the same. -/
theorem simple_eq_iff (t u : WrittenType) :
    t.simple.words.flatten = u.simple.words.flatten ↔ t.simple = u.simple := by
  constructor
  · intro heq
    have hend : EndsArgument [] := by simp [EndsArgument]
    exact (t.simple_inj u hend hend (congrArg (· ++ []) heq)).1
  · intro heq
    rw [heq]

/-! ## Plain types -/

mutual

/-- Packages have letters, numbers, underscores and dollar signs only, and no
bound of a wildcard begins with one. -/
def WrittenType.IsPlain : WrittenType → Prop
  | .mk qualifier _ arguments _ =>
    (∀ q ∈ qualifier, q.text.all inQualifiedName = true) ∧ ArgumentsArePlain arguments

/-- The same of a type argument. -/
def WrittenArgument.IsPlain : WrittenArgument → Prop
  | .type t => t.IsPlain
  | .wildcard => True
  | .bounded _ t => t.qualifier = [] ∧ t.IsPlain

/-- The same of type arguments. -/
def ArgumentsArePlain : List WrittenArgument → Prop
  | [] => True
  | a :: rest => a.IsPlain ∧ ArgumentsArePlain rest

end

theorem WrittenType.isPlain_iff (t : WrittenType) :
    t.IsPlain ↔
      (∀ q ∈ t.qualifier, q.text.all inQualifiedName = true) ∧
      ArgumentsArePlain t.arguments := by
  cases t
  exact Iff.rfl

/-! ## What is left of a qualifier -/

theorem mem_of_mem_simplifyFrom {c : Char} {word pre : Text}
    (h : c ∈ simplifyFrom pre word) :
    c ≠ '.' ∧ (c ∈ pre ∨ c ∈ word) := by
  have hlast : ∀ {name : Text}, c ∈ Text.lastSegment name → c ≠ '.' ∧ c ∈ name := by
    intro name hc
    have hfront := List.mem_reverse.mp hc
    have hdot := List.all_eq_true.mp List.all_takeWhile c hfront
    exact ⟨by simpa using hdot,
      List.mem_reverse.mp ((List.takeWhile_sublist _).mem hfront)⟩
  induction word generalizing pre with
  | nil => exact ⟨(hlast h).1, .inl (hlast h).2⟩
  | cons d word ih =>
    rw [simplifyFrom] at h
    split at h
    · obtain ⟨hdot, hc⟩ := ih h
      rw [List.mem_append, List.mem_singleton, or_assoc] at hc
      rwa [List.mem_cons, and_iff_right hdot]
    · next hd =>
      rcases List.mem_append.mp h with h | h
      · exact ⟨(hlast h).1, .inl (hlast h).2⟩
      · rcases List.mem_cons.mp h with rfl | h
        · refine ⟨?_, .inr List.mem_cons_self⟩
          rintro rfl
          exact hd (by decide)
        · obtain ⟨hdot, hc⟩ := ih h
          exact ⟨hdot, .inr (List.mem_cons_of_mem _ (hc.resolve_left (by simp)))⟩

/-- Characters that names are not expected to have stay. -/
theorem mem_simplifyFrom {c : Char} (hc : inQualifiedName c = false) {word : Text}
    (h : c ∈ word) (pre : Text) : c ∈ simplifyFrom pre word := by
  induction word generalizing pre with
  | nil => cases h
  | cons d word ih =>
    rw [simplifyFrom]
    rcases List.mem_cons.mp h with rfl | h
    · rw [if_neg (by simp [hc])]
      exact List.mem_append_right _ List.mem_cons_self
    · split
      · exact ih h _
      · exact List.mem_append_right _ (List.mem_cons_of_mem _ (ih h _))

theorem mem_qualifierWords {c : Char} {qualifier : List SimpleName} :
    c ∈ (qualifierWords qualifier).flatten ↔ ∃ q ∈ qualifier, c ∈ q.text ∨ c = '.' := by
  rw [qualifierWords, List.mem_flatten]
  constructor
  · rintro ⟨word, hword, hc⟩
    obtain ⟨q, hq, hword⟩ := List.mem_flatMap.mp hword
    refine ⟨q, hq, ?_⟩
    rcases List.mem_cons.mp hword with rfl | hword
    · exact .inl hc
    · rw [List.mem_singleton.mp hword, List.mem_singleton] at hc
      exact .inr hc
  · rintro ⟨q, hq, hc | rfl⟩
    · exact ⟨q.text, List.mem_flatMap.mpr ⟨q, hq, by simp⟩, hc⟩
    · exact ⟨['.'], List.mem_flatMap.mpr ⟨q, hq, by simp⟩, by simp⟩

theorem all_qualifierWords (qualifier : List SimpleName) :
    (qualifierWords qualifier).flatten.all inQualifiedName = true ↔
      ∀ q ∈ qualifier, q.text.all inQualifiedName = true := by
  simp only [List.all_eq_true]
  constructor
  · exact fun h q hq c hc => h c (mem_qualifierWords.mpr ⟨q, hq, .inl hc⟩)
  · intro h c hc
    obtain ⟨q, hq, hc | rfl⟩ := mem_qualifierWords.mp hc
    · exact h q hq c hc
    · decide

/-- What is left of a qualifier could stand in a name. -/
theorem cutQualifier_proper {front : Text} (h : front.all isNameChar = true)
    (qualifier : List SimpleName) :
    (cutQualifier front qualifier).all isNameChar = true := by
  rw [cutQualifier]
  split
  · exact h
  · rw [List.all_eq_true]
    intro c hc
    obtain ⟨hdot, hc⟩ := mem_of_mem_simplifyFrom hc
    rcases hc with hc | hc
    · exact List.all_eq_true.mp h c hc
    · obtain ⟨q, -, hc | rfl⟩ := mem_qualifierWords.mp hc
      · exact List.all_eq_true.mp q.proper c hc
      · exact absurd rfl hdot

/-- A plain qualifier is cut off, and the front with it. -/
theorem cutQualifier_plain {qualifier : List SimpleName} (qualified : qualifier ≠ [])
    (plain : ∀ q ∈ qualifier, q.text.all inQualifiedName = true) (front : Text) :
    cutQualifier front qualifier = [] := by
  have hread := simplifyFrom_append ((all_qualifierWords qualifier).mpr plain) front []
  obtain ⟨names, last, rfl⟩ := (List.eq_nil_or_concat qualifier).resolve_left qualified
  rw [List.append_nil] at hread
  rw [cutQualifier, if_neg qualified, hread]
  simp [qualifierWords, simplifyFrom, Text.lastSegment]

/-- Nothing but the front is left exactly if there is no qualifier, or a plain
one without a front. -/
theorem cutQualifier_eq_iff {front : Text} (hfront : front.all inQualifiedName = true)
    (qualifier : List SimpleName) : cutQualifier front qualifier = front ↔
      qualifier = [] ∨ front = [] ∧ ∀ q ∈ qualifier,
      q.text.all inQualifiedName = true := by
  by_cases hnone : qualifier = []
  · rw [cutQualifier, if_pos hnone]
    exact iff_of_true rfl (.inl hnone)
  · rw [or_iff_right hnone, ← all_qualifierWords]
    cases hall : (qualifierWords qualifier).flatten.all inQualifiedName with
    | true =>
      rw [cutQualifier_plain hnone ((all_qualifierWords qualifier).mp hall), eq_comm,
        and_iff_left rfl]
    | false =>
      -- an uncommon character stays, and the front has none
      obtain ⟨c, hc, hforeign⟩ := List.all_eq_false.mp hall
      refine iff_of_false ?_ (fun hand => Bool.false_ne_true hand.2)
      intro heq
      have hmem := mem_simplifyFrom (Bool.not_eq_true _ ▸ hforeign) hc front
      rw [cutQualifier, if_neg hnone] at heq
      rw [heq] at hmem
      exact hforeign (List.all_eq_true.mp hfront c hmem)

/-! ## Keys of plain types -/

theorem endsArgument_furtherKey (as : List WrittenArgument) (rest : Text) :
    EndsArgument (furtherKey as ++ rest) := by
  intro c hc
  cases as with
  | nil =>
    obtain rfl : '>' = c := by simpa [furtherKey] using hc
    exact .inr rfl
  | cons a as =>
    obtain rfl : ',' = c := by simpa [furtherKey] using hc
    exact .inl rfl

theorem sign_argumentsKey {rest : Text} (hrest : ∀ c ∈ rest.head?, c ∈ typeSigns)
    (as : List WrittenArgument) :
    ∀ c ∈ (argumentsKey as ++ rest).head?, c ∈ typeSigns := by
  intro c hc
  cases as with
  | nil => exact hrest c hc
  | cons a as =>
    obtain rfl : '<' = c := by simpa [argumentsKey] using hc
    decide

mutual

/-- The key of a type is the text of its simple type exactly if nothing is left
of its qualifier and its type arguments are plain. -/
theorem WrittenType.key_eq_iff : (t : WrittenType) → ∀ {front rest rest' : Text},
    front.all isNameChar = true → EndsArgument rest → EndsArgument rest' →
    (t.key front ++ rest = front ++ (t.simple.words.flatten ++ rest') ↔
      (cutQualifier front t.qualifier = front ∧ ArgumentsArePlain t.arguments) ∧
      rest = rest')
  | .mk qualifier name arguments levels, front, rest, rest', hfront, hrest, hrest' => by
    have hsigns :=
      sign_argumentsKey (fun c hc => (sign_levels hrest levels c hc).1) arguments
    have hsigns' := sign_arguments (fun c hc => (sign_levels hrest' levels c hc).1)
      (simpleArguments arguments)
    have hname : ∀ {text : Text}, text.all isNameChar = true →
        (text ++ name.text).all isNameChar = true := by
      intro text htext
      rw [List.all_append, htext, name.proper]
      rfl
    have hcut := hname (cutQualifier_proper hfront qualifier)
    -- what is left of the qualifier joins the name in one run of name
    -- characters, ended by a sign
    rw [words_simple, WrittenType.key, List.append_assoc, List.append_assoc,
      List.append_assoc, ← List.append_assoc _ name.text, ← List.append_assoc front,
      Text.front_inj hcut (hname hfront) (fun c hc => not_isNameChar (hsigns c hc))
        (fun c hc => not_isNameChar (hsigns' c hc)), List.append_left_inj,
        argumentsKey_eq_iff arguments, List.append_right_inj, and_assoc]
    rfl

theorem WrittenArgument.key_eq_iff : (a : WrittenArgument) → ∀ {rest rest' : Text},
    EndsArgument rest → EndsArgument rest' →
    (a.key ++ rest = a.simple.words.flatten ++ rest' ↔ a.IsPlain ∧ rest = rest')
  | .type t, _, _, hrest, hrest' => by
    have hkey := @WrittenType.key_eq_iff t [] _ _ rfl hrest hrest'
    have hcut := @cutQualifier_eq_iff [] rfl t.qualifier
    rw [hcut, and_iff_right rfl, or_iff_right_of_imp (by rintro h; simp [h]),
      ← t.isPlain_iff] at hkey
    exact hkey
  | .wildcard, _, _, _, _ => by
    rw [WrittenArgument.IsPlain, true_and]
    exact List.cons_inj_right _
  | .bounded bound t, _, _, hrest, hrest' => by
    have hword : bound.word.all isNameChar = true ∧
        bound.word.all inQualifiedName = true ∧
        bound.word ≠ [] := by cases bound <;> decide
    have hkey := t.key_eq_iff hword.1 hrest hrest'
    have hcut := cutQualifier_eq_iff hword.2.1 t.qualifier
    -- the word of the bound is the front of the name, and any qualifier takes
    -- it along
    rw [hcut, or_iff_left (fun h => hword.2.2 h.1)] at hkey
    rw [words_bounded, WrittenArgument.key, List.cons_append, List.cons_inj_right, hkey,
      WrittenArgument.IsPlain, t.isPlain_iff]
    exact and_congr_left fun _ => and_congr_right fun hnone => by simp [hnone]

theorem argumentsKey_eq_iff : (as : List WrittenArgument) → ∀ {rest rest' : Text},
    (argumentsKey as ++ rest = (argumentsWords (simpleArguments as)).flatten ++ rest' ↔
      ArgumentsArePlain as ∧ rest = rest')
  | [], _, _ => by
    rw [ArgumentsArePlain, true_and]
    exact Iff.rfl
  | a :: as, rest, rest' => by
    have hkey := a.key_eq_iff (endsArgument_furtherKey as rest)
      (endsArgument_further (simpleArguments as) rest')
    rw [furtherKey_eq_iff as, ← and_assoc] at hkey
    rw [words_arguments, argumentsKey, List.cons_append, List.cons_inj_right,
      List.append_assoc]
    exact hkey

theorem furtherKey_eq_iff : (as : List WrittenArgument) → ∀ {rest rest' : Text},
    (furtherKey as ++ rest = (furtherWords (simpleArguments as)).flatten ++ rest' ↔
      ArgumentsArePlain as ∧ rest = rest')
  | [], _, _ => by
    rw [ArgumentsArePlain, true_and]
    exact List.cons_inj_right _
  | a :: as, rest, rest' => by
    have hkey := a.key_eq_iff (endsArgument_furtherKey as rest)
      (endsArgument_further (simpleArguments as) rest')
    rw [furtherKey_eq_iff as, ← and_assoc] at hkey
    rw [words_further, furtherKey, List.cons_append, List.cons_inj_right,
      List.append_assoc]
    exact hkey

end

/-- **The key of a type is its simple text** exactly if the type is plain. -/
theorem key_eq_simple_iff (t : WrittenType) :
    t.key [] = t.simple.words.flatten ↔ t.IsPlain := by
  have hend : EndsArgument [] := by simp [EndsArgument]
  have hkey := (WrittenArgument.type t).key_eq_iff hend hend
  rw [List.append_nil, List.append_nil, and_iff_left rfl] at hkey
  exact hkey

/-! ## The comparison of types -/

mutual

/-- A simple type is plain, and nothing can be cut off it. -/
theorem WrittenType.isPlain_simple :
    (t : WrittenType) → t.simple.IsPlain ∧ t.simple.simple = t.simple
  | .mk _ name arguments levels => by
    obtain ⟨hplain, hsimple⟩ := isPlain_simpleArguments arguments
    rw [WrittenType.simple, WrittenType.simple, hsimple]
    exact ⟨⟨by simp, hplain⟩, rfl⟩

theorem WrittenArgument.isPlain_simple : (a : WrittenArgument) →
    a.simple.IsPlain ∧ a.simple.simple = a.simple
  | .type t => ⟨t.isPlain_simple.1, congrArg WrittenArgument.type t.isPlain_simple.2⟩
  | .wildcard => ⟨trivial, rfl⟩
  | .bounded bound t => by
    have hqualifier : t.simple.qualifier = [] := by
      cases t
      rfl
    obtain ⟨hplain, hsimple⟩ := t.isPlain_simple
    exact ⟨⟨hqualifier, hplain⟩, congrArg (WrittenArgument.bounded bound) hsimple⟩

theorem isPlain_simpleArguments : (as : List WrittenArgument) →
    ArgumentsArePlain (simpleArguments as) ∧
    simpleArguments (simpleArguments as) = simpleArguments as
  | [] => ⟨trivial, rfl⟩
  | a :: as => by
    obtain ⟨hplain, hsimple⟩ := a.isPlain_simple
    obtain ⟨hplains, hsimples⟩ := isPlain_simpleArguments as
    rw [simpleArguments, simpleArguments, hsimple, hsimples]
    exact ⟨⟨hplain, hplains⟩, rfl⟩

end

/-- A type matches its own spelling without packages exactly if it is plain. -/
theorem typesMatch_simple_iff {p r : WrittenParameter} {a c : Text}
    (spells : p.Spells a) (spellsSimple : r.Spells c)
    (simple : r.asType = p.asType.simple) :
    typesMatch a c = true ↔ p.asType.IsPlain := by
  obtain ⟨hplain, hsimple⟩ := p.asType.isPlain_simple
  rw [typesMatch_iff, typeKey_of_spells spells, typeKey_of_spells spellsSimple, simple,
    (key_eq_simple_iff p.asType.simple).mpr hplain, hsimple, key_eq_simple_iff]

/-! ## Bounds in a package -/

theorem simpleArguments_eq_map (as : List WrittenArgument) :
    simpleArguments as = as.map WrittenArgument.simple := by
  induction as with
  | nil => rfl
  | cons a as ih => rw [simpleArguments, ih, List.map_cons]

/-- Type arguments are compared one by one. -/
theorem argumentsKey_congr {x y : WrittenArgument} (h : x.key = y.key)
    (front back : List WrittenArgument) :
    argumentsKey (front ++ x :: back) = argumentsKey (front ++ y :: back) := by
  have hfurther : furtherKey (front.tail ++ x :: back) =
      furtherKey (front.tail ++ y :: back) := by
    induction front.tail with
    | nil => rw [List.nil_append, List.nil_append, furtherKey, furtherKey, h]
    | cons a middle ih =>
      rw [List.cons_append, List.cons_append, furtherKey, furtherKey, ih]
  cases front with
  | nil => rw [List.nil_append, List.nil_append, argumentsKey, argumentsKey, h]
  | cons a front =>
    rw [List.tail_cons] at hfurther
    rw [List.cons_append, List.cons_append, argumentsKey, argumentsKey, hfurther]

/-- A package is cut off with what stands in front of it. -/
theorem WrittenType.key_of_qualified (t : WrittenType) (qualified : t.qualifier ≠ [])
    (plain : ∀ q ∈ t.qualifier, q.text.all inQualifiedName = true)
    (front front' : Text) :
    t.key front = t.key front' := by
  cases t with
  | mk qualifier name arguments levels =>
    have hcut : ∀ front, cutQualifier front qualifier = [] :=
      cutQualifier_plain qualified plain
    rw [WrittenType.key, WrittenType.key, hcut, hcut]

/-- **The word of a bound gets lost** in front of a package: a type with an
upper bound matches the one with the lower bound, which is another type. -/
theorem bound_loses_word {qualifier : List SimpleName} {name : SimpleName}
    {front back : List WrittenArgument} {levels : Nat} {t : WrittenType}
    {p q : WrittenParameter} {a b : Text} (qualified : t.qualifier ≠ [])
    (plain : ∀ n ∈ t.qualifier, n.text.all inQualifiedName = true)
    (upper : p.asType =
      .mk qualifier name (front ++ .bounded .upper t :: back) levels)
    (lower : q.asType = .mk qualifier name (front ++ .bounded .lower t :: back)
      levels) (spells : p.Spells a) (spells' : q.Spells b) :
    typesMatch a b = true ∧ p.asType.simple ≠ q.asType.simple := by
  constructor
  · have hbounds : (WrittenArgument.bounded .upper t).key =
        (WrittenArgument.bounded .lower t).key :=
      congrArg (List.cons '?') (t.key_of_qualified qualified plain _ _)
    rw [typesMatch_iff, typeKey_of_spells spells, typeKey_of_spells spells', upper,
      lower, WrittenType.key, WrittenType.key, argumentsKey_congr hbounds]
  · rw [upper, lower, WrittenType.simple, WrittenType.simple, simpleArguments_eq_map,
      simpleArguments_eq_map, List.map_append, List.map_append]
    intro heq
    injection heq with _ _ harguments
    have hbounds := (List.cons.inj (List.append_cancel_left harguments)).1
    injection hbounds with hbound
    cases hbound

/-! ## The comparison as a whole -/

/-- **Types are compared without their packages.** Texts that spell plain
parameter types match if and only if the types are the same once every name is
cut down to its last part and a variable arity is read as an array level. Other
types do not even match their own spelling without packages. -/
theorem typesMatch_iff_simple {p q : WrittenParameter} {a b : Text}
    (spells : p.Spells a) (spells' : q.Spells b) :
    (p.asType.IsPlain → q.asType.IsPlain →
      (typesMatch a b = true ↔ p.asType.simple = q.asType.simple)) ∧
    ∀ (r : WrittenParameter) (c : Text), r.Spells c → r.asType = p.asType.simple →
      (typesMatch a c = true ↔ p.asType.IsPlain) := by
  constructor
  · intro plain plain'
    rw [typesMatch_iff, typeKey_of_spells spells, typeKey_of_spells spells',
      (key_eq_simple_iff _).mpr plain, (key_eq_simple_iff _).mpr plain', simple_eq_iff]
  · exact fun r c spellsSimple simple =>
      typesMatch_simple_iff spells spellsSimple simple

namespace TypeSample

/-- A list of the types within a bound. -/
def listOf (qualifier : List SimpleName) (bound : Bound) (t : WrittenType)
    (levels : Nat) :
    WrittenType :=
  .mk qualifier ⟨"List", by decide, by decide⟩ [.bounded bound t] levels

/-- A type behind a qualifier. -/
def item (qualifier : List SimpleName) : WrittenType :=
  .mk qualifier ⟨"Item", by decide, by decide⟩ [] 0

/-- A package. -/
def shop : SimpleName := ⟨"shop", by decide, by decide⟩

/-- A package with a combining accent in its name. -/
def cafe : SimpleName := ⟨"cafe\u0301", by decide, by decide⟩

/-- A list within a bound, as the type of a parameter. -/
def bounded (bound : Bound) (qualifier : List SimpleName) : WrittenParameter :=
  ⟨listOf [] bound (item qualifier) 0, false⟩

theorem spells_item (bound : Bound) :
    (bounded bound []).Spells ("List<? " ++ bound.word ++ " Item>") :=
  spells_of_pieces
    [([], "List"), ([], "<"), ([], "?"), (" ", bound.word), (" ", "Item"), ([], ">")]
      []
    rfl rfl rfl (by simp)

theorem spells_shop_item (bound : Bound) :
    (bounded bound [shop]).Spells ("List<? " ++ bound.word ++ " shop.Item>") :=
  spells_of_pieces
    [([], "List"), ([], "<"), ([], "?"), (" ", bound.word), (" ", "shop"), ([], "."),
    ([], "Item"), ([], ">")] [] rfl rfl rfl (by simp)

theorem plain_shop : shop.text.all inQualifiedName = true := by decide

/-- An accent that combines with the letter before it is neither a
letter nor a number. -/
theorem accent_is_foreign : inQualifiedName '\u0301' = false := by
  have hclass : Char.isLetterOrNumber '\u0301' = false := by
    rw [Char.isLetterOrNumber, Char.ofClass, if_neg (by decide), Char.inRanges,
      Array.any_append, ← Array.any_toList, ← Array.any_toList]
    decide +kernel
  rw [inQualifiedName, hclass]
  decide

end TypeSample

open TypeSample

/-- A parameter of variable arity with a package and blanks in its type matches
an array type without, and a list with a package in its bound does not match its
own spelling without packages. -/
theorem typesMatch_iff_simple_sample :
    typesMatch "shop .List<? extends Item>..." "List<?\textends Item> [ ]" = true ∧
    typesMatch "List<? extends shop.Item>" "List<? extends Item>" = false := by
  constructor
  · have spells : WrittenParameter.Spells ⟨listOf [shop] .upper (item []) 0, true⟩
        "shop .List<? extends Item>..." :=
      spells_of_pieces
        [([], "shop"), (" ", "."), ([], "List"), ([], "<"), ([], "?"),
          (" ", "extends"),
        (" ", "Item"), ([], ">"), ([], "...")] [] (by decide) rfl rfl (by decide)
    have spells' : WrittenParameter.Spells ⟨listOf [] .upper (item []) 1, false⟩
        "List<?\textends Item> [ ]" :=
      spells_of_pieces [([], "List"), ([], "<"), ([], "?"), ("\t", "extends"),
        (" ", "Item"), ([], ">"), (" ", "["), (" ", "]")] [] (by decide) rfl
          rfl (by decide)
    have plain : ∀ qualifier, (∀ q ∈ qualifier, q.text.all inQualifiedName = true) →
        WrittenType.IsPlain (listOf qualifier .upper (item []) 1) :=
      fun _ hqualifier => ⟨hqualifier, ⟨rfl, by simp, trivial⟩, trivial⟩
    have packaged := plain [shop] fun _ hq => List.mem_singleton.mp hq ▸ plain_shop
    exact ((typesMatch_iff_simple spells spells').1 packaged (plain [] (by simp))).mpr
      rfl
  · have hmatch :=
      (typesMatch_iff_simple (spells_shop_item .upper) (spells_item .upper)).2 _ _
        (spells_item .upper) rfl
    rw [← Bool.not_eq_true]
    exact fun h => absurd (hmatch.mp h).2.1.1 (by simp [item, WrittenType.qualifier])

/-- **A bound in a package is cut off with the package.** A list does not
match its spelling without the package of its bound, and it does match the
list with the other bound. And a package with a combining accent in its name
is not cut off. -/
theorem packaged_bound_is_cut_off :
    ((bounded .upper [shop]).Spells "List<? extends shop.Item>" ∧
      (bounded .upper []).Spells "List<? extends Item>" ∧
      (bounded .upper [shop]).asType.simple = (bounded .upper []).asType.simple ∧
      typesMatch "List<? extends shop.Item>" "List<? extends Item>" = false) ∧
    ((bounded .lower [shop]).Spells "List<? super shop.Item>" ∧
      (bounded .upper [shop]).asType.simple ≠ (bounded .lower [shop]).asType.simple ∧
      typesMatch "List<? extends shop.Item>" "List<? super shop.Item>" = true) ∧
    (WrittenParameter.Spells ⟨item [cafe], false⟩ "cafe\u0301.Item" ∧
      WrittenParameter.Spells ⟨item [], false⟩ "Item" ∧ (item [cafe]).simple = item [] ∧
      typesMatch "cafe\u0301.Item" "Item" = false) := by
  have spellsCafe : WrittenParameter.Spells ⟨item [cafe], false⟩ "cafe\u0301.Item" :=
    spells_of_pieces [([], "cafe\u0301"), ([], "."), ([], "Item")] [] (by decide) rfl
      rfl (by decide)
  have spellsItem : WrittenParameter.Spells ⟨item [], false⟩ "Item" :=
    spells_of_pieces [([], "Item")] [] (by decide) rfl rfl (by decide)
  have plainShop : ∀ q ∈ (item [shop]).qualifier, q.text.all inQualifiedName = true :=
    fun _ hq => List.mem_singleton.mp hq ▸ plain_shop
  have hbounded : ∀ bound,
      (bounded bound [shop]).asType = .mk [] ⟨"List", by decide, by decide⟩
      ([] ++ .bounded bound (item [shop]) :: []) 0 := fun _ => rfl
  have lost := bound_loses_word (by simp [item, WrittenType.qualifier]) plainShop
    (hbounded .upper)
    (hbounded .lower) (spells_shop_item .upper) (spells_shop_item .lower)
  refine ⟨⟨spells_shop_item .upper, spells_item .upper, rfl, by decide +kernel⟩,
    ⟨spells_shop_item .lower, lost.2, lost.1⟩, spellsCafe, spellsItem, rfl, ?_⟩
  rw [← Bool.not_eq_true, typesMatch_simple_iff spellsCafe spellsItem rfl]
  intro hplain
  have haccent := List.all_eq_true.mp (hplain.1 cafe (by simp)) '\u0301' (by decide)
  rw [accent_is_foreign] at haccent
  cases haccent

end Graft.Merge
