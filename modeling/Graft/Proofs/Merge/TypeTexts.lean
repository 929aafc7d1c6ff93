import Graft.Proofs.Merge.Signature
import Graft.Proofs.Text.Trim

/-!
# Types and the texts that spell them

A parameter type can be written in many ways: with or without packages in
front of its names, with blanks between its words, as an array or with a
variable arity. `WrittenType` is a type with its packages, `Spells` says which
texts spell it, and `WrittenType.simple` is what is left of it without
packages. `typeKey_of_spells` says what the comparison of types makes of every
text that spells a type.
-/

namespace Graft.Merge

/-! ## Types as they are written -/

/-- The signs that type texts are made of beside names. -/
def typeSigns : Text := ['.', '<', '>', ',', '[', ']', '?']

/-- Whether a character can stand in a name: any can that is neither
blank nor a sign. -/
def isNameChar (c : Char) : Bool := !Char.isBlank c && decide (c ∉ typeSigns)

/-- A simple name. -/
@[ext]
structure SimpleName where
  text : Text
  nonempty : text ≠ []
  proper : text.all isNameChar = true

/-- The two ways to bound a wildcard. -/
inductive Bound where
  | upper
  | lower
  deriving DecidableEq, Repr

/-- The word of a bound. -/
def Bound.word : Bound → Text
  | .upper => "extends"
  | .lower => "super"

mutual

/-- A type: a name, perhaps behind a qualifier, with type arguments and a number
of array levels. -/
inductive WrittenType where
  | mk (qualifier : List SimpleName) (name : SimpleName)
      (arguments : List WrittenArgument) (levels : Nat)

/-- A type argument: a type, or a wildcard that may be bounded. -/
inductive WrittenArgument where
  | type (t : WrittenType)
  | wildcard
  | bounded (bound : Bound) (t : WrittenType)

end

/-- The names in front of the first name of a type. -/
def WrittenType.qualifier : WrittenType → List SimpleName
  | .mk qualifier _ _ _ => qualifier

/-- The type arguments behind the name of a type. -/
def WrittenType.arguments : WrittenType → List WrittenArgument
  | .mk _ _ arguments _ => arguments

/-- The type of the arrays of a type. -/
def WrittenType.inArray : WrittenType → WrittenType
  | .mk qualifier name arguments levels => .mk qualifier name arguments (levels + 1)

/-- The type of a parameter, which may be one of variable arity. -/
structure WrittenParameter where
  type : WrittenType
  isVariable : Bool

/-- A parameter of variable arity stands for an array. -/
def WrittenParameter.asType (p : WrittenParameter) : WrittenType :=
  if p.isVariable then p.type.inArray else p.type

/-! ## Words -/

/-- The words of a qualifier: each name in it with a dot. -/
def qualifierWords (qualifier : List SimpleName) : List Text :=
  qualifier.flatMap fun q => [q.text, ['.']]

/-- The words of array levels. -/
def levelWords (levels : Nat) : List Text :=
  (List.replicate levels [['['], [']']]).flatten

mutual

/-- The words of a type. -/
def WrittenType.words : WrittenType → List Text
  | .mk qualifier name arguments levels =>
    qualifierWords qualifier ++ name.text ::
      (argumentsWords arguments ++ levelWords levels)

/-- The words of a type argument. -/
def WrittenArgument.words : WrittenArgument → List Text
  | .type t => t.words
  | .wildcard => [['?']]
  | .bounded bound t => ['?'] :: bound.word :: t.words

/-- The words of type arguments with the brackets around them. -/
def argumentsWords : List WrittenArgument → List Text
  | [] => []
  | a :: rest => ['<'] :: (a.words ++ furtherWords rest)

/-- The words of the type arguments behind the first one. -/
def furtherWords : List WrittenArgument → List Text
  | [] => [['>']]
  | a :: rest => [','] :: (a.words ++ furtherWords rest)

end

/-- The words of a parameter type. -/
def WrittenParameter.words (p : WrittenParameter) : List Text :=
  p.type.words ++ if p.isVariable then [['.', '.', '.']] else []

/-- A text consists of words with any blanks around them. -/
inductive Spaced : List Text → Text → Prop
  | nil {blanks : Text} (blank : Text.isBlank blanks = true) : Spaced [] blanks
  | cons {blanks word rest : Text} {words : List Text}
      (blank : Text.isBlank blanks = true) (more : Spaced words rest) :
      Spaced (word :: words) (blanks ++ word ++ rest)

/-- A text spells a parameter type. -/
def WrittenParameter.Spells (p : WrittenParameter) (t : Text) : Prop := Spaced p.words t

/-- A text put together from blanks and words spells what has these words. -/
theorem spells_of_pieces {p : WrittenParameter} {t : Text}
    (pieces : List (Text × Text)) (last : Text)
    (blank : (pieces.all fun piece => Text.isBlank piece.1) = true)
    (blankLast : Text.isBlank last = true) (hwords : p.words = pieces.map Prod.snd)
    (htext : t = (pieces.flatMap fun piece => piece.1 ++ piece.2) ++ last) :
    p.Spells t := by
  rw [WrittenParameter.Spells, hwords, htext]
  clear hwords htext
  induction pieces with
  | nil => exact .nil blankLast
  | cons piece pieces ih =>
    rw [List.all_cons, Bool.and_eq_true] at blank
    rw [List.map_cons, List.flatMap_cons, List.append_assoc]
    exact .cons blank.1 (ih blank.2)

/-! ## Types without packages -/

mutual

/-- A type with every name cut down to its last part. -/
def WrittenType.simple : WrittenType → WrittenType
  | .mk _ name arguments levels => .mk [] name (simpleArguments arguments) levels

/-- A type argument with every name cut down to its last part. -/
def WrittenArgument.simple : WrittenArgument → WrittenArgument
  | .type t => .type t.simple
  | .wildcard => .wildcard
  | .bounded bound t => .bounded bound t.simple

/-- Type arguments with every name cut down to its last part. -/
def simpleArguments : List WrittenArgument → List WrittenArgument
  | [] => []
  | a :: rest => a.simple :: simpleArguments rest

end

/-! ## What is compared -/

/-- What is left of a qualifier and of the name characters that are read
in front of it. -/
def cutQualifier (front : Text) (qualifier : List SimpleName) : Text :=
  if qualifier = [] then front
  else simplifyFrom front (qualifierWords qualifier).flatten

mutual

/-- The text by which a type is compared when some name characters are read
in front of it. -/
def WrittenType.key (front : Text) : WrittenType → Text
  | .mk qualifier name arguments levels =>
    cutQualifier front qualifier ++
      (name.text ++ (argumentsKey arguments ++ (levelWords levels).flatten))

/-- The text by which a type argument is compared. The word of a bound is read
as the front of a name. -/
def WrittenArgument.key : WrittenArgument → Text
  | .type t => t.key []
  | .wildcard => ['?']
  | .bounded bound t => '?' :: t.key bound.word

/-- The text by which type arguments are compared. -/
def argumentsKey : List WrittenArgument → Text
  | [] => []
  | a :: rest => '<' :: (a.key ++ furtherKey rest)

/-- The text by which the type arguments behind the first one are compared. -/
def furtherKey : List WrittenArgument → Text
  | [] => ['>']
  | a :: rest => ',' :: (a.key ++ furtherKey rest)

end

/-! ## Blanks and variable arity -/

/-- A name has neither blanks nor signs. -/
theorem SimpleName.solid_of_mem {n : SimpleName} {c : Char} (h : c ∈ n.text) :
    Char.isBlank c = false ∧ c ∉ typeSigns := by
  have hc := List.all_eq_true.mp n.proper c h
  rw [isNameChar, Bool.and_eq_true, Bool.not_eq_true', decide_eq_true_iff] at hc
  exact hc

theorem SimpleName.no_dot (n : SimpleName) : '.' ∉ n.text :=
  fun h => (solid_of_mem h).2 (by decide)

theorem SimpleName.exists_head (n : SimpleName) :
    ∃ c rest, n.text = c :: rest ∧ c ≠ '.' := by
  obtain ⟨c, rest, heq⟩ := List.exists_cons_of_ne_nil n.nonempty
  refine ⟨c, rest, heq, ?_⟩
  rintro rfl
  exact n.no_dot (heq ▸ List.mem_cons_self)

theorem arrayDots_append {word : Text} (h : '.' ∉ word) (rest : Text) :
    arrayDots (word ++ rest) = word ++ arrayDots rest := by
  induction word with
  | nil => rfl
  | cons c word ih =>
    rw [List.mem_cons, not_or] at h
    rw [List.cons_append, arrayDots.eq_2, ih h.2, List.cons_append]
    exact fun _ hc _ => h.1 hc.symm

/-- A single dot is no sign of variable arity. -/
theorem arrayDots_dot {c : Char} (hc : c ≠ '.') (rest : Text) :
    arrayDots ('.' :: c :: rest) = '.' :: arrayDots (c :: rest) := by
  rw [arrayDots.eq_2]
  intro _ _ heq
  exact hc (List.cons.inj heq).1

/-- Words that hold no blank and no sign of variable arity. -/
structure ArePlainWords (words : List Text) : Prop where
  solid : ∀ w ∈ words, Text.compact w = w
  noArity : ∀ rest, arrayDots (words.flatten ++ rest) = words.flatten ++ arrayDots rest

namespace ArePlainWords

theorem nil : ArePlainWords [] := ⟨by simp, fun _ => rfl⟩

theorem append {ws vs : List Text} (hws : ArePlainWords ws) (hvs : ArePlainWords vs) :
    ArePlainWords (ws ++ vs) where
  solid w hw := (List.mem_append.mp hw).elim (hws.solid w) (hvs.solid w)
  noArity rest := by
    rw [List.flatten_append, List.append_assoc, hws.noArity, hvs.noArity,
      List.append_assoc]

theorem cons {w : Text} {ws : List Text} (hsolid : Text.compact w = w) (hdot : '.' ∉ w)
    (hws : ArePlainWords ws) : ArePlainWords (w :: ws) where
  solid v hv := by
    rcases List.mem_cons.mp hv with rfl | hv
    · exact hsolid
    · exact hws.solid v hv
  noArity rest := by
    rw [List.flatten_cons, List.append_assoc, arrayDots_append hdot, hws.noArity,
      List.append_assoc]

theorem name (n : SimpleName) : ArePlainWords [n.text] := by
  refine cons ?_ n.no_dot nil
  rw [Text.compact, List.filter_eq_self]
  intro c hc
  rw [(SimpleName.solid_of_mem hc).1]
  rfl

/-- The words of a name with its qualifier: every dot in it
stands before a name. -/
theorem qualified (qualifier : List SimpleName) (n : SimpleName) :
    ArePlainWords (qualifierWords qualifier ++ [n.text]) ∧
      ∃ c rest, (qualifierWords qualifier ++ [n.text]).flatten = c :: rest ∧
        c ≠ '.' := by
  -- a dot is followed by the head of a name, so it is no dot of an array
  induction qualifier with
  | nil =>
    obtain ⟨c, rest, heq, hc⟩ := n.exists_head
    exact ⟨name n, c, rest, by simpa [qualifierWords] using heq, hc⟩
  | cons q qualifier ih =>
    obtain ⟨hplain, c, rest, heq, hc⟩ := ih
    obtain ⟨d, more, hq, hd⟩ := q.exists_head
    have hwords : qualifierWords (q :: qualifier) ++ [n.text] =
        [q.text] ++ (['.'] :: (qualifierWords qualifier ++ [n.text])) := rfl
    rw [hwords]
    refine ⟨(name q).append ⟨?_, fun tail => ?_⟩, d,
      more ++ (['.'] :: (qualifierWords qualifier ++ [n.text])).flatten, ?_, hd⟩
    · intro w hw
      rcases List.mem_cons.mp hw with rfl | hw
      · decide
      · exact hplain.solid w hw
    · have hrest := hplain.noArity tail
      rw [List.flatten_cons, heq] at *
      show arrayDots ('.' :: c :: (rest ++ tail)) = _
      rw [arrayDots_dot hc]
      exact congrArg (List.cons '.') hrest
    · rw [List.flatten_append, List.flatten_singleton, hq]
      rfl

theorem levels (n : Nat) : ArePlainWords (levelWords n) := by
  rw [levelWords]
  induction n with
  | zero => exact nil
  | succ n ih =>
    rw [List.replicate_succ, List.flatten_cons]
    exact append (cons (by decide) (by decide) (cons (by decide) (by decide) nil)) ih

end ArePlainWords

mutual

theorem WrittenType.arePlainWords : (t : WrittenType) → ArePlainWords t.words
  | .mk qualifier name arguments levels => by
    have hwords : (WrittenType.mk qualifier name arguments levels).words =
        (qualifierWords qualifier ++ [name.text]) ++
          (argumentsWords arguments ++ levelWords levels) := by simp [WrittenType.words]
    rw [hwords]
    exact (ArePlainWords.qualified qualifier name).1.append
      ((arePlainWords_arguments arguments).append (.levels levels))

theorem WrittenArgument.arePlainWords : (a : WrittenArgument) → ArePlainWords a.words
  | .type t => t.arePlainWords
  | .wildcard => .cons (by decide) (by decide) .nil
  | .bounded bound t => by
    have hword : Text.compact bound.word = bound.word ∧ '.' ∉ bound.word := by
      cases bound <;> decide
    exact .cons (by decide) (by decide) (.cons hword.1 hword.2 t.arePlainWords)

theorem arePlainWords_arguments :
    (as : List WrittenArgument) → ArePlainWords (argumentsWords as)
  | [] => .nil
  | a :: rest =>
    .cons (by decide) (by decide)
      (a.arePlainWords.append (arePlainWords_further rest))

theorem arePlainWords_further :
    (as : List WrittenArgument) → ArePlainWords (furtherWords as)
  | [] => .cons (by decide) (by decide) .nil
  | a :: rest =>
    .cons (by decide) (by decide)
      (a.arePlainWords.append (arePlainWords_further rest))

end

/-- Without its blanks, a text is its words. -/
theorem compact_of_spaced {words : List Text} {t : Text} (h : Spaced words t)
    (solid : ∀ w ∈ words, Text.compact w = w) : Text.compact t = words.flatten := by
  induction h with
  | nil blank => exact Text.compact_of_blank blank
  | @cons blanks word rest words blank more ih =>
    have hword := solid word List.mem_cons_self
    have hrest := ih fun w hw => solid w (List.mem_cons_of_mem _ hw)
    rw [Text.compact_append, Text.compact_append,
      Text.compact_of_blank blank, hword, hrest]
    rfl

/-- Normalized, a text that spells a parameter type is the words of its type. -/
theorem normalizeType_of_spells {p : WrittenParameter} {t : Text} (h : p.Spells t) :
    normalizeType t = p.asType.words.flatten := by
  have hplain := p.type.arePlainWords
  have hsolid : ∀ w ∈ p.words, Text.compact w = w := by
    intro w hw
    rcases List.mem_append.mp hw with hw | hw
    · exact hplain.solid w hw
    · split at hw
      · rw [List.mem_singleton.mp hw]
        decide
      · cases hw
  rw [normalizeType, compact_of_spaced h hsolid, WrittenParameter.words,
    WrittenParameter.asType, List.flatten_append, hplain.noArity]
  cases p.isVariable with
  | false => simp [arrayDots]
  | true =>
    have hlevels : ∀ n, levelWords (n + 1) = levelWords n ++ [['['], [']']] := by
      intro n
      rw [levelWords, List.replicate_succ', List.flatten_append, levelWords]
      rfl
    cases p.type with
    | mk qualifier name arguments levels =>
      simp [WrittenType.inArray, WrittenType.words, hlevels, arrayDots]

/-! ## Cutting names down -/

/-- A text does not go on with the name in front of it. -/
def EndsName (rest : Text) : Prop := ∀ c ∈ rest.head?, inQualifiedName c = false

theorem endsName_cons {c : Char} (hc : inQualifiedName c = false) (rest : Text) :
    EndsName (c :: rest) := by
  intro d hd
  obtain rfl : c = d := by simpa using hd
  exact hc

theorem lastSegment_append {word : Text} (h : '.' ∉ word) (pre : Text) :
    Text.lastSegment (pre ++ word) = Text.lastSegment pre ++ word := by
  have hword : ∀ c ∈ word.reverse, (c != '.') = true := by
    intro c hc
    rw [bne_iff_ne]
    rintro rfl
    exact h (List.mem_reverse.mp hc)
  rw [Text.lastSegment, List.reverse_append, List.takeWhile_append_of_pos hword,
    List.reverse_append, List.reverse_reverse, Text.lastSegment]

theorem simplifyFrom_sign {c : Char} (hc : inQualifiedName c = false) (rest : Text) :
    simplifyFrom [] (c :: rest) = c :: simplifyFrom [] rest := by
  rw [simplifyFrom, hc]
  rfl

theorem simplifyFrom_append {word : Text} (h : word.all inQualifiedName = true)
    (pre rest : Text) :
    simplifyFrom pre (word ++ rest) = simplifyFrom (pre ++ word) rest := by
  induction word generalizing pre with
  | nil => simp
  | cons c word ih =>
    rw [List.all_cons, Bool.and_eq_true] at h
    rw [List.cons_append, simplifyFrom, if_pos h.1, ih h.2, List.append_assoc]
    rfl

/-- A name without dots is copied, whatever characters it has, and what is read
in front of it is cut down. -/
theorem simplifyFrom_name {word : Text} (h : '.' ∉ word) {rest : Text}
    (hrest : EndsName rest) (pre : Text) :
    simplifyFrom pre (word ++ rest) =
      Text.lastSegment pre ++ (word ++ simplifyFrom [] rest) := by
  induction word generalizing pre with
  | nil =>
    cases rest with
    | nil => simp [simplifyFrom, Text.lastSegment]
    | cons c rest =>
      have hc := hrest c rfl
      rw [List.nil_append, List.nil_append, simplifyFrom_sign hc, simplifyFrom, hc]
      rfl
  | cons c word ih =>
    rw [List.mem_cons, not_or] at h
    have hc : '.' ∉ [c] := by simpa using h.1
    rw [List.cons_append, simplifyFrom]
    split
    · rw [ih h.2, lastSegment_append hc, List.append_assoc]
      rfl
    · rw [ih h.2]
      rfl

/-- Whatever is read of a name before a dot, it is cut off with the dot. -/
theorem simplifyFrom_dot (pre tail rest : Text) :
    simplifyFrom (pre ++ '.' :: tail) rest = simplifyFrom tail rest := by
  have hlast : ∀ tail : Text,
      Text.lastSegment (pre ++ '.' :: tail) = Text.lastSegment tail := by
    intro tail
    have hdot : (['.'] ++ pre.reverse).takeWhile (· != '.') = [] := rfl
    rw [Text.lastSegment, Text.lastSegment, List.reverse_append, List.reverse_cons,
      List.append_assoc, List.takeWhile_append]
    split
    · next hlength =>
      rw [hdot, List.append_nil, (List.takeWhile_prefix _).eq_of_length hlength]
    · rfl
  induction rest generalizing tail with
  | nil => exact hlast tail
  | cons c rest ih =>
    rw [simplifyFrom, simplifyFrom, hlast]
    split
    · have happend := ih (tail ++ [c])
      rwa [List.append_assoc]
    · rfl

/-- Up to a dot, names are cut down on their own. -/
theorem simplifyFrom_concat_dot (word pre rest : Text) :
    simplifyFrom pre (word ++ '.' :: rest) =
      simplifyFrom pre (word ++ ['.']) ++ simplifyFrom [] rest := by
  induction word generalizing pre with
  | nil =>
    have hdot : inQualifiedName '.' = true := by decide
    rw [List.nil_append, List.nil_append, simplifyFrom, if_pos hdot, simplifyFrom,
      if_pos hdot, simplifyFrom_dot, simplifyFrom_dot]
    rfl
  | cons c word ih =>
    rw [List.cons_append, List.cons_append, simplifyFrom, simplifyFrom]
    split
    · exact ih _
    · rw [ih, List.append_assoc, List.cons_append]

theorem simplifyFrom_qualifier {front : Text} (hfront : '.' ∉ front)
    (qualifier : List SimpleName) {word : Text} (hword : '.' ∉ word) {rest : Text}
    (hrest : EndsName rest) :
    simplifyFrom front ((qualifierWords qualifier).flatten ++ (word ++ rest)) =
      cutQualifier front qualifier ++ (word ++ simplifyFrom [] rest) := by
  rcases List.eq_nil_or_concat qualifier with rfl | ⟨names, last, rfl⟩
  · have hlast := lastSegment_append hfront []
    rw [cutQualifier, if_pos rfl]
    show simplifyFrom front (word ++ rest) = _
    rw [simplifyFrom_name hword hrest]
    rw [List.nil_append] at hlast
    rw [hlast]
    rfl
  · -- the dot behind the last of them ends what is read in front of the name
    have hwords : (qualifierWords (names.concat last)).flatten =
        ((qualifierWords names).flatten ++ last.text) ++ ['.'] := by
          simp [qualifierWords]
    rw [cutQualifier, if_neg (by simp), hwords, List.append_assoc,
      List.singleton_append, simplifyFrom_concat_dot, simplifyFrom_name hword hrest]
    rfl

theorem simplifyFrom_levels (n : Nat) (rest : Text) :
    simplifyFrom [] ((levelWords n).flatten ++ rest) =
      (levelWords n).flatten ++ simplifyFrom [] rest := by
  rw [levelWords]
  induction n with
  | zero => rfl
  | succ n ih =>
    rw [List.replicate_succ, List.flatten_cons]
    show simplifyFrom [] ('[' :: ']' :: _) = '[' :: ']' :: _
    rw [simplifyFrom_sign (by decide), simplifyFrom_sign (by decide)]
    exact congrArg (fun t => '[' :: ']' :: t) ih

/-- Signs stand behind a name. -/
theorem endsName_levels {rest : Text} (hrest : EndsName rest) (n : Nat) :
    EndsName ((levelWords n).flatten ++ rest) := by
  cases n with
  | zero => exact hrest
  | succ n =>
    rw [levelWords, List.replicate_succ, List.flatten_cons]
    exact endsName_cons (by decide) _

theorem endsName_arguments {rest : Text} (hrest : EndsName rest)
    (as : List WrittenArgument) :
    EndsName ((argumentsWords as).flatten ++ rest) := by
  cases as with
  | nil => exact hrest
  | cons a as => exact endsName_cons (by decide) _

theorem endsName_further (as : List WrittenArgument) (rest : Text) :
    EndsName ((furtherWords as).flatten ++ rest) := by
  cases as <;> exact endsName_cons (by decide) _

mutual

/-- A type is cut down to its key. -/
theorem WrittenType.simplifyFrom_words : (t : WrittenType) → ∀ {front rest : Text},
    '.' ∉ front → EndsName rest →
      simplifyFrom front (t.words.flatten ++ rest) = t.key front ++ simplifyFrom [] rest
  | .mk qualifier name arguments levels, front, rest, hfront, hrest => by
    have hends := endsName_arguments (endsName_levels hrest levels) arguments
    have htext :
        (WrittenType.mk qualifier name arguments levels).words.flatten ++ rest =
        (qualifierWords qualifier).flatten ++
        (name.text ++ ((argumentsWords arguments).flatten ++
          ((levelWords levels).flatten ++ rest))) := by simp [WrittenType.words]
    rw [htext, simplifyFrom_qualifier hfront qualifier name.no_dot hends,
      simplifyFrom_argumentsWords, simplifyFrom_levels]
    simp only [WrittenType.key, List.append_assoc]

theorem WrittenArgument.simplifyFrom_words : (a : WrittenArgument) → ∀ {rest : Text},
    EndsName rest → simplifyFrom [] (a.words.flatten ++ rest) =
      a.key ++ simplifyFrom [] rest
  | .type t, rest, hrest => t.simplifyFrom_words (by simp) hrest
  | .wildcard, rest, _ => simplifyFrom_sign (by decide) rest
  | .bounded bound t, rest, hrest => by
    have hword : bound.word.all inQualifiedName = true ∧ '.' ∉ bound.word := by
      cases bound <;> decide
    show simplifyFrom [] ('?' :: (bound.word ++ t.words.flatten ++ rest)) = _
    rw [simplifyFrom_sign (by decide), List.append_assoc, simplifyFrom_append hword.1,
      List.nil_append, t.simplifyFrom_words hword.2 hrest]
    rfl

theorem simplifyFrom_argumentsWords : (as : List WrittenArgument) → ∀ {rest : Text},
    simplifyFrom [] ((argumentsWords as).flatten ++ rest) =
      argumentsKey as ++ simplifyFrom [] rest
  | [], _ => rfl
  | a :: as, rest => by
    have ha := a.simplifyFrom_words (endsName_further as rest)
    show simplifyFrom [] ('<' :: ((a.words ++ furtherWords as).flatten ++ rest)) = _
    rw [simplifyFrom_sign (by decide), List.flatten_append, List.append_assoc, ha,
      simplifyFrom_furtherWords, argumentsKey, List.cons_append, List.append_assoc]

theorem simplifyFrom_furtherWords : (as : List WrittenArgument) → ∀ {rest : Text},
    simplifyFrom [] ((furtherWords as).flatten ++ rest) =
      furtherKey as ++ simplifyFrom [] rest
  | [], rest => simplifyFrom_sign (by decide) rest
  | a :: as, rest => by
    have ha := a.simplifyFrom_words (endsName_further as rest)
    show simplifyFrom [] (',' :: ((a.words ++ furtherWords as).flatten ++ rest)) = _
    rw [simplifyFrom_sign (by decide), List.flatten_append, List.append_assoc, ha,
      simplifyFrom_furtherWords, furtherKey, List.cons_append, List.append_assoc]

end

/-- **What is compared** of every text that spells a type is the
key of the type. -/
theorem typeKey_of_spells {p : WrittenParameter} {t : Text} (h : p.Spells t) :
    typeKey t = p.asType.key [] := by
  have hread :=
    @WrittenType.simplifyFrom_words p.asType [] [] (by simp) (by simp [EndsName])
  rw [List.append_nil] at hread
  rw [typeKey, normalizeType_of_spells h, simpleType, hread]
  exact List.append_nil _

end Graft.Merge
