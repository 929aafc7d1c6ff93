import Graft.Java.Scope
import Graft.Proofs.Merge.TypeTexts
import Graft.Proofs.Text.Cutting
import Graft.Proofs.Text.Trim

/-!
# Reading spelled types

How type expressions are spelled: names with dots, type arguments, wildcards,
array levels and a variable arity, with blanks wherever they may stand. Reading
has no grammar to go by. It strips ends, looks for the first `<` and the last
`>` and counts brackets between commas, and finds in every spelled type the
expression that was spelled (`SpelledParameter.read_text`).
-/

namespace Graft.Java

open Merge (SimpleName Bound isNameChar)

/-! ## Spelled types -/

/-- Blanks, perhaps none. -/
structure Blanks where
  text : Text
  blank : Text.isBlank text = true

/-- A simple name between blanks. -/
structure SpacedName where
  before : Blanks
  name : SimpleName
  after : Blanks

/-- A name of one or more parts that is not the name of a primitive type. -/
structure DottedName where
  first : SpacedName
  more : List SpacedName
  notPrimitive : more = [] → first.name.text ∉ primitiveNames

mutual

/-- A type as it is spelled. Blanks that no constructor mentions are those
around its names. -/
inductive SpelledType where
  | primitive (name : SpacedName) (isPrimitive : name.name.text ∈ primitiveNames)
  | named (name : DottedName)
  | generic (name : DottedName) (first : SpelledArgument)
      (more : List SpelledArgument) (after : Blanks)
  | array (element : SpelledType) (after : Blanks)

/-- A type argument as it is spelled. -/
inductive SpelledArgument where
  | type (t : SpelledType)
  | wildcard (before after : Blanks)
  | bounded (before : Blanks) (between : Blanks) (bound : Bound) (t : SpelledType)

end

/-- The type of a parameter as it is spelled: one of variable arity has a mark
with blanks behind. -/
structure SpelledParameter where
  type : SpelledType
  arity : Option Blanks := none

def SpacedName.text (n : SpacedName) : Text :=
  n.before.text ++ (n.name.text ++ n.after.text)

def DottedName.text (d : DottedName) : Text :=
  d.first.text ++ d.more.flatMap fun n => '.' :: n.text

mutual

/-- The text that spells a type. -/
def SpelledType.text : SpelledType → Text
  | .primitive name _ => name.text
  | .named name => name.text
  | .generic name first more after =>
    name.text ++ '<' :: (first.text ++ furtherText more ++ '>' :: after.text)
  | .array element after => element.text ++ ("[]" ++ after.text)

/-- The text that spells a type argument. -/
def SpelledArgument.text : SpelledArgument → Text
  | .type t => t.text
  | .wildcard before after => before.text ++ '?' :: after.text
  | .bounded before between bound t =>
    before.text ++ '?' :: (between.text ++ (bound.word ++ t.text))

/-- The text that spells the type arguments behind the first one. -/
def furtherText : List SpelledArgument → Text
  | [] => []
  | a :: rest => ',' :: (a.text ++ furtherText rest)

end

def SpelledParameter.text (p : SpelledParameter) : Text :=
  match p.arity with
  | none => p.type.text
  | some after => p.type.text ++ ("..." ++ after.text)

mutual

/-- The expression that a type spells. -/
def SpelledType.expr : SpelledType → TypeExpr
  | .primitive name _ => .named name.name.text [] name.name.text
  | .named name => .named (Text.trim name.text) [] (Text.trim name.text)
  | .generic name first more after =>
    .named (Text.trim name.text) (first.expr :: furtherExprs more)
      (Text.trim (SpelledType.generic name first more after).text)
  | .array element after =>
    .array element.expr (Text.trim (SpelledType.array element after).text)

/-- The expression that a type argument spells. -/
def SpelledArgument.expr : SpelledArgument → TypeExpr
  | .type t => t.expr
  | .wildcard _ _ => .wildcard "?"
  | .bounded before between bound t =>
    .bounded bound.word t.expr
      (Text.trim (SpelledArgument.bounded before between bound t).text)

/-- The expressions that type arguments spell. -/
def furtherExprs : List SpelledArgument → List TypeExpr
  | [] => []
  | a :: rest => a.expr :: furtherExprs rest

end

/-- The expression that the type of a parameter spells: a variable arity
makes an array. -/
def SpelledParameter.expr (p : SpelledParameter) : TypeExpr :=
  match p.arity with
  | none => p.type.expr
  | some _ => .array p.type.expr (Text.trim p.text)

/-! ## Ends of spelled types -/

theorem isNameChar_solid {c : Char} (h : isNameChar c = true) :
    Char.isBlank c = false := by
  rw [isNameChar, Bool.and_eq_true, Bool.not_eq_true'] at h
  exact h.1

theorem isNameChar_ne {c d : Char} (h : isNameChar c = true)
    (hd : isNameChar d = false) : c ≠ d := by
  rintro rfl
  rw [h] at hd
  cases hd

/-- A text with nothing but blanks behind its last character that is none. -/
theorem trim_of_last (c : Char) (front : Text) {back : Text}
    (hc : Char.isBlank c = false) (hback : Text.isBlank back = true) :
    Text.trim (front ++ c :: back) = Text.trimStart front ++ [c] := by
  have hnil : Text.trimEnd back = [] := by
    have := Text.trimEnd_append_of_blank hback []
    rwa [List.nil_append] at this
  rw [Text.trim, Text.trimStart_append_solid hc, Text.trimEnd_append_solid hc, hnil]

/-- A text with nothing but blanks in front of its first
character that is none. -/
theorem trim_of_first {c : Char} {front : Text} (hc : Char.isBlank c = false)
    (hfront : Text.isBlank front = true) (back : Text) :
    Text.trim (front ++ c :: back) = c :: Text.trimEnd back := by
  rw [Text.trim_append_left hfront, Text.trim, Text.trimStart_of_solid hc,
    Text.trimEnd_cons_of_solid hc]

theorem SpacedName.exists_first (n : SpacedName) :
    ∃ c rest, isNameChar c = true ∧ n.text = n.before.text ++ c :: rest := by
  obtain ⟨c, rest, heq⟩ := List.exists_cons_of_ne_nil n.name.nonempty
  have hc := List.all_eq_true.mp n.name.proper c (heq ▸ List.mem_cons_self)
  exact ⟨c, rest ++ n.after.text, hc, by rw [text, heq, List.cons_append]⟩

theorem SpacedName.exists_last (n : SpacedName) :
    ∃ c front, isNameChar c = true ∧ n.text = front ++ c :: n.after.text := by
  obtain ⟨front, c, heq⟩ :=
    List.eq_nil_or_concat n.name.text |>.resolve_left n.name.nonempty
  have hc := List.all_eq_true.mp n.name.proper c (by simp [heq])
  exact ⟨c, n.before.text ++ front, hc, by simp [text, heq]⟩

theorem SpacedName.trim_text (n : SpacedName) : Text.trim n.text = n.name.text := by
  obtain ⟨front, c, heq⟩ :=
    List.eq_nil_or_concat n.name.text |>.resolve_left n.name.nonempty
  have hc := isNameChar_solid (List.all_eq_true.mp n.name.proper c (by simp [heq]))
  obtain ⟨d, rest, heq'⟩ := List.exists_cons_of_ne_nil n.name.nonempty
  have hd :=
    isNameChar_solid (List.all_eq_true.mp n.name.proper d (heq' ▸ List.mem_cons_self))
  rw [text, Text.trim_append_left n.before.blank,
    Text.trim_append_right n.after.blank, Text.trim, heq', Text.trimStart_of_solid hd,
    ← heq', heq, List.concat_eq_append, Text.trimEnd_concat_of_solid hc]

theorem DottedName.exists_last (d : DottedName) :
    ∃ c front back, isNameChar c = true ∧ Text.isBlank back = true ∧
      d.text = front ++ c :: back := by
  rcases List.eq_nil_or_concat d.more with hmore | ⟨names, last, hmore⟩
  · obtain ⟨c, front, hc, heq⟩ := d.first.exists_last
    exact ⟨c, front, _, hc, d.first.after.blank, by simp [text, hmore, heq]⟩
  · obtain ⟨c, front, hc, heq⟩ := last.exists_last
    exact ⟨c, d.first.text ++ (names.flatMap fun n => '.' :: n.text) ++
      '.' :: front, _, hc, last.after.blank, by simp [text, hmore, heq]⟩

/-- Signs of type arguments do not stand in names. -/
theorem SpacedName.notMem_text (n : SpacedName) {c : Char}
    (hblank : Char.isBlank c = false) (hname : isNameChar c = false) :
    c ∉ n.text := by
  have hblanks (b : Blanks) : c ∉ b.text := by
    intro h
    have := List.all_eq_true.mp b.blank c h
    rw [hblank] at this
    cases this
  intro h
  rw [text, List.mem_append, List.mem_append] at h
  rcases h with h | h | h
  · exact hblanks _ h
  · exact isNameChar_ne (List.all_eq_true.mp n.name.proper c h) hname rfl
  · exact hblanks _ h

theorem DottedName.notMem_text (d : DottedName) {c : Char}
    (hblank : Char.isBlank c = false) (hname : isNameChar c = false)
    (hdot : c ≠ '.') : c ∉ d.text := by
  intro h
  rw [text, List.mem_append, List.mem_flatMap] at h
  rcases h with h | ⟨n, -, h⟩
  · exact d.first.notMem_text hblank hname h
  · exact (List.mem_cons.mp h).elim hdot (n.notMem_text hblank hname)

/-- A type begins with a name. -/
theorem SpelledType.exists_first : (t : SpelledType) →
    ∃ c front back, isNameChar c = true ∧ Text.isBlank front = true ∧
      t.text = front ++ c :: back
  | .primitive name _ => by
    obtain ⟨c, rest, hc, heq⟩ := name.exists_first
    exact ⟨c, _, rest, hc, name.before.blank, heq⟩
  | .named name => by
    obtain ⟨c, rest, hc, heq⟩ := name.first.exists_first
    exact ⟨c, _, _, hc, name.first.before.blank, by
      rw [text, DottedName.text, heq, List.append_assoc, List.cons_append]⟩
  | .generic name first more after => by
    obtain ⟨c, rest, hc, heq⟩ := name.first.exists_first
    exact ⟨c, _, _, hc, name.first.before.blank, by
      rw [text, DottedName.text, heq, List.append_assoc, List.append_assoc,
        List.cons_append]⟩
  | .array element after => by
    obtain ⟨c, front, back, hc, hfront, heq⟩ := element.exists_first
    exact ⟨c, front, _, hc, hfront, by rw [text, heq, List.append_assoc,
      List.cons_append]⟩

theorem SpelledType.not_isBlank (t : SpelledType) : Text.isBlank t.text = false := by
  obtain ⟨c, front, back, hc, -, heq⟩ := t.exists_first
  rw [heq, Text.isBlank_append, Text.isBlank_cons, isNameChar_solid hc,
    Bool.false_and, Bool.and_false]

theorem SpelledArgument.not_isBlank (a : SpelledArgument) :
    Text.isBlank a.text = false := by
  have hsign : Char.isBlank '?' = false := by decide
  cases a with
  | type t => exact t.not_isBlank
  | wildcard | bounded => simp [text, hsign]

/-! ## Splitting at commas -/

/-- The first of the pieces with a text in front of it. -/
def attach (t : Text) : List Text → List Text
  | [] => [t]
  | piece :: pieces => (t ++ piece) :: pieces

theorem splitArgumentsAt_ne_nil (depth : Nat) (t : Text) :
    splitArgumentsAt depth t ≠ [] := by
  cases t with
  | nil => simp [splitArgumentsAt]
  | cons c rest =>
    rw [splitArgumentsAt]
    split
    · simp
    · dsimp only
      generalize splitArgumentsAt _ rest = pieces
      cases pieces <;> simp

/-- What holds of each sign that splitting looks for holds of all of them. -/
theorem forall_sign {p : Char → Prop} (comma : p ',') (less : p '<') (greater : p '>') :
    ∀ sign ∈ [',', '<', '>'], p sign :=
  List.forall_mem_cons.mpr
    ⟨comma, List.forall_mem_cons.mpr ⟨less, List.forall_mem_singleton.mpr greater⟩⟩

/-- Splitting goes over the text without a cut, and from one number of open
brackets to another. -/
def Carries (depth : Nat) (t : Text) (depth' : Nat) : Prop :=
  ∀ rest, splitArgumentsAt depth (t ++ rest) = attach t (splitArgumentsAt depth' rest)

namespace Carries

theorem append {depth depth' depth'' : Nat} {t u : Text} (ht : Carries depth t depth')
    (hu : Carries depth' u depth'') : Carries depth (t ++ u) depth'' := by
  intro rest
  rw [List.append_assoc, ht, hu]
  cases splitArgumentsAt depth'' rest <;> simp [attach]

theorem nil (depth : Nat) : Carries depth [] depth := by
  intro rest
  obtain ⟨piece, pieces, h⟩ :=
    List.exists_cons_of_ne_nil (splitArgumentsAt_ne_nil depth rest)
  rw [List.nil_append, h]
  rfl

/-- The step of splitting over a character at which it does not cut. -/
theorem single (c : Char) (depth : Nat) (h : c = ',' → depth ≠ 0) :
    Carries depth [c]
      (if c == '<' then depth + 1 else if c == '>' then depth - 1 else depth) := by
  intro rest
  have hcut : ¬ (c == ',' && depth == 0) = true := by simpa using h
  rw [List.singleton_append, splitArgumentsAt, if_neg hcut]
  dsimp only
  split <;> simp_all [attach]

theorem ofPlain {depth : Nat} {t : Text} (h : ∀ sign ∈ [',', '<', '>'], sign ∉ t) :
    Carries depth t depth := by
  induction t with
  | nil => exact nil depth
  | cons c t ih =>
    have hc (sign : Char) (hsign : sign ∈ [',', '<', '>']) : c ≠ sign := by
      rintro rfl
      exact h c hsign List.mem_cons_self
    have hstep := single c depth (fun heq => absurd heq (hc ',' (by decide)))
    rw [if_neg (by simpa using hc '<' (by decide)),
      if_neg (by simpa using hc '>' (by decide))] at hstep
    exact hstep.append
      (ih fun sign hsign hmem => h sign hsign (List.mem_cons_of_mem _ hmem))

theorem blanks (b : Blanks) (depth : Nat) : Carries depth b.text depth := by
  refine ofPlain fun sign hsign hmem => ?_
  have hblank := List.all_eq_true.mp b.blank sign hmem
  have hnone : ∀ sign ∈ [',', '<', '>'], Char.isBlank sign = false :=
    forall_sign rfl rfl rfl
  rw [hnone sign hsign] at hblank
  cases hblank

theorem opening (depth : Nat) : Carries depth ['<'] (depth + 1) :=
  single _ _ fun h => absurd h (by decide)

theorem closing (depth : Nat) : Carries (depth + 1) ['>'] depth :=
  single _ _ fun h => absurd h (by decide)

theorem comma (depth : Nat) : Carries (depth + 1) [','] (depth + 1) :=
  single _ _ (by simp)

theorem spacedName (n : SpacedName) (depth : Nat) : Carries depth n.text depth := by
  have hsigns : ∀ sign ∈ [',', '<', '>'],
      Char.isBlank sign = false ∧ isNameChar sign = false :=
    forall_sign (by decide) (by decide) (by decide)
  exact ofPlain fun sign hsign =>
    n.notMem_text (hsigns sign hsign).1 (hsigns sign hsign).2

theorem dottedName (d : DottedName) (depth : Nat) : Carries depth d.text depth := by
  have hsigns : ∀ sign ∈ [',', '<', '>'],
      Char.isBlank sign = false ∧ isNameChar sign = false ∧ sign ≠ '.' :=
    forall_sign (by decide) (by decide) (by decide)
  refine ofPlain fun sign hsign => ?_
  obtain ⟨hblank, hname, hdot⟩ := hsigns sign hsign
  exact d.notMem_text hblank hname hdot

end Carries

mutual

/-- Brackets in a type are closed in it, and its commas stand between them. -/
theorem SpelledType.carries :
    (t : SpelledType) → (depth : Nat) → Carries depth t.text depth
  | .primitive name _, depth => .spacedName name depth
  | .named name, depth => .dottedName name depth
  | .generic name first more after, depth => by
    have hinside := (first.carries (depth + 1)).append (furtherText_carries more depth)
    have hbehind := (Carries.closing depth).append (.blanks after depth)
    exact (Carries.dottedName name depth).append
      ((Carries.opening depth).append (hinside.append hbehind))
  | .array element after, depth => by
    have hlevel : Carries depth ['[', ']'] depth :=
      .ofPlain (forall_sign (by decide) (by decide) (by decide))
    exact (element.carries depth).append (hlevel.append (.blanks after depth))

theorem SpelledArgument.carries :
    (a : SpelledArgument) → (depth : Nat) → Carries depth a.text depth
  | .type t, depth => t.carries depth
  | .wildcard before after, depth => by
    have hsign : Carries depth ['?'] depth :=
      .ofPlain (forall_sign (by decide) (by decide) (by decide))
    exact (Carries.blanks before depth).append (hsign.append (.blanks after depth))
  | .bounded before between bound t, depth => by
    have hsign : Carries depth ['?'] depth :=
      .ofPlain (forall_sign (by decide) (by decide) (by decide))
    have hword : Carries depth bound.word depth := by
      cases bound <;> exact .ofPlain (forall_sign (by decide) (by decide) (by decide))
    exact (Carries.blanks before depth).append
      (hsign.append
        ((Carries.blanks between depth).append (hword.append (t.carries depth))))

theorem furtherText_carries : (as : List SpelledArgument) → (depth : Nat) →
    Carries (depth + 1) (furtherText as) (depth + 1)
  | [], depth => .nil (depth + 1)
  | a :: as, depth =>
    (Carries.comma depth).append
      ((a.carries (depth + 1)).append (furtherText_carries as depth))

end

theorem splitArgumentsAt_texts (a : SpelledArgument) (as : List SpelledArgument) :
    splitArgumentsAt 0 (a.text ++ furtherText as) =
      a.text :: as.map SpelledArgument.text := by
  rw [a.carries 0]
  induction as generalizing a with
  | nil => simp [furtherText, splitArgumentsAt, attach]
  | cons b as ih =>
    have hcut (rest : Text) : splitArgumentsAt 0 (',' :: rest) =
        [] :: splitArgumentsAt 0 rest := rfl
    rw [furtherText, hcut, b.carries 0, ih b, attach, List.append_nil]
    rfl

/-- The arguments of a list come out of its text one by one. -/
theorem splitArguments_texts (a : SpelledArgument) (as : List SpelledArgument) :
    splitArguments (a.text ++ furtherText as) =
      a.text :: as.map SpelledArgument.text := by
  rw [splitArguments, splitArgumentsAt_texts, List.filter_eq_self]
  intro piece hpiece
  rw [← List.map_cons, List.mem_map] at hpiece
  obtain ⟨b, -, rfl⟩ := hpiece
  rw [b.not_isBlank]
  rfl

/-! ## Reading -/

namespace TypeExpr

variable {t front : Text}

/-- Blanks around a text do not matter to its reading. -/
theorem readWithin_trim (fuel : Nat) (t : Text) :
    readWithin (fuel + 1) (Text.trim t) = readWithin (fuel + 1) t := by
  rw [readWithin, readWithin, Text.trim_trim]

theorem readWithin_trimStart (fuel : Nat) (t : Text) :
    readWithin (fuel + 1) (Text.trimStart t) = readWithin (fuel + 1) t := by
  rw [← readWithin_trim, ← readWithin_trim fuel t, Text.trim,
    Text.trimStart_trimStart, Text.trim]

theorem readWithin_arity (h : Text.trim t = front ++ "...".toList) (fuel : Nat) :
    readWithin (fuel + 1) t = .array (readWithin fuel front) (Text.trim t) := by
  simp only [readWithin, h, Text.beforeTail?_append]

theorem readWithin_level (h : Text.trim t = front ++ "[]".toList) (fuel : Nat) :
    readWithin (fuel + 1) t = .array (readWithin fuel front) (Text.trim t) := by
  have harity : Text.beforeTail? "...".toList (front ++ "[]".toList) = none := by
    have := Text.beforeTail?_concat_of_ne (c := ']') (d := '.') (by decide)
      "..".toList (front ++ ['['])
    rwa [List.append_assoc] at this
  simp only [readWithin, h, harity, Text.beforeTail?_append]

/-- A text whose last character is no sign of an array is a name, with or
without type arguments. -/
theorem readWithin_concat {c : Char} (h : Text.trim t = front ++ [c]) (hdot : c ≠ '.')
    (hlevel : c ≠ ']') (fuel : Nat) :
    readWithin (fuel + 1) t =
      match splitGeneric? (Text.trim t) with
      | some (base, inside) =>
        .named base (readArgumentsWithin fuel (splitArguments inside)) (Text.trim t)
      | none => .named (Text.trim t) [] (Text.trim t) := by
  have harity : Text.beforeTail? "...".toList (front ++ [c]) = none :=
    Text.beforeTail?_concat_of_ne hdot "..".toList front
  have hlevels : Text.beforeTail? "[]".toList (front ++ [c]) = none :=
    Text.beforeTail?_concat_of_ne hlevel ['['] front
  rcases hsplit : splitGeneric? (front ++ [c]) with _ | ⟨base, inside⟩
  · simp only [readWithin, h, harity, hlevels, hsplit]
  · simp only [readWithin, h, harity, hlevels, hsplit]

theorem readWithin_name {c : Char} (h : Text.trim t = front ++ [c])
    (hc : isNameChar c = true) (hless : '<' ∉ t) (fuel : Nat) :
    readWithin (fuel + 1) t = .named (Text.trim t) [] (Text.trim t) := by
  have hnone : splitGeneric? (Text.trim t) = none := by
    obtain ⟨a, b, -, -, heq⟩ := Text.exists_trim t
    have hless' : '<' ∉ Text.trim t := by
      intro hmem
      exact hless (heq ▸ List.mem_append_left _ (List.mem_append_right _ hmem))
    rw [splitGeneric?, if_neg (by simpa using hless')]
  rw [readWithin_concat h (isNameChar_ne hc (by decide))
    (isNameChar_ne hc (by decide)), hnone]

/-- What stands between the first `<` and a `>` at the end are the
type arguments. -/
theorem readWithin_generic {base inside : Text}
    (h : Text.trim t = base ++ '<' :: (inside ++ ['>'])) (hless : '<' ∉ base)
    (fuel : Nat) :
    readWithin (fuel + 1) t =
      .named (Text.trim base) (readArgumentsWithin fuel (splitArguments inside))
        (Text.trim t) := by
  have hbase : ∀ c ∈ base, (c != '<') = true := by
    intro c hc
    rw [bne_iff_ne]
    rintro rfl
    exact hless hc
  have hsplit : splitGeneric? (Text.trim t) = some (Text.trim base, inside) := by
    rw [h, splitGeneric?, if_pos (by simp), List.takeWhile_append_of_pos hbase,
      List.dropWhile_append_of_pos hbase, List.takeWhile_cons_of_neg (by simp),
      List.dropWhile_cons_of_neg (by simp), List.append_nil, List.drop_succ_cons,
      List.drop_zero]
    simp only [Text.cutAtLast?_append List.not_mem_nil, Option.map_some]
  have hconcat : Text.trim t = (base ++ '<' :: inside) ++ ['>'] := by simp [h]
  rw [readWithin_concat hconcat (by decide) (by decide), hsplit]

end TypeExpr

open TypeExpr

/-- A wildcard is told by its sign. -/
theorem readArgumentWithin_sign {a u : Text} (h : Text.trim a = '?' :: u) (fuel : Nat) :
    readArgumentWithin (fuel + 1) a =
      match wildcardBound? (Text.trimStart u) with
      | some (word, bound) => .bounded word (readWithin fuel bound) (Text.trim a)
      | none => .wildcard (Text.trim a) := by
  rcases hbound : wildcardBound? (Text.trimStart u) with _ | ⟨word, bound⟩
  · simp only [readArgumentWithin, h, hbound]
  · simp only [readArgumentWithin, h, hbound]

/-- The word of a bound is found behind the sign, whatever follows. -/
theorem wildcardBound?_word (bound : Bound) (t : Text) :
    wildcardBound? (bound.word ++ t) = some (bound.word, t) := by
  cases bound <;> rfl

mutual

/-- A spelled type is read as what it spells, by any depth that its
length allows for. -/
theorem SpelledType.readWithin_text : (t : SpelledType) → {fuel : Nat} →
    2 * t.text.length + 1 ≤ fuel → readWithin fuel t.text = t.expr
  | .primitive name isPrimitive, fuel + 1, _ => by
    obtain ⟨c, front, hc, heq⟩ := name.exists_last
    have htrim : Text.trim name.text = Text.trimStart front ++ [c] := by
      rw [heq]
      exact trim_of_last _ _ (isNameChar_solid hc) name.after.blank
    rw [SpelledType.text,
      readWithin_name htrim hc (name.notMem_text (by decide) (by decide)),
      name.trim_text, SpelledType.expr]
  | .named name, fuel + 1, _ => by
    obtain ⟨c, front, back, hc, hback, heq⟩ := name.exists_last
    have htrim : Text.trim name.text = Text.trimStart front ++ [c] := by
      rw [heq]
      exact trim_of_last _ _ (isNameChar_solid hc) hback
    rw [SpelledType.text,
      readWithin_name htrim hc (name.notMem_text (by decide) (by decide) (by decide)),
      SpelledType.expr]
  | .generic name first more after, fuel + 1, hfuel => by
    rw [SpelledType.text] at hfuel
    simp only [List.length_append, List.length_cons] at hfuel
    obtain ⟨fuel, rfl⟩ : ∃ n, fuel = n + 1 := ⟨fuel - 1, by omega⟩
    have htrim : Text.trim (SpelledType.generic name first more after).text =
        Text.trimStart name.text ++
        '<' :: (first.text ++ furtherText more ++ ['>']) := by
      have hlast :=
        trim_of_last '>' (name.text ++ '<' :: (first.text ++ furtherText more))
          (by decide) after.blank
      rw [Text.trimStart_append_solid (by decide)] at hlast
      simpa [SpelledType.text] using hlast
    -- the first `<` is the one behind the name
    have hless : '<' ∉ Text.trimStart name.text := by
      intro hmem
      exact name.notMem_text (by decide) (by decide) (by decide)
        (List.dropWhile_suffix _ |>.mem hmem)
    have hbase : Text.trim (Text.trimStart name.text) = Text.trim name.text := by
      rw [Text.trim, Text.trimStart_trimStart, Text.trim]
    rw [readWithin_generic htrim hless, hbase, splitArguments_texts,
      readArgumentsWithin, first.readWithin_text (by omega),
      readWithin_furtherTexts more (by omega), SpelledType.expr]
  | .array element after, fuel + 1, hfuel => by
    have hlength : (SpelledType.array element after).text.length =
        element.text.length + 2 + after.text.length := by
      rw [SpelledType.text, List.length_append, List.length_append, Nat.add_assoc]
      rfl
    obtain ⟨fuel, rfl⟩ : ∃ n, fuel = n + 1 := ⟨fuel - 1, by omega⟩
    have htrim : Text.trim (SpelledType.array element after).text =
        Text.trimStart element.text ++ "[]".toList := by
      have hlast := trim_of_last ']' (element.text ++ ['[']) (by decide) after.blank
      rw [Text.trimStart_append_solid (by decide)] at hlast
      simpa [SpelledType.text] using hlast
    rw [readWithin_level htrim, readWithin_trimStart,
      element.readWithin_text (by omega), SpelledType.expr]

theorem SpelledArgument.readWithin_text : (a : SpelledArgument) → {fuel : Nat} →
    2 * a.text.length + 2 ≤ fuel → readArgumentWithin fuel a.text = a.expr
  | .type t, fuel + 1, hfuel => by
    obtain ⟨fuel, rfl⟩ : ∃ n, fuel = n + 1 := ⟨fuel - 1, by omega⟩
    obtain ⟨c, front, back, hc, hfront, heq⟩ := t.exists_first
    have htrim : Text.trim t.text = c :: Text.trimEnd back := by
      rw [heq]
      exact trim_of_first (isNameChar_solid hc) hfront back
    -- a type is not taken for a wildcard: it begins with a character of a name
    have hsign : c ≠ '?' := isNameChar_ne hc (by decide)
    have hread : readArgumentWithin (fuel + 2) t.text =
        readWithin (fuel + 1) (Text.trim t.text) := by
      rw [readArgumentWithin]
      simp only [htrim]
      split
      · next h => exact absurd (List.cons.inj h).1 hsign
      · rfl
    rw [SpelledArgument.text] at hfuel ⊢
    rw [hread, readWithin_trim, t.readWithin_text (by omega), SpelledArgument.expr]
  | .wildcard before after, fuel + 1, _ => by
    have htrim : Text.trim (SpelledArgument.wildcard before after).text = ['?'] := by
      have hlast := trim_of_last '?' before.text (by decide) after.blank
      rwa [(Text.trimStart_eq_nil_iff _).mpr before.blank] at hlast
    rw [readArgumentWithin_sign htrim, htrim, SpelledArgument.expr]
    rfl
  | .bounded before between bound t, fuel + 1, hfuel => by
    obtain ⟨c, front, back, hc, hfront, heq⟩ := t.exists_first
    obtain ⟨d, word,
        hword⟩ : ∃ d word, bound.word = d :: word ∧ Char.isBlank d = false := by
      cases bound <;> exact ⟨_, _, rfl, by decide⟩
    -- the blanks in front of the word of the bound go, and those at the end of
    -- the type
    have hfirst (u : Text) : Text.trimStart (between.text ++ (bound.word ++ u)) =
        bound.word ++ u := by
      rw [Text.trimStart_append_of_blank between.blank, hword.1, List.cons_append,
        Text.trimStart_of_solid hword.2]
    have hend : Text.trimEnd (between.text ++ (bound.word ++ t.text)) =
        between.text ++ (bound.word ++ (front ++ c :: Text.trimEnd back)) := by
      have := Text.trimEnd_append_solid (isNameChar_solid hc)
        (between.text ++ (bound.word ++ front)) back
      simpa [heq] using this
    have hsame : Text.trim (front ++ c :: Text.trimEnd back) = Text.trim t.text := by
      rw [heq, trim_of_first (isNameChar_solid hc) hfront,
        trim_of_first (isNameChar_solid hc) hfront, Text.trimEnd_trimEnd]
    have htrim : Text.trim (SpelledArgument.bounded before between bound t).text =
        '?' :: (between.text ++ (bound.word ++ (front ++ c :: Text.trimEnd back))) := by
      rw [← hend]
      exact trim_of_first (by decide) before.blank _
    rw [SpelledArgument.text] at hfuel
    simp only [List.length_append, List.length_cons] at hfuel
    obtain ⟨fuel, rfl⟩ : ∃ n, fuel = n + 1 := ⟨fuel - 1, by omega⟩
    rw [readArgumentWithin_sign htrim, hfirst, wildcardBound?_word]
    dsimp only
    rw [← readWithin_trim, hsame, readWithin_trim, t.readWithin_text (by omega),
      SpelledArgument.expr]

theorem readWithin_furtherTexts : (as : List SpelledArgument) → {fuel : Nat} →
    2 * (furtherText as).length + 1 ≤ fuel →
      readArgumentsWithin fuel (as.map SpelledArgument.text) = furtherExprs as
  | [], fuel + 1, _ => by rw [List.map_nil, readArgumentsWithin, furtherExprs]
  | a :: as, fuel + 1, hfuel => by
    rw [furtherText] at hfuel
    simp only [List.length_append, List.length_cons] at hfuel
    rw [List.map_cons, readArgumentsWithin, a.readWithin_text (by omega),
      readWithin_furtherTexts as (by omega), furtherExprs]

end

/-- **Every spelled type is read** as the expression that it spells. -/
theorem SpelledParameter.read_text (p : SpelledParameter) :
    TypeExpr.read p.text = p.expr := by
  obtain ⟨type, arity⟩ := p
  rw [TypeExpr.read]
  cases arity with
  | none => exact type.readWithin_text (by simp only [text]; omega)
  | some after =>
    have htrim : Text.trim (type.text ++ ("...".toList ++ after.text)) =
        Text.trimStart type.text ++ "...".toList := by
      have hlast := trim_of_last '.' (type.text ++ ['.', '.']) (by decide) after.blank
      rw [Text.trimStart_append_solid (by decide)] at hlast
      simpa using hlast
    have hlength : (type.text ++ ("...".toList ++ after.text)).length =
        type.text.length + 3 + after.text.length := by simp; omega
    simp only [text, expr]
    rw [hlength, readWithin_arity htrim, readWithin_trimStart,
      type.readWithin_text (by omega)]

end Graft.Java
