import Graft.Proofs.Java.Declarations
import Graft.Proofs.Java.Places

/-!
# Sources further behind

What is read of a source does not depend on where it stands. Each reader of
phrases, given trees further behind and a source with as much text in front of
it, gives the same phrases, and what is left further behind; so the members that
trees are read to are the same, further behind (`declarations_moved`).
-/

namespace Graft.Java

section

variable (o : Offset)

/-! ## Trees further behind -/

namespace Token

@[simp] theorem kind_moved (t : Token) : (t.moved o).kind = t.kind := rfl

@[simp] theorem text_moved (t : Token) : (t.moved o).text = t.text := rfl

@[simp] theorem start_moved (t : Token) :
    (t.moved o).start = t.start + o.position := rfl

@[simp] theorem doc_moved (t : Token) :
    (t.moved o).doc = t.doc.map (Span.moved o) := rfl

@[simp] theorem stop_moved (t : Token) : (t.moved o).stop = t.stop + o.position := by
  simp only [stop, start_moved, text_moved]
  omega

@[simp] theorem isSign_moved (t : Token) (sign : Text) :
    (t.moved o).isSign sign = t.isSign sign := rfl

@[simp] theorem isWord_moved (t : Token) (word : Text) :
    (t.moved o).isWord word = t.isWord word := rfl

end Token

@[simp] theorem typeWord?_moved (t : Token) : typeWord? (t.moved o) = typeWord? t := rfl

theorem between_moved (first last : Token) :
    Span.between (first.moved o) (last.moved o) =
      (Span.between first last).moved o := by
  simp [Span.between, Span.moved, Token.moved, Token.stop]
  omega

namespace Tree

mutual

/-- A tree further behind. -/
def moved : Tree → Tree
  | .leaf t => .leaf (t.moved o)
  | .stray t => .stray (t.moved o)
  | .group left inner right => .group (left.moved o) (allMoved inner) (right.moved o)

/-- Trees further behind. -/
def allMoved : List Tree → List Tree
  | [] => []
  | t :: rest => moved t :: allMoved rest

end

theorem allMoved_eq (trees : List Tree) : allMoved o trees = trees.map (moved o) := by
  induction trees with
  | nil => rw [allMoved, List.map_nil]
  | cons t rest ih => rw [allMoved, ih, List.map_cons]

@[simp] theorem moved_leaf (t : Token) :
    (leaf t).moved o = .leaf (t.moved o) := by rw [moved]

@[simp] theorem moved_stray (t : Token) :
    (stray t).moved o = .stray (t.moved o) := by rw [moved]

@[simp] theorem moved_group (left right : Token) (inner : List Tree) :
    (group left inner right).moved o =
      .group (left.moved o) (inner.map (moved o)) (right.moved o) := by
  rw [moved, allMoved_eq]

@[simp] theorem first_moved (t : Tree) : (t.moved o).first = t.first.moved o := by
  cases t <;> simp [first]

@[simp] theorem last_moved (t : Tree) : (t.moved o).last = t.last.moved o := by
  cases t <;> simp [last]

@[simp] theorem isSign_moved (t : Tree) (sign : Text) :
    (t.moved o).isSign sign = t.isSign sign := by
  cases t <;> simp [isSign]

@[simp] theorem isWord_moved (t : Tree) (word : Text) :
    (t.moved o).isWord word = t.isWord word := by
  cases t <;> simp [isWord]

@[simp] theorem isGroup_moved (t : Tree) (left : Text) :
    (t.moved o).isGroup left = t.isGroup left := by
  cases t <;> simp [isGroup]

@[simp] theorem isBlock_moved (t : Tree) : (t.moved o).isBlock = t.isBlock :=
  isGroup_moved o t _

@[simp] theorem isStray_moved (t : Tree) : (t.moved o).isStray = t.isStray := by
  cases t <;> simp [isStray]

@[simp] theorem isSome_word?_moved (t : Tree) :
    (t.moved o).word?.isSome = t.word?.isSome := by
  cases t with
  | leaf t =>
    rw [moved_leaf, word?, word?, Token.kind_moved]
    split <;> rfl
  | stray t => simp [word?]
  | group left inner right => simp [word?]

mutual

@[simp] theorem flat_moved : (t : Tree) → (t.moved o).flat = t.flat.map (Token.moved o)
  | .leaf t => by simp
  | .stray t => by simp
  | .group left inner right => by simp [flats_moved inner]

@[simp] theorem flats_moved : (trees : List Tree) →
    flats (trees.map (moved o)) = (flats trees).map (Token.moved o)
  | [] => by simp
  | t :: rest => by simp [flat_moved t, flats_moved rest]

end

@[simp] theorem sizes_moved (trees : List Tree) :
    sizes (trees.map (moved o)) = sizes trees := by
  simp [sizes_eq_length]

end Tree

/-! ## Types and names passed over -/

theorem dottedTail_moved (last : Token) (trees : List Tree) :
    dottedTail (last.moved o) (trees.map (Tree.moved o)) =
      ((dottedTail last trees).1.moved o,
        (dottedTail last trees).2.map (Tree.moved o)) := by
  fun_induction dottedTail last trees with
  | case1 last dot w rest h ih => simp_all [dottedTail]
  | case2 last dot w rest h => simp_all [dottedTail]
  | case3 last trees h =>
    rcases trees with _ | ⟨t, _ | ⟨u, rest⟩⟩
    · rfl
    · cases t <;> simp [dottedTail]
    · cases t <;> cases u <;> first | exact (h _ _ _ rfl).elim | simp [dottedTail]

theorem skipAnnotations_moved (n : Nat) (trees : List Tree) :
    skipAnnotations n (trees.map (Tree.moved o)) =
      (skipAnnotations n trees).map (Tree.moved o) := by
  fun_induction skipAnnotations n trees with
  | case1 n sign w rest h left inner right rest' hrest hleft ih =>
    simp_all [skipAnnotations, dottedTail_moved]
  | case2 n sign w rest h left inner right rest' hrest hleft =>
    simp_all [skipAnnotations, dottedTail_moved]
  | case3 n sign w rest h hrest ih =>
    simp only [List.map_cons, Tree.moved_leaf, skipAnnotations, Token.isSign_moved,
      Token.kind_moved, h, ↓reduceIte, dottedTail_moved]
    generalize (dottedTail w rest).2 = rest' at *
    rcases rest' with _ | ⟨t, rest'⟩
    · exact ih
    · cases t <;> first | exact (hrest _ _ _ _ rfl).elim | exact ih
  | case4 n sign w rest h => simp_all [skipAnnotations]
  | case5 n trees h =>
    cases n with
    | zero => simp [skipAnnotations]
    | succ n =>
      rcases trees with _ | ⟨t, _ | ⟨u, rest⟩⟩
      · simp [skipAnnotations]
      · cases t <;> simp [skipAnnotations]
      · cases t <;> cases u <;>
          first | exact (h _ _ _ _ rfl rfl).elim | simp [skipAnnotations]

theorem skipAnnotations_leaf_moved (n : Nat) (t : Token) (rest : List Tree) :
    skipAnnotations n (.leaf (t.moved o) :: rest.map (Tree.moved o)) =
      (skipAnnotations n (.leaf t :: rest)).map (Tree.moved o) := by
  rw [← skipAnnotations_moved, List.map_cons, Tree.moved_leaf]

theorem skipAngles_moved (depth : Nat) (trees : List Tree) :
    skipAngles depth (trees.map (Tree.moved o)) =
      (skipAngles depth trees).map fun (t, rest) =>
        (t.moved o, rest.map (Tree.moved o)) := by
  fun_induction skipAngles depth trees
  case case4 depth t rest hless hmore hdepth ih =>
    simp only [List.map_cons, Tree.moved_leaf, skipAngles, Token.isSign_moved,
      if_neg hless, if_pos hmore, if_neg hdepth, ih]
  all_goals simp_all [skipAngles]

theorem typeTail_moved (n : Nat) (last : Token) (trees : List Tree) :
    typeTail n (last.moved o) (trees.map (Tree.moved o)) =
      ((typeTail n last trees).1.moved o,
        (typeTail n last trees).2.map (Tree.moved o)) := by
  fun_induction typeTail n last trees
  case case5 n last t rest _ _ hrest =>
    simp only [typeTail, List.map_cons, Tree.moved_leaf, skipAnnotations_moved,
      Token.isSign_moved, List.length_map, *]
    generalize skipAnnotations rest.length rest = us at *
    rcases us with _ | ⟨u | _ | _, us⟩ <;> simp_all
  case case8 n last t rest _ _ _ hrest =>
    simp only [typeTail, List.map_cons, Tree.moved_leaf, skipAnnotations_leaf_moved,
      Token.isSign_moved, List.length_map, *]
    generalize skipAnnotations (rest.length + 1) (Tree.leaf t :: rest) = us at *
    rcases us with _ | ⟨_ | ⟨_, _ | _, _⟩ | _, us⟩ <;> simp_all
  case case12 n last trees hleaf hgroup =>
    rcases n with _ | n
    · simp [typeTail]
    · rcases trees with _ | ⟨_ | ⟨_, _ | _, _⟩ | _, us⟩ <;>
        first | exact (hleaf _ _ _ rfl rfl).elim |
          exact (hgroup _ _ _ _ rfl rfl).elim | simp [typeTail]
  all_goals simp_all [typeTail, skipAngles_moved, skipAnnotations_moved,
    skipAnnotations_leaf_moved]

theorem readType?_moved (trees : List Tree) : readType? (trees.map (Tree.moved o)) =
    (readType? trees).map fun ((first, last), rest) =>
      ((first.moved o, last.moved o), rest.map (Tree.moved o)) := by
  rcases trees with _ | ⟨t | _ | _, rest⟩
  case cons.leaf =>
    simp only [readType?, List.map_cons, Tree.moved_leaf, Token.kind_moved,
      typeTail_moved, List.length_map]
    split <;> rfl
  all_goals simp [readType?]

theorem dimensionsEnd_moved (n : Nat) (last : Option Token) (trees : List Tree) :
    dimensionsEnd n (last.map (Token.moved o)) (trees.map (Tree.moved o)) =
      ((dimensionsEnd n last trees).1.map (Token.moved o),
        (dimensionsEnd n last trees).2.map (Tree.moved o)) := by
  fun_induction dimensionsEnd n last trees
  case case1 => simp_all [dimensionsEnd, skipAnnotations_moved]
  case case2 => simp_all [dimensionsEnd, skipAnnotations_moved]
  case case3 n last trees h =>
    simp only [dimensionsEnd, skipAnnotations_moved, List.length_map]
    generalize skipAnnotations trees.length trees = us at *
    rcases us with _ | ⟨_ | ⟨_, _ | _, _⟩ | _, us⟩ <;>
      first | exact (h _ _ _ rfl).elim | rfl
  case case4 => rfl

/-! ## Expressions passed over -/

theorem followsTypeArguments_moved (trees : List Tree) :
    followsTypeArguments (trees.map (Tree.moved o)) = followsTypeArguments trees := by
  cases trees <;> simp [followsTypeArguments]

theorem opensTypeArguments_moved (inType : Bool) (rest : List Tree) :
    opensTypeArguments inType (rest.map (Tree.moved o)) =
      opensTypeArguments inType rest := by
  rw [opensTypeArguments, opensTypeArguments, skipAngles_moved]
  cases skipAngles 1 rest <;> simp [followsTypeArguments_moved]

theorem opensCallArguments_moved (t : Tree) (rest : List Tree) :
    opensCallArguments (t.moved o) (rest.map (Tree.moved o)) =
      opensCallArguments t rest := by
  cases rest <;> simp [opensCallArguments]

theorem untilComma_moved (depth : Nat) (inType : Bool) (trees : List Tree) :
    untilComma depth inType (trees.map (Tree.moved o)) =
      ((untilComma depth inType trees).1.map (Tree.moved o),
        (untilComma depth inType trees).2.map (Tree.moved o)) := by
  induction trees generalizing depth inType with
  | nil => rfl
  | cons t rest ih =>
    simp only [List.map_cons, untilComma, Tree.isSign_moved, Tree.isWord_moved,
      opensTypeArguments_moved, opensCallArguments_moved, Tree.isSome_word?_moved, ih]
    split <;> rfl

theorem splitExpressions_moved (n : Nat) (trees : List Tree) :
    splitExpressions n (trees.map (Tree.moved o)) =
      (splitExpressions n trees).map (List.map (Tree.moved o)) := by
  fun_induction splitExpressions n trees <;>
    simp_all [splitExpressions, untilComma_moved]

theorem splitParameters_moved (depth : Nat) (piece trees : List Tree) :
    splitParameters depth (piece.map (Tree.moved o)) (trees.map (Tree.moved o)) =
      (splitParameters depth piece trees).map (List.map (Tree.moved o)) := by
  induction trees generalizing depth piece with
  | nil =>
    cases piece with
    | nil => rfl
    | cons t piece =>
      rw [List.map_cons, List.map_nil, splitParameters, splitParameters,
        ← List.map_cons, ← List.map_reverse]
      · rfl
      all_goals simp
  | cons t rest ih =>
    have hcons : ∀ depth',
        splitParameters depth' (t.moved o :: piece.map (Tree.moved o))
          (rest.map (Tree.moved o)) =
          (splitParameters depth' (t :: piece) rest).map (List.map (Tree.moved o)) :=
      fun depth' => ih depth' (t :: piece)
    simp only [List.map_cons, splitParameters, Tree.isSign_moved, hcons,
      ← List.map_reverse]
    split
    · exact congrArg (_ :: ·) (ih 0 [])
    · rfl

/-! ## Declarations further behind -/

mutual

/-- A value of an annotation further behind. -/
def ElementValue.moved : ElementValue → ElementValue
  | .array items => .array (ElementValue.allMoved items)
  | .annotated a => .annotated (AnnotationUse.moved a)
  | .string value => .string value
  | .integer value => .integer value
  | .boolean value => .boolean value
  | .classLiteral type => .classLiteral type
  | .expression text => .expression text

/-- Values further behind. -/
def ElementValue.allMoved : List ElementValue → List ElementValue
  | [] => []
  | v :: rest => ElementValue.moved v :: ElementValue.allMoved rest

/-- Named values further behind. -/
def ElementValue.pairsMoved : List (Text × ElementValue) → List (Text × ElementValue)
  | [] => []
  | (name, v) :: rest => (name, ElementValue.moved v) :: ElementValue.pairsMoved rest

/-- Arguments further behind. -/
def Arguments.moved : Arguments → Arguments
  | .marker => .marker
  | .single v => .single (ElementValue.moved v)
  | .named pairs => .named (ElementValue.pairsMoved pairs)

/-- An annotation further behind. -/
def AnnotationUse.moved : AnnotationUse → AnnotationUse
  | .mk name arguments span => .mk name (Arguments.moved arguments) (span.moved o)

end

theorem ElementValue.allMoved_eq (items : List ElementValue) :
    ElementValue.allMoved o items = items.map (ElementValue.moved o) := by
  induction items with
  | nil => rw [ElementValue.allMoved, List.map_nil]
  | cons v rest ih => rw [ElementValue.allMoved, ih, List.map_cons]

theorem ElementValue.pairsMoved_eq (pairs : List (Text × ElementValue)) :
    ElementValue.pairsMoved o pairs = pairs.map fun (name, v) => (name, v.moved o) := by
  induction pairs with
  | nil => rw [ElementValue.pairsMoved, List.map_nil]
  | cons pair rest ih =>
    obtain ⟨name, v⟩ := pair
    rw [ElementValue.pairsMoved, ih, List.map_cons]

/-- Modifiers further behind. -/
def Modifiers.moved (m : Modifiers) : Modifiers :=
  { m with annotations := m.annotations.map (AnnotationUse.moved o) }

mutual

/-- A type further behind. -/
def TypeDecl.moved : TypeDecl → TypeDecl
  | .mk name kind modifiers members span body doc =>
    .mk name kind (modifiers.moved o) (Declaration.allMoved members) (span.moved o)
      (body.moved o)
      (doc.map (Span.moved o))

/-- A declaration further behind. -/
def Declaration.moved : Declaration → Declaration
  | .field d =>
    .field { d with
      modifiers :=
        d.modifiers.moved o, span := d.span.moved o, doc := d.doc.map (Span.moved o) }
  | .method d =>
    .method { d with
      modifiers :=
        d.modifiers.moved o, span := d.span.moved o, doc := d.doc.map (Span.moved o) }
  | .constructor d =>
    .constructor { d with
      modifiers :=
        d.modifiers.moved o, span := d.span.moved o, doc := d.doc.map (Span.moved o) }
  | .nested t => .nested (TypeDecl.moved t)

/-- Declarations further behind. -/
def Declaration.allMoved : List Declaration → List Declaration
  | [] => []
  | d :: rest => Declaration.moved d :: Declaration.allMoved rest

end

theorem Declaration.allMoved_eq (members : List Declaration) :
    Declaration.allMoved o members = members.map (Declaration.moved o) := by
  induction members with
  | nil => rw [Declaration.allMoved, List.map_nil]
  | cons d rest ih => rw [Declaration.allMoved, ih, List.map_cons]

@[simp] theorem TypeDecl.name_moved (t : TypeDecl) : (t.moved o).name = t.name := by
  cases t
  rw [TypeDecl.moved]
  rfl

@[simp] theorem TypeDecl.members_moved (t : TypeDecl) :
    (t.moved o).members = t.members.map (Declaration.moved o) := by
  cases t
  rw [TypeDecl.moved, Declaration.allMoved_eq]
  rfl

/-! ## Texts behind others -/

section

variable {o} {front : Text} (h : o.position = front.length) (source : Text)

include h

theorem text_moved (s : Span) : (s.moved o).text (front ++ source) = s.text source := by
  simp only [Span.text, Span.moved, Text.slice, h]
  rw [Nat.add_comm s.stop, List.take_length_add_append, Nat.add_comm s.start,
    List.drop_length_add_append]

theorem spelled_moved (first last : Token) :
    spelled (front ++ source) (first.moved o) (last.moved o) =
      spelled source first last := by
  rw [spelled, between_moved, text_moved h, spelled]

theorem readDimensions_moved (trees : List Tree) :
    readDimensions (front ++ source) (trees.map (Tree.moved o)) =
    ((readDimensions source trees).1,
      (readDimensions source trees).2.map (Tree.moved o)) := by
  have hend := dimensionsEnd_moved o trees.length none trees
  rw [Option.map_none] at hend
  simp only [readDimensions, List.length_map, hend]
  cases trees with
  | nil => rfl
  | cons t rest =>
    obtain ⟨_ | last, rest'⟩ := dimensionsEnd (t :: rest).length none (t :: rest)
    · rfl
    · simp [spelled_moved h]

/-! ## Annotations -/

theorem classLiteral?_moved (trees : List Tree) :
    classLiteral? (front ++ source) (trees.map (Tree.moved o)) =
      classLiteral? source trees := by
  simp only [classLiteral?, ← List.map_reverse, readType?_moved]
  rcases trees.reverse with _ | ⟨w | _ | _, _ | ⟨dot | _ | _, _⟩⟩ <;> try rfl
  by_cases hclass : (w.isWord "class" && dot.isSign ".") = true
  · simp only [List.map_cons, Tree.moved_leaf, Token.isWord_moved, Token.isSign_moved,
      hclass, ↓reduceIte]
    rcases readType? trees with
      _ | ⟨_, _ | ⟨_ | _ | _, _ | ⟨_ | _ | _, _ | _⟩⟩⟩ <;> try rfl
    cases trees with
    | nil => rfl
    | cons first rest => simp [spelled_moved h]
  · simp only [List.map_cons, Tree.moved_leaf, Token.isWord_moved,
      Token.isSign_moved, hclass]
    rfl

theorem spelledTrees_moved (trees : List Tree) :
    spelledTrees (front ++ source) (trees.map (Tree.moved o)) =
      spelledTrees source trees := by
  unfold spelledTrees
  rw [List.getLast?_map]
  cases trees with
  | nil => rfl
  | cons t rest => cases (t :: rest).getLast? <;> simp [spelled_moved h]

end

mutual

theorem readValue_moved {o : Offset} {front : Text} (h : o.position = front.length)
    (source : Text) :
    (n : Nat) → (trees : List Tree) →
    readValue (front ++ source) n (trees.map (Tree.moved o)) =
      (readValue source n trees).moved o
  | 0, trees => by simp [readValue, spelledTrees_moved h, ElementValue.moved]
  | n + 1, trees => by
    have hwritten := spelledTrees_moved h source trees
    -- the cases of the reader: nothing, one tree, or several by the first of
    -- them
    match trees with
    | [] => simp_all [readValue, ElementValue.moved]
    | [.leaf t] =>
      simp only [List.map_cons, List.map_nil, Tree.moved_leaf] at hwritten
      simp only [List.map_cons, List.map_nil, Tree.moved_leaf, readValue,
        Token.kind_moved, Token.text_moved, hwritten]
      cases t.kind with
      | integer => cases integerValue? t.text <;> simp [ElementValue.moved]
      | word =>
        dsimp only
        split
        · simp [ElementValue.moved]
        · split <;> simp [ElementValue.moved]
      | _ => simp [ElementValue.moved]
    | [.group left inner right] =>
      simp only [List.map_cons, List.map_nil, Tree.moved_group] at hwritten
      simp only [List.map_cons, List.map_nil, Tree.moved_group, readValue, hwritten,
        Token.isSign_moved, List.length_map, splitExpressions_moved, List.isEmpty_map]
      split
      · simp only [ElementValue.moved, ElementValue.allMoved_eq,
          List.filter_map, List.map_map]
        congr 1
        have hpiece : ∀ piece : List Tree,
            (readValue (front ++ source) n ∘ List.map (Tree.moved o)) piece =
            (ElementValue.moved o ∘ readValue source n) piece :=
              fun piece => readValue_moved h source n piece
        rw [funext hpiece]
        congr 2
        funext piece
        simp
      · split
        · exact readValue_moved h source n inner
        · simp [ElementValue.moved]
    | .leaf t :: u :: rest =>
      have huse := readAnnotationUse?_moved h source n (.leaf t :: u :: rest)
      have hrest := readValue_moved h source n (u :: rest)
      have hclass := classLiteral?_moved h source (.leaf t :: u :: rest)
      simp only [List.map_cons, Tree.moved_leaf] at hwritten huse hrest hclass
      simp only [List.map_cons, Tree.moved_leaf, readValue, hwritten, huse, hrest,
        hclass, Token.isSign_moved]
      split
      · cases readAnnotationUse? source n (.leaf t :: u :: rest) <;>
          simp [ElementValue.moved]
      · split
        · cases readValue source n (u :: rest) <;> simp [ElementValue.moved]
        · split
          · cases readValue source n (u :: rest) <;> simp [ElementValue.moved]
          · cases classLiteral? source (.leaf t :: u :: rest) <;>
              simp [ElementValue.moved]
    | .group left inner right :: u :: rest =>
      simp only [List.map_cons, Tree.moved_group] at hwritten
      simp [readValue, hwritten, ElementValue.moved]
    | .stray t :: rest =>
      simp only [List.map_cons, Tree.moved_stray] at hwritten
      simp [readValue, hwritten, ElementValue.moved]

theorem readArguments_moved {o : Offset} {front : Text}
    (h : o.position = front.length) (source : Text) :
    (n : Nat) → (trees : List Tree) →
    readArguments (front ++ source) n (trees.map (Tree.moved o)) =
      (readArguments source n trees).moved o
  | 0, [] => by simp [readArguments, Arguments.moved]
  | 0, t :: rest => by
    rw [List.map_cons, readArguments, readArguments, Arguments.moved]
    all_goals simp
  | n + 1, trees => by
    have hsingle := readValue_moved h source n trees
    match trees with
    | [] => simp [readArguments, Arguments.moved]
    | .leaf key :: .leaf sign :: rest =>
      have hsplit :=
        splitExpressions_moved o (rest.length + 3) (.leaf key :: .leaf sign :: rest)
      simp only [List.map_cons, Tree.moved_leaf] at hsingle hsplit
      simp only [List.map_cons, Tree.moved_leaf, readArguments, Token.kind_moved,
        Token.isSign_moved, hsingle, hsplit, List.length_map]
      split
      · simp only [Arguments.moved, ElementValue.pairsMoved_eq, List.filterMap_map,
          List.map_filterMap]
        congr 2
        funext piece
        rcases piece with _ | ⟨k | _ | _, _ | ⟨s | _ | _, value⟩⟩ <;> try rfl
        simp [readValue_moved h source n value]
      · simp [Arguments.moved]
    | [.leaf t] | .leaf t :: .group _ _ _ :: _ | .leaf t :: .stray _ :: _ |
        .group _ _ _ :: _
    | .stray _ :: _ =>
      simp_all [readArguments, Arguments.moved]

theorem readAnnotationUse?_moved {o : Offset} {front : Text}
    (h : o.position = front.length) (source : Text) :
    (n : Nat) → (trees : List Tree) →
    readAnnotationUse? (front ++ source) n (trees.map (Tree.moved o)) =
      (readAnnotationUse? source n trees).map fun (a, rest) =>
        (a.moved o, rest.map (Tree.moved o))
  | 0, trees => rfl
  | n + 1, trees => by
    match trees with
    | .leaf sign :: .leaf w :: rest =>
      simp only [List.map_cons, Tree.moved_leaf, readAnnotationUse?, Token.kind_moved,
        Token.isSign_moved, dottedTail_moved, spelled_moved h, between_moved]
      by_cases hname : (sign.isSign "@" && w.kind == .word) = true
      · simp only [hname, ↓reduceIte]
        rcases (dottedTail w rest).2 with _ | ⟨_ | ⟨left, inner, right⟩ | _, rest'⟩
        case cons.group =>
          by_cases hleft : left.isSign "(" = true
          · simp only [List.map_cons, Tree.moved_group, Token.isSign_moved, hleft,
              ↓reduceIte, between_moved, readArguments_moved h source n inner,
              Option.map_some, AnnotationUse.moved]
          · simp only [List.map_cons, Tree.moved_group, Token.isSign_moved, hleft,
              ↓reduceIte, Bool.false_eq_true, AnnotationUse.moved, Arguments.moved,
              Option.map_some]
        all_goals simp [AnnotationUse.moved, Arguments.moved]
      · simp only [hname, ↓reduceIte, Bool.false_eq_true, Option.map_none]
    | [] | [.leaf _] | .leaf _ :: .group _ _ _ :: _ | .leaf _ :: .stray _ :: _ |
        .group _ _ _ :: _
    | .stray _ :: _ =>
      simp [readAnnotationUse?]

end

section

variable {o} {front : Text} (h : o.position = front.length) (source : Text)

include h

/-! ## Modifiers, parameters, declared variables -/

theorem readModifiers_moved (n : Nat) (trees : List Tree) :
    readModifiers (front ++ source) n (trees.map (Tree.moved o)) =
      ((readModifiers source n trees).1.moved o,
        (readModifiers source n trees).2.map (Tree.moved o)) := by
  induction n generalizing trees with
  | zero => simp [readModifiers, Modifiers.moved]
  | succ n ih =>
    rcases trees with _ | ⟨t, rest⟩
    · simp [readModifiers, Modifiers.moved]
    cases t with
    | group | stray => simp [readModifiers, Modifiers.moved]
    | leaf t =>
      have huse := readAnnotationUse?_moved h source n (.leaf t :: rest)
      rw [List.map_cons, Tree.moved_leaf] at huse
      simp only [List.map_cons, Tree.moved_leaf, readModifiers, Token.kind_moved,
        Token.text_moved, huse, ih]
      split
      · rfl
      · cases readAnnotationUse? source n (.leaf t :: rest) <;>
          simp [ih, Modifiers.moved]

theorem readParameter?_moved (n : Nat) (trees : List Tree) :
    readParameter? (front ++ source) n (trees.map (Tree.moved o)) =
      readParameter? source n trees := by
  simp only [readParameter?, readModifiers_moved h, readType?_moved]
  rcases readType? (readModifiers source n trees).2 with
    _ | ⟨⟨first, last⟩, _ | ⟨t | _ | _, rest⟩⟩ <;>
    try rfl
  simp only [Option.map_some, Option.bind_eq_bind, Option.bind_some, List.map_cons,
    Tree.moved_leaf, Token.isSign_moved, Token.kind_moved, Token.text_moved,
    spelled_moved h, skipAnnotations_moved, List.length_map, readDimensions_moved h]
  split
  · rcases skipAnnotations rest.length rest with _ | ⟨_ | _ | _, _⟩ <;> rfl
  · split
    · rcases rest with _ | ⟨_ | _ | _, _⟩ <;> rfl
    · rfl

theorem readParameters_moved (n : Nat) (inner : List Tree) :
    readParameters (front ++ source) n (inner.map (Tree.moved o)) =
      readParameters source n inner := by
  have hsplit := splitParameters_moved o 0 [] inner
  rw [List.map_nil] at hsplit
  rw [readParameters, readParameters, hsplit, List.filterMap_map]
  congr 1
  funext piece
  exact readParameter?_moved h source n piece

omit h in
theorem behindValue_moved (trees : List Tree) :
    behindValue (trees.map (Tree.moved o)) =
      (behindValue trees).map (Tree.moved o) := by
  cases trees with
  | nil => rfl
  | cons t value =>
    simp only [List.map_cons, behindValue, Tree.isSign_moved, untilComma_moved]
    split <;> rfl

theorem readDeclarators?_moved (n : Nat) (trees : List Tree) :
    readDeclarators? (front ++ source) n (trees.map (Tree.moved o)) =
      readDeclarators? source n trees := by
  induction n generalizing trees with
  | zero => rfl
  | succ n ih =>
    rcases trees with _ | ⟨t, rest⟩
    · rfl
    cases t with
    | group | stray => rfl
    | leaf name =>
      simp only [List.map_cons, Tree.moved_leaf, readDeclarators?, Token.kind_moved,
        Token.text_moved, readDimensions_moved h, behindValue_moved]
      split
      · rcases behindValue (readDimensions source rest).2 with _ | ⟨t, _ | ⟨u, more⟩⟩
        · rfl
        · simp
        · have hmore := ih (u :: more)
          rw [List.map_cons] at hmore
          simp [hmore]
      · rfl

/-! ## Declarations -/

omit h in
theorem typeHeader?_moved (trees : List Tree) :
    typeHeader? (trees.map (Tree.moved o)) = typeHeader? trees := by
  match trees with
  | .leaf t :: .leaf name :: rest =>
    simp only [List.map_cons, Tree.moved_leaf, typeHeader?, typeWord?_moved,
      Token.text_moved, Token.isWord_moved, Token.kind_moved]
    cases typeWord? t with
    | some kind => rfl
    | none => cases rest <;> simp
  | [] | [.leaf _] | .leaf _ :: .group _ _ _ :: _ | .leaf _ :: .stray _ :: _ |
      .group _ _ _ :: _
  | .stray _ :: _ =>
    rfl

omit h in
theorem skipTypeParameters_moved (trees : List Tree) :
    skipTypeParameters (trees.map (Tree.moved o)) =
      (skipTypeParameters trees).map (Tree.moved o) := by
  cases trees with
  | nil => rfl
  | cons t rest =>
    simp only [List.map_cons, skipTypeParameters, Tree.isSign_moved, skipAngles_moved]
    split
    · cases skipAngles 1 rest <;> simp [skipAnnotations_moved]
    · rfl

/-- What is read behind modifiers, further behind. -/
def PlainMember.moved (o : Offset) : PlainMember → PlainMember
  | .declaration d => .declaration (d.moved o)
  | .passedOver => .passedOver
  | .malformed => .malformed

section

variable (n : Nat) (kind : TypeKind) (m : Modifiers) (span : Span) (doc : Option Span)

theorem field_moved (typeText : Text) (rest : List Tree) :
    readPlainMember.field (front ++ source) kind (m.moved o) (span.moved o)
      (doc.map (Span.moved o)) typeText
        (rest.map (Tree.moved o)) =
      (readPlainMember.field source kind m span doc typeText rest).moved o := by
  simp only [readPlainMember.field, List.length_map, readDeclarators?_moved h]
  cases readDeclarators? source (rest.length + 1) rest with
  | none => rfl
  | some declarators =>
    have hstatic : (m.moved o).isStatic = m.isStatic := rfl
    simp only [PlainMember.moved, Declaration.moved, hstatic]
    split <;> rfl

theorem fieldOrMethod_moved (trees : List Tree) :
    readPlainMember.fieldOrMethod (front ++ source) n kind (m.moved o) (span.moved o)
      (doc.map (Span.moved o))
        (trees.map (Tree.moved o)) =
      (readPlainMember.fieldOrMethod source n kind m span doc trees).moved o := by
  simp only [readPlainMember.fieldOrMethod, readType?_moved]
  rcases readType? trees with _ | ⟨⟨first, last⟩, rest⟩
  · rfl
  have hfield := field_moved h source kind m span doc (spelled source first last) rest
  simp only [Option.map_some, spelled_moved h]
  rcases rest with _ | ⟨name | _ | _, _ | ⟨_ | ⟨left, inner, right⟩ | _, rest'⟩⟩
  case cons.leaf.cons.group =>
    simp only [List.map_cons, Tree.moved_leaf, Tree.moved_group, Token.isSign_moved,
      Token.text_moved, readDimensions_moved h, readParameters_moved h] at hfield ⊢
    split
    · split
      · rfl
      · rfl
    · exact hfield
  all_goals exact hfield

theorem readPlainMember_moved (trees : List Tree) :
    readPlainMember (front ++ source) n kind (m.moved o) (span.moved o)
      (doc.map (Span.moved o))
        (trees.map (Tree.moved o)) =
      (readPlainMember source n kind m span doc trees).moved o := by
  simp only [readPlainMember, skipTypeParameters_moved]
  have hmember :=
    fieldOrMethod_moved h source n kind m span doc (skipTypeParameters trees)
  generalize skipTypeParameters trees = us at *
  rcases us with _ | ⟨t, us⟩
  · rfl
  -- whatever is no name with parentheses behind it is read as a field or a
  -- method
  have hplain : (∀ name left inner right rest,
      t :: us ≠ .leaf name :: .group left inner right :: rest) →
      (if (t.moved o).isBlock then PlainMember.passedOver
        else readPlainMember.fieldOrMethod (front ++ source) n kind (m.moved o)
          (span.moved o)
          (doc.map (Span.moved o)) ((t :: us).map (Tree.moved o))) =
      (if t.isBlock then PlainMember.passedOver
        else readPlainMember.fieldOrMethod source n kind m span doc (t :: us)).moved
          o := by
    intro _
    rw [hmember, Tree.isBlock_moved]
    split <;> rfl
  rcases t with name | _ | _
  case leaf =>
    rcases us with _ | ⟨_ | ⟨left, inner, right⟩ | _, rest⟩
    case cons.group =>
      simp only [List.map_cons, Tree.moved_leaf, Tree.moved_group, Token.isSign_moved,
        Token.kind_moved, Token.text_moved, readParameters_moved h] at hmember ⊢
      split
      · split <;> rfl
      · split
        · rfl
        · exact hmember
    all_goals exact hplain (by simp)
  all_goals exact hplain (by simp)

end

omit h in
theorem takeItem_moved (inAnnotationType assigned : Bool) (trees : List Tree) :
    takeItem inAnnotationType assigned (trees.map (Tree.moved o)) =
      ((takeItem inAnnotationType assigned trees).1.map (Tree.moved o),
        (takeItem inAnnotationType assigned trees).2.1,
        (takeItem inAnnotationType assigned trees).2.2.map (Tree.moved o)) := by
  induction trees generalizing assigned with
  | nil => rfl
  | cons t rest ih =>
    simp only [List.map_cons, takeItem, Tree.isSign_moved, Tree.isBlock_moved,
      Tree.isWord_moved, ih]
    split <;> rfl

omit h in
theorem behindConstants_moved (trees : List Tree) :
    behindConstants (trees.map (Tree.moved o)) =
      (behindConstants trees).map (Tree.moved o) := by
  induction trees with
  | nil => rfl
  | cons t rest ih =>
    simp only [List.map_cons, behindConstants, Tree.isSign_moved, ih]
    split <;> rfl

omit h in
theorem bodyTrees_moved (kind : TypeKind) (inner : List Tree) :
    bodyTrees kind (inner.map (Tree.moved o)) =
      (bodyTrees kind inner).map (Tree.moved o) := by
  unfold bodyTrees
  split
  · exact behindConstants_moved inner
  · rfl

omit h in
theorem IsItem.moved {inAnnotationType : Bool} {item : List Tree}
    (hitem : IsItem inAnnotationType item) :
    IsItem inAnnotationType (item.map (Tree.moved o)) := by
  rw [IsItem, takeItem_moved, hitem]
  rfl

theorem readPlainItem_moved (n : Nat) (kind : TypeKind) (m : Modifiers) (span : Span)
    (doc : Option Span) (clean behind : List Tree) :
    declarationsIn
      (readPlainItem (front ++ source) n kind (m.moved o) (span.moved o)
        (doc.map (Span.moved o))
        (clean.map (Tree.moved o)) (behind.map (Tree.moved o))).1 =
      (declarationsIn (readPlainItem source n kind m span doc clean behind).1).map
        (Declaration.moved o) := by
  have hread := readPlainMember_moved h source n kind m span doc behind
  unfold readPlainItem
  rw [hread]
  rcases clean with _ | ⟨_, _ | _⟩
  case cons.nil => rfl
  all_goals
    simp only [List.map_cons, List.map_nil]
    cases readPlainMember source n kind m span doc behind <;> rfl

omit h in
theorem filter_isStray_moved (trees : List Tree) :
    (trees.map (Tree.moved o)).filter (!·.isStray) =
      (trees.filter (!·.isStray)).map (Tree.moved o) := by
  rw [List.filter_map]
  refine congrArg _ (congrArg (List.filter · trees) (funext fun t => ?_))
  exact congrArg _ (Tree.isStray_moved o t)

theorem declared_moved {inAnnotationType : Bool} {within : Option TypeKind} {t : Tree}
    {more : List Tree} {members members' : TypeKind → List Tree → List Declaration}
    (hitem : IsItem inAnnotationType (t :: more))
    (hmembers : ∀ kind left inner right, .group left inner right ∈ t :: more →
      members' kind ((bodyTrees kind inner).map (Tree.moved o)) =
        (members kind (bodyTrees kind inner)).map (Declaration.moved o)) :
    declared members' (front ++ source) within (t.moved o) (more.map (Tree.moved o)) =
      (declared members source within t more).map (Declaration.moved o) := by
  obtain ⟨before, u, hsplit, -, hlast⟩ := hitem.exists_last
  have hu : u ∈ t :: more := by rw [hsplit]; simp
  have hlast' : (((t :: more).filter (!·.isStray)).map (Tree.moved o)).getLast? =
      some (u.moved o) := by
    rw [List.getLast?_map, hlast]
    rfl
  have hread : (front ++ source).take (u.last.moved o).stop =
      front ++ source.take u.last.stop := by
    rw [Token.stop_moved, h, Nat.add_comm, List.take_length_add_append]
  have hclean := filter_isStray_moved (o := o) (t :: more)
  have hsizes := Tree.sizes_moved o (t :: more)
  rw [List.map_cons] at hclean hsizes
  simp only [declared, hlast, hlast', Option.map_some, Option.getD_some,
    Tree.last_moved, hread, Tree.first_moved, between_moved, hclean, hsizes,
    readModifiers_moved h, typeHeader?_moved, Token.doc_moved]
  generalize typeHeader? _ = header
  -- a member of the body, or a type whose body is read by the hypothesis
  rcases header with _ | ⟨kind, name⟩
  · cases within with
    | some kind => exact readPlainItem_moved h _ _ _ _ _ _ _ _
    | none => rfl
  rcases u with _ | ⟨left, inner, right⟩ | _
  case some.group =>
    simp only [Tree.moved_group, List.map_cons, List.map_nil, Declaration.moved,
      TypeDecl.moved, bodyTrees_moved, hmembers kind left inner right hu,
      Declaration.allMoved_eq, between_moved]
  all_goals
    simp only [Tree.moved_leaf, Tree.moved_stray]
    cases within with
    | some kind => exact readPlainItem_moved h _ _ _ _ _ _ _ _
    | none => rfl

/-- **Trees are read to the same members wherever they stand**, whatever the
source begins with. -/
theorem declarations_moved (within : Option TypeKind) (trees : List Tree) :
    declarations (front ++ source) within (trees.map (Tree.moved o)) =
      (declarations source within trees).map (Declaration.moved o) := by
  induction within, trees using readInduction with
  | nil within => rfl
  | stray within t trees hstray ih =>
    rw [List.map_cons, declarations_stray (by rwa [Tree.isStray_moved]),
      declarations_stray hstray, ih]
  | unfinished within t trees item rest hstray htake =>
    have htake' := takeItem_moved (o := o) (inAnnotationBody within) false (t :: trees)
    rw [htake, List.map_cons] at htake'
    rw [List.map_cons, declarations_unfinished (by rwa [Tree.isStray_moved]) htake',
      declarations_unfinished hstray htake]
    rfl
  | item within t more trees hstray hitem hbodies ih =>
    have hitem' := hitem.moved (o := o)
    rw [List.map_cons] at hitem'
    rw [List.map_append, List.map_cons,
      declarations_item (by rwa [Tree.isStray_moved]) hitem',
      declarations_item hstray hitem, ih, List.map_append]
    congr 1
    refine declared_moved h source hitem fun kind left inner right hmem => ?_
    exact hbodies kind left inner right hmem

end

end

end Graft.Java
