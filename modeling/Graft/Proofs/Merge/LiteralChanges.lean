import Graft.Proofs.Code.Literals
import Graft.Proofs.Code.Stamp
import Graft.Proofs.Merge.Changes
import Graft.Proofs.Text.Slice

/-!
# Changes inside literals

A candidate that differs from a generated member in one literal has another
structure and replaces it (`changed_literal_is_replaced`). Where the literal is
a text block, this rests on its quotes being escaped: a change between bare
quotes can go unseen, and the member is taken for unchanged
(`quoted_blank_goes_unseen`).
-/

namespace Graft.Code

/-- Two beginnings of a member that differ in the hash that its marker
records at most. -/
inductive SameUpToHash : Text → Text → Prop
  | refl (t : Text) : SameUpToHash t t
  | marked {lead : Text} (boundary : AtBoundary lead) (old new : Int32) (rest : Text) :
      SameUpToHash (lead ++ mark old ++ rest) (lead ++ mark new ++ rest)

theorem atBoundary_mark {lead : Text} (boundary : AtBoundary lead) (hash : Int32) :
    AtBoundary (lead ++ mark hash) := by
  rw [atBoundary_iff, Mode.after_append, (atBoundary_iff lead).mp boundary, after_mark]

/-- Normalized, a marker ends with the parenthesis behind its hash. -/
theorem normalize_marked {lead : Text} (boundary : AtBoundary lead) (hash : Int32)
    (rest : Text) :
    normalize (lead ++ mark hash ++ rest) =
      normalize lead ++ "@Generated(hash=" ++
        (showHash hash ++ ')' :: normalize rest) := by
  have hmark : AtBoundary (mark hash) := @atBoundary_mark [] (by decide) hash
  rw [(atBoundary_mark boundary hash).normalize_append, boundary.normalize_append,
    hmark.normalize_eq, emitted_mark]
  simp

namespace SameUpToHash

variable {p p' : Text} (same : SameUpToHash p p')

include same

theorem atBoundary (boundary : AtBoundary p) : AtBoundary p' := by
  cases same with
  | refl => exact boundary
  | @marked lead hlead old new rest =>
    have hread : ∀ hash,
        Mode.code.after (lead ++ mark hash ++ rest) = Mode.code.after rest := by
      intro hash
      rw [Mode.after_append, (atBoundary_iff _).mp (atBoundary_mark hlead hash)]
    rw [atBoundary_iff, hread] at boundary ⊢
    exact boundary

/-- What follows the beginning of a member can be told from the whole. -/
theorem cancel_left {x x' : Text}
    (heq : normalize p ++ x = normalize p' ++ x') : x = x' := by
  cases same with
  | refl => exact List.append_cancel_left heq
  | @marked lead hlead old new rest =>
    have hhash : ∀ hash, (showHash hash).all (· != ')') = true := by
      intro hash
      rw [List.all_eq_true]
      intro c hc
      rw [bne_iff_ne]
      rintro rfl
      rcases mem_showHash hc with h | h <;> revert h <;> decide
    rw [normalize_marked hlead, normalize_marked hlead, List.append_assoc _ _ x,
      List.append_assoc _ _ x'] at heq
    have hhashes := List.append_cancel_left heq
    rw [List.append_assoc, List.append_assoc] at hhashes
    rw [List.cons_append, List.cons_append,
      Text.front_inj (hhash old) (hhash new) (by simp) (by simp)] at hhashes
    exact List.append_cancel_left (List.cons_inj_right _ |>.mp hhashes.2)

end SameUpToHash

/-- Texts that differ in a copied piece are told apart. -/
theorem sameStructure_of_different {p p' literal literal' : Text}
    (boundary : AtBoundary p) (same : SameUpToHash p p') (copied : IsCopied literal)
    (copied' : IsCopied literal') (different : literal ≠ literal') (s : Text) :
    sameStructure (p ++ literal ++ s) (p' ++ literal' ++ s) = false := by
  rw [sameStructure, beq_eq_false_iff_ne, normalize_literal boundary copied,
    normalize_literal (same.atBoundary boundary) copied', List.append_assoc,
    List.append_assoc]
  intro heq
  exact different (List.append_cancel_right (same.cancel_left heq))

end Graft.Code

namespace Graft.Merge

open Java Entity Code

/-- A candidate for a signature is the first to be held against a
generated member. -/
structure HeldAgainst (s : Session) (signature : Signature) (index : Nat)
    (m : Member) : Prop where
  free : s.isKept = false
  found : s.findMember? signature = some (index, m)
  generated : m.provenance.isGenerated = true
  first : m.refreshed = false

/-- A candidate of another structure replaces the member. -/
theorem HeldAgainst.define_eq {s : Session} {signature : Signature} {index : Nat}
    {m : Member} (h : HeldAgainst s signature index m) {code : Text}
    (hagrees : s.agrees m (ensureStamped code) = false) :
    s.define signature code = .ok (s.apply (.rewrite index
      { m with
        refreshed := true,
        replacement := some (s.laidOut (ensureStamped code)) }),
      .replaced) := by
  have hrefresh : s.defineExisting index m (ensureStamped code) =
      .ok (s.refresh index m (ensureStamped code)) := by
    have hgenerated := h.generated
    rw [Session.defineExisting, if_neg (by simp [h.first])]
    cases hprovenance : m.provenance with
    | unmarked =>
      rw [hprovenance] at hgenerated
      cases hgenerated
    | keep =>
      rw [hprovenance] at hgenerated
      cases hgenerated
    | generated hash => rfl
  rw [Session.define, if_neg (by simp [h.free]), h.found]
  dsimp only
  rw [hrefresh, Session.refresh, hagrees, Bool.and_false, if_neg (by decide)]
  rfl

/-- **A change inside a literal is seen.** Code that differs in one literal is
normalized differently, and a candidate that differs from a generated member in
a literal, and in its recorded hash, its layout and its comments at most,
replaces the member. Text blocks have to escape their quotes. -/
theorem changed_literal_is_replaced {p literal literal' : Text}
    (boundary : AtBoundary p) (complete : IsLiteral literal)
    (complete' : IsLiteral literal')
    (escaped : IsTextBlock literal → EscapesQuotes literal)
    (escaped' : IsTextBlock literal' → EscapesQuotes literal')
    (different : literal ≠ literal') (s : Text) :
    normalize (p ++ literal ++ s) ≠ normalize (p ++ literal' ++ s) ∧
    sameStructure (p ++ literal ++ s) (p ++ literal' ++ s) = false ∧
    ∀ (session : Session) (signature : Signature) (index : Nat) (m : Member)
      (code p' : Text), HeldAgainst session signature index m → SameUpToHash p p' →
      normalize (session.source.slice m.extent.start m.extent.stop) =
        normalize (p ++ literal ++ s) →
      normalize (ensureStamped code) = normalize (p' ++ literal' ++ s) →
        session.define signature code = .ok (session.apply (.rewrite index
          { m with
            refreshed := true,
            replacement := some (session.laidOut (ensureStamped code)) }),
          .replaced) := by
  have copied := complete.isCopied escaped
  have copied' := complete'.isCopied escaped'
  have hsame := sameStructure_of_different boundary (.refl p) copied copied' different s
  refine ⟨?_, hsame, ?_⟩
  · rwa [sameStructure, beq_eq_false_iff_ne] at hsame
  · intro session signature index m code p' held same hmember hcode
    apply held.define_eq
    rw [Session.agrees, sameStructure, hmember, hcode]
    exact sameStructure_of_different boundary same copied copied' different s

namespace LiteralSample

/-- A class with a generated field that holds a literal. -/
def source (literal : Text) : Text :=
  "class A \x7b\n    @Generated(hash = 7)\n    String s = " ++ literal ++ ";\n\x7d\n"

/-- A session over the class. -/
def session (literal : Text) : Session :=
  let unit := CompilationUnit.read (source literal)
  Session.ofType (source literal) "A" unit unit.types.head! 1 {}

/-- What stands in front of the literal in a candidate for the field. -/
def front (hash : Int32) : Text := mark hash ++ " String s = "

/-- A literal with the sign of a comment and a quote in it. -/
def slashes : Text := "\"// a \\\" b\""

/-- A text block with escaped quotes in it. -/
def block : Text := "\"\"\" \n  /* \\\"a b\\\" */\n  \"\"\""

end LiteralSample

/-- The field of the sample is replaced when its literal gives way
to a text block. -/
theorem changed_literal_is_replaced_sample :
    IsString LiteralSample.slashes ∧ IsTextBlock LiteralSample.block ∧
    EscapesQuotes LiteralSample.block ∧ LiteralSample.slashes ≠ LiteralSample.block ∧
    ((LiteralSample.session LiteralSample.slashes).define (.field "s")
      (LiteralSample.front 8 ++ LiteralSample.block ++ ";")).map Prod.snd =
        .ok .replaced := by
  have string : IsString LiteralSample.slashes := ⟨"// a \\\" b", by decide +kernel⟩
  have block : IsTextBlock LiteralSample.block :=
    ⟨[' '], '\n', "  /* \\\"a b\\\" */\n  \"\"\"", rfl, by simp,
      .inl rfl, by decide +kernel⟩
  have escapes : EscapesQuotes LiteralSample.block :=
    ⟨" \n  /* \\\"a b\\\" */\n  ", by decide +kernel⟩
  have different : LiteralSample.slashes ≠ LiteralSample.block := by decide +kernel
  have noBlock : ¬ IsTextBlock LiteralSample.slashes := by
    rintro ⟨blanks, lineBreak, content, heq, -⟩
    have hsecond : LiteralSample.slashes[1]? = some '/' := by decide +kernel
    rw [heq] at hsecond
    exact absurd hsecond (show ¬ some '"' = some '/' by decide)
  have boundary : AtBoundary (LiteralSample.front 7) := by decide +kernel
  have same : SameUpToHash (LiteralSample.front 7) (LiteralSample.front 8) :=
    @SameUpToHash.marked [] (by decide) 7 8 " String s = "
  have hat : ∀ {ms : List Member}, ms.isEmpty = false → ms[0]? = some ms.head! := by
    intro ms hne
    cases ms with
    | nil => cases hne
    | cons m rest => rfl
  have found : (LiteralSample.session LiteralSample.slashes).Finds (.field "s") 0
      (LiteralSample.session LiteralSample.slashes).members.head! :=
    { first := by decide +kernel
      at_ := hat (by decide +kernel)
      key := by decide +kernel }
  have held : HeldAgainst (LiteralSample.session LiteralSample.slashes) (.field "s") 0
      (LiteralSample.session LiteralSample.slashes).members.head! :=
    { free := by decide +kernel
      found := Session.finds_iff.mpr found
      generated := by decide +kernel
      first := by decide +kernel }
  obtain ⟨-, -, hreplaced⟩ :=
    changed_literal_is_replaced boundary (.inl string) (.inr (.inr block))
      (fun h => absurd h noBlock) (fun _ => escapes) different ";"
  refine ⟨string, block, escapes, different, ?_⟩
  have hdefine := hreplaced
    _ _ _ _ (LiteralSample.front 8 ++ LiteralSample.block ++ ";") _ held same
    (by decide +kernel) (by decide +kernel)
  rw [hdefine, Except.map]

/-- **A blank between bare quotes goes unseen.** Two text blocks that differ in
it are taken for the same, and a candidate with the one does not replace a
member with the other. -/
theorem quoted_blank_goes_unseen :
    IsTextBlock quotingBlock ∧ IsTextBlock quotingBlock' ∧
    quotingBlock ≠ quotingBlock' ∧
    normalize ("String s = " ++ quotingBlock ++ ";") =
      normalize ("String s = " ++ quotingBlock' ++ ";") ∧
    sameStructure ("String s = " ++ quotingBlock ++ ";")
      ("String s = " ++ quotingBlock' ++ ";") = true ∧
    ((LiteralSample.session quotingBlock).define (.field "s")
      (LiteralSample.front 7 ++ quotingBlock' ++ ";")).map Prod.snd =
        .ok .unchanged := by
  refine ⟨isTextBlock_quotingBlock.1, isTextBlock_quotingBlock.2, by decide +kernel⟩

end Graft.Merge
