import Graft.Java.Token
import Graft.Proofs.Code.Relayout

/-!
# What tokens are read from

Tokens are read lexeme by lexeme from what is left of a text, wherever it stands
(`tokensAt`), and nothing but where they stand changes with their place. Reading
passes over a piece of text in front of what follows it (`Gives`): blanks and
comments give no token (`gives_filler`), and pieces add up (`Gives.append`).
Tokens stand one behind the other, and from each of them on, reading goes on as
if it had begun there (`tokens_from`).
-/

namespace Graft.Java

/-! ## Lexemes -/

theorem length_pos_of_mem_longSigns : ∀ sign ∈ longSigns, 0 < sign.length := by decide

theorem lexeme_blank {c : Char} (h : Char.isBlank c = true) (rest : Text) :
    lexeme (c :: rest) = (.blank, 1) := by
  unfold lexeme
  exact if_pos h

/-- A lexeme takes at least one character. -/
theorem lexeme_pos {t : Text} (h : t ≠ []) : 0 < (lexeme t).2 := by
  obtain ⟨c, rest, rfl⟩ := List.exists_cons_of_ne_nil h
  by_cases hc : Char.isBlank c = true
  · rw [lexeme_blank hc]
    exact Nat.one_pos
  · unfold lexeme
    dsimp only
    rw [if_neg hc]
    split
    case h_6 =>
      split
      · exact Nat.succ_pos _
      · split
        · split <;> exact Nat.succ_pos _
        · split
          · next sign hfind =>
            exact length_pos_of_mem_longSigns sign (List.mem_of_find?_eq_some hfind)
          · exact Nat.one_pos
    all_goals exact Nat.succ_pos _

theorem lexeme_lineComment {body : Text} (h : '\n' ∉ body) (rest : Text) :
    lexeme ('/' :: '/' :: (body ++ '\n' :: rest)) =
      (.lineComment, body.length + 2) := by
  have hbody : ∀ c ∈ body, (c != '\n') = true := by
    intro c hc
    rw [bne_iff_ne]
    rintro rfl
    exact h hc
  have hline : (body ++ '\n' :: rest).takeWhile (· != '\n') = body := by
    rw [List.takeWhile_append_of_pos hbody, List.takeWhile_cons_of_neg (by simp),
      List.append_nil]
  have hlexeme : lexeme ('/' :: '/' :: (body ++ '\n' :: rest)) =
      (.lineComment, ((body ++ '\n' :: rest).takeWhile (· != '\n')).length + 2) := rfl
  rw [hlexeme, hline]

theorem blockCommentLength_append {body : Text} (h : ¬ ['*', '/'] <:+: body)
    (rest : Text) :
    blockCommentLength (body ++ '*' :: '/' :: rest) = body.length + 2 := by
  induction body with
  | nil => rfl
  | cons c body ih =>
    rw [List.infix_cons_iff, not_or] at h
    have hnext : ∀ more, c = '*' →
        body ++ '*' :: '/' :: rest = '/' :: more → False := by
      rintro more rfl heq
      cases body with
      | nil => cases heq
      | cons d body =>
        cases heq
        exact h.1 ⟨body, rfl⟩
    rw [List.cons_append, blockCommentLength, ih h.2]
    · rfl
    · exact hnext

theorem lexeme_blockComment {body : Text} (h : ¬ ['*', '/'] <:+: body) (rest : Text) :
    lexeme ('/' :: '*' :: (body ++ '*' :: '/' :: rest)) =
      (.blockComment, body.length + 4) := by
  have hlexeme : lexeme ('/' :: '*' :: (body ++ '*' :: '/' :: rest)) =
      (.blockComment, blockCommentLength (body ++ '*' :: '/' :: rest) + 2) := rfl
  rw [hlexeme, blockCommentLength_append h]

/-- What is neither blank nor a slash begins a token. -/
theorem lexeme_solid {c : Char} (hc : Char.isBlank c = false) (hslash : c ≠ '/')
    (rest : Text) :
    ∃ kind, (lexeme (c :: rest)).1 = .token kind := by
  unfold lexeme
  dsimp only
  rw [if_neg (by simp [hc])]
  split
  case h_1 | h_2 => exact absurd rfl hslash
  case h_6 =>
    split
    · exact ⟨_, rfl⟩
    · split
      · split <;> exact ⟨_, rfl⟩
      · split <;> exact ⟨_, rfl⟩
  all_goals exact ⟨_, rfl⟩

/-! ## Reading from a place -/

/-- What is left behind a lexeme is shorter. -/
theorem length_drop_lexeme_lt {t : Text} (h : t ≠ []) :
    (t.drop (lexeme t).2).length < t.length := by
  have hpos := lexeme_pos h
  have hlength := List.length_pos_iff.mpr h
  rw [List.length_drop]
  omega

/-- The token that a lexeme is, if it is one. -/
def LexemeKind.tokens (kind : LexemeKind) (piece : Text) (position line : Nat)
    (doc : Option Span) :
    List Token :=
  match kind with
  | .token kind => [⟨kind, piece, position, line, doc⟩]
  | _ => []

@[simp] theorem tokensFrom_nil (n position line : Nat) (doc : Option Span) :
    tokensFrom n position line doc [] = [] := by
  cases n <;> rfl

/-- Reading goes on behind the first lexeme; how depends on nothing but the text
and the place. -/
theorem tokensFrom_succ {t : Text} (h : t ≠ []) (position line : Nat)
    (doc : Option Span) :
    ∃ line' doc', ∀ n, tokensFrom (n + 1) position line doc t =
      (lexeme t).1.tokens (t.take (lexeme t).2) position line doc ++
        tokensFrom n (position + (lexeme t).2) line' doc' (t.drop (lexeme t).2) := by
  obtain ⟨c, rest, rfl⟩ := List.exists_cons_of_ne_nil h
  let piece := (c :: rest).take (lexeme (c :: rest)).2
  let behind := position + (lexeme (c :: rest)).2
  cases hkind : (lexeme (c :: rest)).1 with
  | blank | lineComment =>
    refine ⟨line + piece.count '\n', doc, fun n => ?_⟩
    simp only [tokensFrom, hkind]
    rfl
  | blockComment =>
    refine ⟨line + piece.count '\n',
      if ("/**".toList).isPrefixOf piece then some ⟨position, behind, line⟩
      else none, fun n => ?_⟩
    simp only [tokensFrom, hkind]
    rfl
  | token kind =>
    refine ⟨line + piece.count '\n', none, fun n => ?_⟩
    simp only [tokensFrom, hkind]
    rfl

theorem tokensFrom_congr {n m : Nat} {t : Text} (hn : t.length ≤ n) (hm : t.length ≤ m)
    (position line : Nat) (doc : Option Span) :
    tokensFrom n position line doc t = tokensFrom m position line doc t := by
  induction n generalizing m t position line doc with
  | zero =>
    obtain rfl := List.length_eq_zero_iff.mp (Nat.le_zero.mp hn)
    rw [tokensFrom_nil, tokensFrom_nil]
  | succ n ih =>
    by_cases ht : t = []
    · rw [ht, tokensFrom_nil, tokensFrom_nil]
    · have hlength := List.length_pos_iff.mpr ht
      have hdrop := length_drop_lexeme_lt ht
      obtain ⟨m, rfl⟩ : ∃ k, m = k + 1 := Nat.exists_eq_add_one.mpr (by omega)
      obtain ⟨line', doc', hnext⟩ := tokensFrom_succ ht position line doc
      have hrest : tokensFrom n (position + (lexeme t).2) line' doc'
          (t.drop (lexeme t).2) =
          tokensFrom m (position + (lexeme t).2) line' doc' (t.drop (lexeme t).2) :=
        ih (by omega) (by omega) _ _ _
      rw [hnext, hnext, hrest]

/-- The tokens of what is left of a text, which stands at a position. -/
def tokensAt (position line : Nat) (doc : Option Span) (t : Text) : List Token :=
  tokensFrom t.length position line doc t

theorem tokensFrom_eq {n : Nat} {t : Text} (h : t.length ≤ n) (position line : Nat)
    (doc : Option Span) :
    tokensFrom n position line doc t = tokensAt position line doc t :=
  tokensFrom_congr h (Nat.le_refl _) position line doc

theorem tokensAt_lexeme {t : Text} (h : t ≠ []) (position line : Nat)
    (doc : Option Span) :
    ∃ line' doc', tokensAt position line doc t =
      (lexeme t).1.tokens (t.take (lexeme t).2) position line doc ++
        tokensAt (position + (lexeme t).2) line' doc' (t.drop (lexeme t).2) := by
  have hlength := List.length_pos_iff.mpr h
  have hdrop := length_drop_lexeme_lt h
  obtain ⟨n, hn⟩ : ∃ n, t.length = n + 1 := Nat.exists_eq_add_one.mpr hlength
  obtain ⟨line', doc', hnext⟩ := tokensFrom_succ h position line doc
  refine ⟨line', doc', ?_⟩
  rw [tokensAt, hn, hnext, tokensFrom_eq (by omega)]

/-! ## The order of tokens -/

theorem start_le_of_mem {n position line : Nat} {doc : Option Span} {t : Text}
    {tok : Token} (h : tok ∈ tokensFrom n position line doc t) :
    position ≤ tok.start := by
  induction n generalizing t position line doc with
  | zero => cases h
  | succ n ih =>
    by_cases ht : t = []
    · rw [ht, tokensFrom_nil] at h
      cases h
    · obtain ⟨line', doc', hnext⟩ := tokensFrom_succ ht position line doc
      rw [hnext, List.mem_append] at h
      rcases h with hfirst | hlater
      · unfold LexemeKind.tokens at hfirst
        split at hfirst
        · cases List.mem_singleton.mp hfirst
          exact Nat.le_refl _
        · cases hfirst
      · exact Nat.le_trans (Nat.le_add_right _ _) (ih hlater)

/-- From each of the tokens on, reading goes on as if it had begun there, and
every other token stands somewhere else. -/
theorem tokensFrom_from {n position line : Nat} {doc : Option Span} {t : Text}
    {tok : Token} {before behind : List Token} (hn : t.length ≤ n)
    (h : tokensFrom n position line doc t = before ++ tok :: behind) :
    (∀ b ∈ before, b.start < tok.start) ∧
      tok :: behind = tokensAt tok.start tok.line tok.doc
        (t.drop (tok.start - position)) := by
  induction n generalizing t position line doc before with
  | zero =>
    rw [List.length_eq_zero_iff.mp (Nat.le_zero.mp hn), tokensFrom_nil] at h
    simp at h
  | succ n ih =>
    by_cases ht : t = []
    · rw [ht, tokensFrom_nil] at h
      simp at h
    · have hdrop := length_drop_lexeme_lt ht
      have hpos := lexeme_pos ht
      obtain ⟨line', doc', hnext⟩ := tokensFrom_succ ht position line doc
      -- for a token behind the first lexeme, reading has begun again behind
      -- that lexeme
      have hlater : ∀ before',
          tokensFrom n (position + (lexeme t).2) line' doc' (t.drop (lexeme t).2) =
            before' ++ tok :: behind →
          position + (lexeme t).2 ≤ tok.start ∧ (∀ b ∈ before', b.start < tok.start) ∧
            tok :: behind = tokensAt tok.start tok.line tok.doc
              (t.drop (tok.start - position)) := by
        intro before' hrest
        have hstart : position + (lexeme t).2 ≤ tok.start :=
          start_le_of_mem (hrest ▸ List.mem_append_right _ List.mem_cons_self)
        obtain ⟨hbefore, hfrom⟩ := ih (by omega) hrest
        refine ⟨hstart, hbefore, ?_⟩
        rw [hfrom, List.drop_drop]
        congr 2
        omega
      rw [hnext] at h
      cases hkind : (lexeme t).1 with
      | blank | lineComment | blockComment =>
        rw [hkind] at h
        exact (hlater before h).2
      | token kind =>
        have hwhole := tokensFrom_eq hn position line doc
        rw [hnext, hkind] at hwhole
        rw [hkind] at h
        cases before with
        | nil =>
          obtain ⟨rfl, rfl⟩ := List.cons.inj h
          refine ⟨List.forall_mem_nil _, ?_⟩
          rw [Nat.sub_self, List.drop_zero]
          exact hwhole
        | cons b before =>
          obtain ⟨rfl, hrest⟩ := List.cons.inj h
          obtain ⟨hstart, hbefore, hfrom⟩ := hlater before hrest
          refine ⟨List.forall_mem_cons.mpr ⟨?_, hbefore⟩, hfrom⟩
          show position < tok.start
          omega

/-- Tokens stand one behind the other, and from each of them on, the tokens are
those of what is left of the text there. -/
theorem tokens_from {source : Text} {tok : Token} {before behind : List Token}
    (h : tokens source = before ++ tok :: behind) :
    (∀ b ∈ before, b.start < tok.start) ∧
      tok :: behind = tokensAt tok.start tok.line tok.doc (source.drop tok.start) := by
  unfold tokens at h
  split at h
  · next rest =>
    obtain ⟨hbefore, hfrom⟩ := tokensFrom_from (Nat.le_refl _) h
    have hstart : 1 ≤ tok.start :=
      start_le_of_mem (h ▸ List.mem_append_right _ List.mem_cons_self)
    obtain ⟨k, hk⟩ := Nat.exists_eq_add_of_le' hstart
    refine ⟨hbefore, ?_⟩
    rw [hfrom, hk, List.drop_succ_cons, Nat.add_sub_cancel]
  · exact tokensFrom_from (Nat.le_refl _) h

/-- Behind its first token, all tokens of a text stand further behind. -/
theorem start_lt_of_mem {tok b : Token} {position line : Nat} {doc : Option Span}
    {t : Text} {behind : List Token}
    (h : tokensAt position line doc t = tok :: behind) (hb : b ∈ behind) :
    tok.start < b.start := by
  obtain ⟨before, behind', rfl⟩ := List.append_of_mem hb
  have hsplit : tokensAt position line doc t = (tok :: before) ++ b :: behind' := h
  exact (tokensFrom_from (Nat.le_refl _) hsplit).1 tok List.mem_cons_self

/-! ## Pieces of a text -/

/-- Read at a position, in front of `behind`, a piece of text gives tokens of
which something holds. -/
def Gives (position : Nat) (piece behind : Text) (holds : List Token → Prop) : Prop :=
  ∀ line doc, ∃ tokens line' doc', holds tokens ∧
    tokensAt position line doc (piece ++ behind) =
      tokens ++ tokensAt (position + piece.length) line' doc' behind

/-- In front of what follows it, a piece of text is read as one lexeme. -/
def IsLexeme (kind : LexemeKind) (piece behind : Text) : Prop :=
  piece ≠ [] ∧ lexeme (piece ++ behind) = (kind, piece.length)

instance (kind : LexemeKind) (piece behind : Text) :
    Decidable (IsLexeme kind piece behind) :=
  inferInstanceAs (Decidable (_ ∧ _))

namespace Gives

variable {position : Nat} {piece more behind : Text}
    {holds holds' both : List Token → Prop}

theorem nil (position : Nat) (behind : Text) (h : holds []) :
    Gives position [] behind holds :=
  fun line doc => ⟨[], line, doc, h, rfl⟩

/-- Pieces behind one another give their tokens behind one another. -/
theorem append (h : Gives position piece (more ++ behind) holds)
    (h' : Gives (position + piece.length) more behind holds')
    (hboth : ∀ tokens tokens', holds tokens → holds' tokens' →
      both (tokens ++ tokens')) :
    Gives position (piece ++ more) behind both := by
  intro line doc
  obtain ⟨tokens, line', doc', hholds, hfirst⟩ := h line doc
  obtain ⟨tokens', line'', doc'', hholds', hsecond⟩ := h' line' doc'
  refine ⟨tokens ++ tokens', line'', doc'', hboth _ _ hholds hholds', ?_⟩
  rw [List.append_assoc, hfirst, hsecond, List.append_assoc, List.length_append,
    Nat.add_assoc]

theorem followed (h : Gives position piece (more ++ behind) holds)
    (h' : Gives (position + piece.length) more behind holds') :
    Gives position (piece ++ more) behind fun tokens =>
      ∃ first second, tokens = first ++ second ∧ holds first ∧ holds' second :=
  h.append h' fun first second hfirst hsecond => ⟨first, second, rfl, hfirst, hsecond⟩

theorem mono (h : Gives position piece behind holds)
    (himp : ∀ tokens, holds tokens → holds' tokens) :
    Gives position piece behind holds' := by
  intro line doc
  obtain ⟨tokens, line', doc', hholds, hread⟩ := h line doc
  exact ⟨tokens, line', doc', himp tokens hholds, hread⟩

theorem lexeme {kind : LexemeKind} (h : IsLexeme kind piece behind) (position : Nat) :
    Gives position piece behind fun tokens =>
      ∃ line doc, tokens = kind.tokens piece position line doc := by
  intro line doc
  have hne : piece ++ behind ≠ [] := List.append_ne_nil_of_left_ne_nil h.1 _
  obtain ⟨line', doc', hread⟩ := tokensAt_lexeme hne position line doc
  rw [h.2, List.take_left, List.drop_left] at hread
  exact ⟨_, line', doc', ⟨line, doc, rfl⟩, hread⟩

end Gives

/-- Blanks and comments give no tokens. -/
theorem gives_filler {filler : Text} (h : Code.Filler filler) (position : Nat)
    (behind : Text) :
    Gives position filler behind (· = []) := by
  -- a blank, a line comment with its break, or a block comment, and then the
  -- rest
  induction h generalizing position with
  | nil => exact .nil position behind rfl
  | @blank c rest hc _ ih =>
    have hblank : IsLexeme .blank [c] (rest ++ behind) :=
      ⟨List.cons_ne_nil c [], lexeme_blank hc _⟩
    refine Gives.append (Gives.lexeme hblank position) (ih _) ?_
    rintro _ _ ⟨line, doc, rfl⟩ rfl
    rfl
  | @lineComment body rest hbody _ ih =>
    have hcomment : IsLexeme .lineComment ('/' :: '/' :: body)
        ('\n' :: (rest ++ behind)) :=
      ⟨List.cons_ne_nil _ _, lexeme_lineComment hbody _⟩
    have hbreak : IsLexeme .blank ['\n'] (rest ++ behind) :=
      ⟨List.cons_ne_nil _ _, lexeme_blank (by decide) _⟩
    have hrest : Gives (position + ('/' :: '/' :: body).length) (['\n'] ++ rest)
        behind (· = []) := by
      refine Gives.append (Gives.lexeme hbreak _) (ih _) ?_
      rintro _ _ ⟨line, doc, rfl⟩ rfl
      rfl
    refine Gives.append (Gives.lexeme hcomment position) hrest ?_
    rintro _ _ ⟨line, doc, rfl⟩ rfl
    rfl
  | @blockComment body rest hend _ ih =>
    have hcomment : IsLexeme .blockComment ('/' :: '*' :: (body ++ ['*', '/']))
        (rest ++ behind) := by
      refine ⟨List.cons_ne_nil _ _, ?_⟩
      simpa using lexeme_blockComment hend (rest ++ behind)
    have hgives : Gives position ('/' :: '*' :: (body ++ ['*', '/']) ++ rest) behind
        (· = []) := by
      refine Gives.append (Gives.lexeme hcomment position) (ih _) ?_
      rintro _ _ ⟨line, doc, rfl⟩ rfl
      rfl
    simpa using hgives

/-- Behind blanks and comments, reading gives the same. -/
theorem Gives.skip {filler more behind : Text} {position : Nat}
    {holds : List Token → Prop} (h : Code.Filler filler)
    (h' : Gives (position + filler.length) more behind holds) :
    Gives position (filler ++ more) behind holds := by
  refine Gives.append (gives_filler h position _) h' ?_
  rintro _ tokens rfl hmore
  exact hmore

end Graft.Java
