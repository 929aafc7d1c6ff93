import Graft.Proofs.Code.Layout

/-!
# Changes of layout and comments

The changes that leave the structure of code alone: its lines are indented anew,
or blanks and whole comments between its words give way to others. Any number of
such changes keeps the normalized code.
-/

namespace Graft.Code

/-- Blanks and whole comments. -/
inductive Filler : Text → Prop
  | nil : Filler []
  | blank {c : Char} {rest : Text} (blank : Char.isBlank c = true)
      (more : Filler rest) :
      Filler (c :: rest)
  | lineComment {body rest : Text} (inLine : '\n' ∉ body) (more : Filler rest) :
      Filler ('/' :: '/' :: (body ++ '\n' :: rest))
  | blockComment {body rest : Text} (noEnd : ¬ ['*', '/'] <:+: body)
      (more : Filler rest) :
      Filler ('/' :: '*' :: (body ++ '*' :: '/' :: rest))

/-- A text does not turn a slash before it into the start of a comment. -/
def OpensNoComment (t : Text) : Prop := t.head? ≠ some '/' ∧ t.head? ≠ some '*'

/-- One code comes from another by changes of layout and comments
outside literals. -/
inductive Relaid : Text → Text → Prop
  | refl (t : Text) : Relaid t t
  /-- Lines get other blanks at their ends. -/
  | indents {lines lines' : List Text}
      (same : lines.map Text.trim = lines'.map Text.trim)
      (closed : Mode.code.ClosesLines lines) :
      Relaid (Text.join ['\n'] lines) (Text.join ['\n'] lines')
  /-- Blanks and comments at a place outside comments and literals
  give way to others. -/
  | refills {front filler filler' back : Text} (outside : Mode.code.after front = .code)
      (old : Filler filler) (new : Filler filler') :
      Relaid (front ++ filler ++ back) (front ++ filler' ++ back)
  /-- The same behind a slash, which must not become part of a comment. -/
  | refillsBehindSlash {front filler filler' back : Text}
      (slash : Mode.code.after front = .slash) (old : Filler filler)
      (new : Filler filler') (opensOld : OpensNoComment (filler ++ back))
      (opensNew : OpensNoComment (filler' ++ back)) :
      Relaid (front ++ filler ++ back) (front ++ filler' ++ back)
  | trans {s t u : Text} (first : Relaid s t) (second : Relaid t u) : Relaid s u

/-! ## Fillers hold nothing significant -/

theorem lineComment_body {body : Text} (h : '\n' ∉ body) :
    Mode.lineComment.after body = .lineComment ∧
    Mode.lineComment.emitted body = [] := by
  induction body with
  | nil => exact ⟨rfl, rfl⟩
  | cons c rest ih =>
    rw [List.mem_cons, not_or] at h
    obtain ⟨hafter, hemitted⟩ := ih h.2
    have hnext : Mode.lineComment.next c = .lineComment := if_neg (Ne.symm h.1)
    rw [Mode.after_cons, Mode.emitted_cons, hnext, hafter, hemitted]
    exact ⟨rfl, rfl⟩

/-- A block comment goes on as long as no end of it is read. -/
theorem blockComment_body {star : Bool} {body : Text} (h : ¬ ['*', '/'] <:+: body)
    (hstar : star = true → body.head? ≠ some '/') :
    (∃ star', (Mode.blockComment star).after body = .blockComment star') ∧
      (Mode.blockComment star).emitted body = [] := by
  induction body generalizing star with
  | nil => exact ⟨⟨star, rfl⟩, rfl⟩
  | cons c rest ih =>
    have hnext : (Mode.blockComment star).next c = .blockComment (c = '*') := by
      apply if_neg
      rintro ⟨hs, rfl⟩
      exact hstar hs rfl
    rw [Mode.after_cons, Mode.emitted_cons, hnext]
    apply ih
    · exact fun hrest => h (hrest.trans (List.suffix_cons c rest).isInfix)
    · intro hc hhead
      obtain rfl : c = '*' := by simpa using hc
      obtain ⟨tail, rfl⟩ := List.head?_eq_some_iff.mp hhead
      exact h ⟨[], tail, rfl⟩

/-- Behind blanks and whole comments, a reader is in code again and
has found nothing. -/
theorem Filler.reads {t : Text} (h : Filler t) :
    Mode.code.after t = .code ∧ Mode.code.emitted t = [] := by
  induction h with
  | nil => exact ⟨rfl, rfl⟩
  | @blank c rest hc _ ih =>
    have hnext : Mode.code.next c = .code := Mode.nextOfCode_of_blank hc
    have hemit : Mode.code.emit c = [] := Mode.emitOfCode_of_blank hc
    rw [Mode.after_cons, Mode.emitted_cons, hnext, hemit]
    exact ih
  | @lineComment body rest hbody _ ih =>
    obtain ⟨hafter, hemitted⟩ := lineComment_body hbody
    have hopen : (Mode.code.next '/').next '/' = .lineComment := rfl
    simp only [Mode.after_cons, Mode.emitted_cons, Mode.after_append,
      Mode.emitted_append, hopen, hafter, hemitted]
    exact ih
  | @blockComment body rest hbody _ ih =>
    have hhead : false = true → body.head? ≠ some '/' := nofun
    obtain ⟨⟨star, hafter⟩, hemitted⟩ := blockComment_body hbody hhead
    have hopen : (Mode.code.next '/').next '*' = .blockComment false := rfl
    have hend : ((Mode.blockComment star).next '*').next '/' = .code := by
      cases star <;> rfl
    simp only [Mode.after_cons, Mode.emitted_cons, Mode.after_append,
      Mode.emitted_append, hopen, hafter, hemitted, hend]
    cases star <;> exact ih

theorem filler_of_blank {t : Text} (h : Text.isBlank t = true) : Filler t := by
  induction t with
  | nil => exact .nil
  | cons c rest ih =>
    rw [Text.isBlank_cons, Bool.and_eq_true] at h
    exact .blank h.1 (ih h.2)

/-- Fillers behind one another are a filler. -/
theorem Filler.append {s t : Text} (hs : Filler s) (ht : Filler t) :
    Filler (s ++ t) := by
  induction hs with
  | nil => exact ht
  | blank hc _ ih => exact .blank hc ih
  | lineComment hbody _ ih =>
    simp only [List.cons_append, List.append_assoc]
    exact .lineComment hbody ih
  | blockComment hbody _ ih =>
    simp only [List.cons_append, List.append_assoc]
    exact .blockComment hbody ih

theorem significant_slash {t : Text} (h : OpensNoComment t) :
    Mode.slash.significant t = '/' :: Mode.code.significant t := by
  cases t with
  | nil => rfl
  | cons c rest =>
    have hslash : c ≠ '/' := fun hc => h.1 (by rw [hc]; rfl)
    have hstar : c ≠ '*' := fun hc => h.2 (by rw [hc]; rfl)
    rw [Mode.significant, Mode.next, if_neg hslash, if_neg hstar, Mode.emit,
      if_neg (by simp [hslash, hstar])]
    rfl

theorem normalize_refill {front filler filler' back : Text}
    (hback : (Mode.code.after front).significant (filler ++ back) =
      (Mode.code.after front).significant (filler' ++ back)) :
    normalize (front ++ filler ++ back) = normalize (front ++ filler' ++ back) := by
  rw [normalize, normalize, List.append_assoc, List.append_assoc,
    Mode.significant_append, hback, ← Mode.significant_append]

/-- Code holds the same behind either of two fillers. -/
theorem Filler.significant_append {t : Text} (h : Filler t) (back : Text) :
    Mode.code.significant (t ++ back) = Mode.code.significant back := by
  rw [Mode.significant_append, h.reads.1, h.reads.2, List.nil_append]

/-- **Changes of layout and comments** keep the normalized code. -/
theorem Relaid.normalize_eq {s t : Text} (h : Relaid s t) :
    normalize s = normalize t := by
  induction h with
  | refl t => rfl
  | indents same closed =>
    obtain ⟨hclosed, heq, -⟩ := Mode.lines_congr isLineStart_code same closed
    exact (Mode.significant_join isLineStart_code closed).trans
      (heq.trans (Mode.significant_join isLineStart_code hclosed).symm)
  | refills outside old new =>
    apply normalize_refill
    rw [outside, old.significant_append, new.significant_append]
  | refillsBehindSlash slash old new opensOld opensNew =>
    apply normalize_refill
    rw [slash, significant_slash opensOld, significant_slash opensNew,
      old.significant_append, new.significant_append]
  | trans _ _ ih₁ ih₂ => exact ih₁.trans ih₂

end Graft.Code
