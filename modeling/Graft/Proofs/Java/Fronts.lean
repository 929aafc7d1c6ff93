import Graft.Proofs.Java.Annotations
import Graft.Proofs.Java.Items

/-!
# Declarations behind their annotations

Where a declaration of a source begins, a run of annotations may stand in front
of it. Whatever the source holds around the declaration, and however deep the
declaration is nested, its annotations are then those of the run, followed by
others that stand further behind (`annotations_of_front`).
-/

namespace Graft.Java

/-- What may follow a run of annotations: behind comments, if there are any,
something that neither goes on with the name of the last one nor begins
arguments of it. -/
def EndsFront (t : Text) : Prop :=
  ∃ filler c rest, t = filler ++ c :: rest ∧ Code.Filler filler ∧
    Char.isBlank c = false ∧ c ≠ '/' ∧
    c ≠ '.' ∧ isBracket [c] = false

theorem EndsFront.append {t : Text} (h : EndsFront t) (u : Text) :
    EndsFront (t ++ u) := by
  obtain ⟨filler, c, rest, rfl, hfiller, hc⟩ := h
  exact ⟨filler, c, rest ++ u, by simp, hfiller, hc⟩

/-- What follows the annotations begins with a token behind the comments. -/
theorem EndsFront.exists_token {t : Text} (h : EndsFront t) (position line : Nat)
    (doc : Option Span) :
    ∃ (z : Token) (rest : List Token), tokensAt position line doc t = z :: rest ∧
      position ≤ z.start ∧
      closingOf? z = none ∧ isClosing z = false ∧ z.isSign "." = false := by
  obtain ⟨filler, c, rest, rfl, hfiller, hc, hslash, hdot, hbracket⟩ := h
  obtain ⟨_, line', doc', rfl, hskip⟩ :=
    gives_filler hfiller position (c :: rest) line doc
  obtain ⟨kind, hkind⟩ := lexeme_solid hc hslash rest
  have hpos := lexeme_pos (List.cons_ne_nil c rest)
  obtain ⟨line'', doc'', hread⟩ :=
    tokensAt_lexeme (List.cons_ne_nil c rest) (position + filler.length) line' doc'
  obtain ⟨k, hk⟩ : ∃ k, (lexeme (c :: rest)).2 = k + 1 := Nat.exists_eq_add_one.mpr hpos
  rw [hkind, hk, List.take_succ_cons] at hread
  have hplain := plain_of_not_isBracket
    (t := ⟨kind, c :: rest.take k, position + filler.length, line', doc'⟩)
      (isBracket_cons hbracket _)
  refine ⟨_, _, hskip.trans hread, Nat.le_add_right _ _, hplain.1, hplain.2, ?_⟩
  simp [Token.isSign, hdot]

/-- The trees of an item that annotations stand in front of: the annotations,
and what follows them, without the strays. -/
theorem ReadFrom.exists_clean {source : Text} {d : Declaration}
    {trees more : List Tree} {z : Token} {stop : Nat}
    (h : ReadFrom source d (trees ++ .leaf z :: more))
    (hpasses : ∀ t ∈ trees, t.Passes) (hz : stop ≤ z.stop)
    (hmore : ∀ t ∈ more, stop ≤ t.last.stop) :
    ∃ n rest, stop ≤ d.span.stop ∧ trees.length + 1 ≤ n ∧ d.modifiers.annotations =
      (readModifiers (source.take d.span.stop) (n + 1)
        (trees ++ .leaf z :: rest)).1.annotations := by
  obtain ⟨inAnnotationType, first, hspan, hannotations⟩ := h.exists_item
  obtain ⟨assigned, htake⟩ :=
    takeItem_passing (fun t ht => ⟨(hpasses t ht).1, (hpasses t ht).2.1⟩)
      inAnnotationType false (.leaf z :: more)
  obtain ⟨item, hitem, hwithin⟩ :=
    takeItem_cons inAnnotationType assigned (.leaf z) more
  rw [htake, hitem] at hspan hannotations
  -- the trees of the annotations are none of those that reading drops
  have hclean : (trees ++ .leaf z :: item).filter (!·.isStray) =
      trees ++ .leaf z :: item.filter (!·.isStray) := by
    rw [List.filter_append, List.filter_cons_of_pos rfl, List.filter_eq_self.mpr]
    intro t ht
    rw [(hpasses t ht).2.2]
    rfl
  dsimp only at hspan hannotations
  rw [hclean] at hspan hannotations
  have hlast : ∃ y ∈ .leaf z :: item.filter (!·.isStray),
      (trees ++ .leaf z :: item.filter (!·.isStray)).getLast? = some y := by
    have hne : .leaf z :: item.filter (!·.isStray) ≠ [] := List.cons_ne_nil _ _
    refine ⟨_, List.getLast_mem hne, ?_⟩
    rw [List.getLast?_append, List.getLast?_eq_some_getLast hne, Option.some_or]
  obtain ⟨y, hy, hlast⟩ := hlast
  have hends : ∀ t ∈ .leaf z :: item.filter (!·.isStray), stop ≤ t.last.stop :=
    List.forall_mem_cons.mpr
      ⟨hz, fun t ht => hmore t (hwithin.mem (List.mem_filter.mp ht).1)⟩
  refine ⟨_, _, ?_, ?_, hannotations⟩
  · rw [hspan, hlast]
    exact hends y hy
  · have hsizes := length_le_sizes (trees ++ .leaf z :: item)
    rw [List.length_append, List.length_cons] at hsizes
    omega

/-- The trees of annotations, wherever a source holds them: they come first
among the trees from their position on. -/
theorem holdAt_of_front {source front behind : Text} {names : List Text} {tok : Token}
    (htok : tok ∈ tokens source) (hsource : source.drop tok.start = front ++ behind)
    (hfront : Annotations behind front names) (hbehind : EndsFront behind) :
    ∃ trees z, AreAnnotations tok.start front names trees ∧
      tok.start + front.length ≤ z.stop ∧
      z.isSign "." = false ∧
      HoldAt tok.start (BeginWith (trees ++ [.leaf z]) (tok.start + front.length))
        (Tree.ofTokens (tokens source)) := by
  obtain ⟨before, rest, htokens⟩ := List.append_of_mem htok
  obtain ⟨hbefore, hfrom⟩ := tokens_from htokens
  rw [hsource] at hfrom
  -- `first` are the tokens of the annotations, `z` is the one behind them
  obtain ⟨first, line, doc, ⟨trees, htrees, hread⟩, hfirst⟩ :=
    hfront.gives tok.start tok.line tok.doc
  obtain ⟨z, later, hz, hzstart, hzopens, hzcloses, hzdot⟩ :=
    hbehind.exists_token (tok.start + front.length) line doc
  have hparts : tok :: rest = first ++ [z] ++ later := by
    rw [hfrom, hfirst, hz, List.append_assoc]
    rfl
  have hrest : ∀ t ∈ rest, tok.start < t.start :=
    fun t ht => start_lt_of_mem hfrom.symm ht
  have hlater : ∀ t ∈ later, z.start < t.start := fun t ht => start_lt_of_mem hz ht
  have hzstop : tok.start + front.length ≤ z.stop :=
    Nat.le_trans hzstart (Nat.le_add_right _ _)
  have hlaterStop : ∀ t ∈ later, tok.start + front.length ≤ t.stop := by
    intro t ht
    have := hlater t ht
    have : t.start ≤ t.stop := Nat.le_add_right _ _
    omega
  obtain ⟨front', hfront'⟩ : ∃ front', first ++ [z] = tok :: front' := by
    cases first with
    | nil => exact ⟨[], by rw [(List.cons.inj hparts).1]; rfl⟩
    | cons t first => exact ⟨first ++ [z], by rw [(List.cons.inj hparts).1]; rfl⟩
  have hsplit : rest = front' ++ later := by
    rw [hfront'] at hparts
    exact (List.cons.inj hparts).2
  refine ⟨trees, z, hread, hzstop, hzdot, ?_⟩
  rw [htokens, hparts]
  -- no other token starts where `tok` does, so its trees are held there only
  apply holdAt_ofTokens (htrees.append (.leaf hzopens hzcloses .nil))
  · exact fun t ht => Nat.ne_of_lt (hbefore t ht)
  · rw [hfront']
    exact fun t ht => Nat.ne_of_gt (hrest t (hsplit ▸ List.mem_append_left _ ht))
  · exact fun t ht =>
      ⟨Nat.ne_of_gt (hrest t (hsplit ▸ List.mem_append_right _ ht)), hlaterStop t ht⟩
  · intro t ht
    rw [List.append_assoc] at ht
    have hmem : t ∈ z :: later := by
      rw [List.getLast?_append, List.singleton_append,
        List.getLast?_eq_some_getLast (List.cons_ne_nil z later), Option.some_or] at ht
      cases ht
      exact List.getLast_mem _
    rcases List.mem_cons.mp hmem with rfl | hmem
    · exact hzstop
    · exact hlaterStop t hmem
  · exact List.append_ne_nil_of_right_ne_nil _ (List.cons_ne_nil z [])

/-- **A declaration begins with the annotations in front of it**: these are the
first of its annotations, by the last parts of their names. -/
theorem annotations_of_front {source front behind : Text} {names : List Text}
    {t : TypeDecl} {d : Declaration} (ht : t ∈ (CompilationUnit.read source).types)
    (hd : d.IsIn t.members) (hsource : source.drop d.span.start = front ++ behind)
    (hfront : Annotations behind front names) (hbehind : EndsFront behind) :
    ∃ others, d.modifiers.annotations.map AnnotationUse.simpleName =
      names ++ others := by
  -- a declaration starts at a token, so there is one at its place
  by_cases hstarts : ∃ tok ∈ tokens source, tok.start = d.span.start
  · obtain ⟨tok, hmem, hstart⟩ := hstarts
    rw [← hstart] at hsource
    obtain ⟨trees, z, hread, hz, hdot, hholds⟩ :=
      holdAt_of_front hmem hsource hfront hbehind
    obtain ⟨_, ⟨more, rfl, hmore⟩, hitem⟩ := exists_readFrom ht hd hstart.symm hholds
    rw [List.append_assoc] at hitem
    obtain ⟨n, rest, hstop, hlength, hannotations⟩ :=
      hitem.exists_clean hread.passes hz hmore
    have hnames := hread.length
    obtain ⟨k, hk⟩ : ∃ k, n = names.length + k := Nat.exists_eq_add_of_le (by omega)
    have hwithin : front <+: (source.take d.span.stop).drop tok.start := by
      rw [List.drop_take, hsource, List.prefix_take_iff]
      exact ⟨List.prefix_append _ _, by omega⟩
    obtain ⟨annotations, hmap, hmodifiers⟩ :=
      hread.read (source.take d.span.stop) k (.leaf z :: rest)
        hwithin ⟨z, rest, rfl, hdot⟩
    let behindFront :=
      (readModifiers (source.take d.span.stop) (k + 1) (.leaf z :: rest)).1
    refine ⟨behindFront.annotations.map AnnotationUse.simpleName, ?_⟩
    rw [hannotations, hk, Nat.add_assoc, hmodifiers, List.map_append, hmap]
  · have hnone : ∀ tok ∈ tokens source, tok.start ≠ d.span.start := by
      intro tok htok hstart
      exact hstarts ⟨tok, htok, hstart⟩
    obtain ⟨_, hfalse, -⟩ := exists_readFrom ht hd rfl (holdAt_ofTokens_of_none hnone)
    exact hfalse.elim

end Graft.Java
