import Graft.Proofs.Java.Context
import Graft.Proofs.Java.Spelling

/-!
# What spelled types stand for

A scope resolves a spelled type part by part: names by themselves, array levels
and bounds by the marks they add to a qualified name, type arguments one by one
(`SpelledType.ref`). Only a simple name that two packages could supply stands in
the way (`Scope.IsAmbiguous`), and then the first of these names is reported
(`Scope.resolve_spelled`).
-/

namespace Graft.Java

namespace Scope

variable {s : Scope} {name : Text}

/-! ## Ambiguous names -/

/-- Nothing but wildcard imports can supply the name, and there are several. -/
structure IsAmbiguous (s : Scope) (name : Text) : Prop where
  notImported : ∀ path, s.Imports path false → Text.lastSegment path ≠ name
  notInside : ∀ enclosing, s.enclosing = some enclosing →
    enclosing ≠ name ∧ name ∉ s.nested
  notSibling : name ∉ s.siblings
  notImportless : ∀ qualified ∈ importlessTypes, Text.lastSegment qualified ≠ name
  severalPackages : ∃ package package',
    package ≠ package' ∧ s.Imports package true ∧ s.Imports package' true

theorem mem_wildcardPackages_iff {package : Text} :
    package ∈ s.wildcardPackages ↔ s.Imports package true := by
  rw [wildcardPackages, Text.mem_sortDistinct, mem_wildcardImports_iff]

/-- Wildcard imports of one package count once. -/
theorem severalPackages_iff :
    (∃ package package', package ≠ package' ∧ s.Imports package true ∧
      s.Imports package' true) ↔
      ∃ package package' others,
        s.wildcardPackages = package :: package' :: others := by
  simp only [← mem_wildcardPackages_iff]
  constructor
  · rintro ⟨package, package', hne, hmem, hmem'⟩
    cases h : s.wildcardPackages with
    | nil =>
      rw [h] at hmem
      cases hmem
    | cons first rest =>
      cases rest with
      | nil =>
        rw [h, List.mem_singleton] at hmem hmem'
        exact absurd (hmem.trans hmem'.symm) hne
      | cons second rest => exact ⟨first, second, rest, rfl⟩
  · rintro ⟨package, package', others, h⟩
    have hsorted : s.wildcardPackages.Pairwise (· < ·) := Text.pairwise_sortDistinct _
    rw [h] at hsorted ⊢
    exact ⟨package, package',
      (List.rel_of_pairwise_cons hsorted List.mem_cons_self).ne, by simp, by simp⟩

/-- What is looked up is what a name is made of here: every simple name has a
meaning, unless it is ambiguous. -/
theorem resolveSimple_cases (s : Scope) (name : Text) :
    (s.IsAmbiguous name ∧ s.resolveSimple name = .error ⟨name, s.wildcardPackages⟩) ∨
      (¬ s.IsAmbiguous name ∧ ∃ qualified, s.resolveSimple name = .ok qualified) := by
  unfold resolveSimple
  cases himport : s.singleImports.find? (Text.lastSegment · == name) with
  | some path =>
    have hmem := mem_singleImports_iff.mp (List.mem_of_find?_eq_some himport)
    have hname := List.find?_some himport
    exact .inr ⟨fun h => h.notImported path hmem (by simpa using hname), path, rfl⟩
  | none =>
  cases hinside : s.resolveInside? name with
  | some qualified =>
    refine .inr ⟨fun h => ?_, qualified, rfl⟩
    rw [resolveInside?] at hinside
    cases henclosing : s.enclosing with
    | none =>
      rw [henclosing] at hinside
      cases hinside
    | some enclosing =>
      obtain ⟨hne, hnested⟩ := h.notInside enclosing henclosing
      simp [henclosing, hne, hnested] at hinside
  | none =>
  by_cases hsibling : name ∈ s.siblings
  · refine .inr ⟨fun h => h.notSibling hsibling, s.qualify name, ?_⟩
    simp [hsibling]
  cases himportless : importlessTypes.find? (Text.lastSegment · == name) with
  | some qualified =>
    have hname := List.find?_some himportless
    refine .inr ⟨fun h => ?_, qualified, by simp [hsibling]⟩
    exact h.notImportless qualified (List.mem_of_find?_eq_some himportless)
      (by simpa using hname)
  | none =>
  -- nothing else supplies the name: the number of packages decides
  have hambiguous : s.IsAmbiguous name ↔
      ∃ package package' others,
        s.wildcardPackages = package :: package' :: others := by
    rw [← severalPackages_iff]
    refine ⟨IsAmbiguous.severalPackages, fun hseveral => ?_⟩
    refine ⟨fun path hpath => ?_, fun enclosing henclosing => ?_, hsibling,
      fun q hq => ?_, hseveral⟩
    · simpa using List.find?_eq_none.mp himport path (mem_singleImports_iff.mpr hpath)
    · rw [resolveInside?, henclosing] at hinside
      constructor
      · rintro rfl
        simp at hinside
      · intro hmem
        simp only [List.contains_iff_mem, hmem, if_true] at hinside
        split at hinside <;> cases hinside
    · simpa using List.find?_eq_none.mp himportless q hq
  simp only [List.contains_iff_mem, hsibling, if_false, resolveByWildcard, hambiguous]
  rcases s.wildcardPackages with _ | ⟨package, _ | ⟨package', others⟩⟩ <;> simp

/-! ## Results that hang on names -/

/-- A result is the value, unless one of the names is ambiguous: then the first
of these is reported. -/
inductive Settles (s : Scope) {α : Type} :
    List Text → α → Except AmbiguousImport α → Prop
  | clear {names : List Text} {value : α}
      (clear : ∀ name ∈ names, ¬ s.IsAmbiguous name) :
    Settles s names value (.ok value)
  | stuck {before after : List Text} {name : Text} {value : α}
    (clear : ∀ name ∈ before, ¬ s.IsAmbiguous name) (ambiguous : s.IsAmbiguous name) :
    Settles s (before ++ name :: after) value (.error ⟨name, s.wildcardPackages⟩)

namespace Settles

variable {α β : Type} {names more : List Text} {v : α} {w : β}
    {x : Except AmbiguousImport α}

theorem pure (s : Scope) (v : α) : s.Settles [] v (.ok v) := .clear (by simp)

/-- Names that a second step looks up come behind those of the first. -/
theorem bind (h : s.Settles names v x) {f : α → Except AmbiguousImport β}
    (hf : s.Settles more w (f v)) : s.Settles (names ++ more) w (x >>= f) := by
  cases h with
  | clear hclear =>
    show s.Settles (names ++ more) w (f v)
    generalize hresult : f v = result at hf
    cases hf with
    | clear hmore => exact .clear fun name hname =>
        (List.mem_append.mp hname).elim (hclear name) (hmore name)
    | @stuck before after name _ hbefore ambiguous =>
      rw [← List.append_assoc]
      exact .stuck (fun name hname =>
        (List.mem_append.mp hname).elim (hclear name) (hbefore name))
        ambiguous
  | @stuck before after name _ hbefore ambiguous =>
    rw [List.append_assoc, List.cons_append]
    exact .stuck hbefore ambiguous

theorem map (h : s.Settles names v x) (f : α → β) :
    s.Settles names (f v) (x.map f) := by
  cases h with
  | clear hclear => exact .clear hclear
  | stuck hbefore ambiguous => exact .stuck hbefore ambiguous

theorem bind_pure (h : s.Settles names v x) {f : α → β} (hw : f v = w) :
    s.Settles names w (x >>= fun a => Pure.pure (f a)) := by
  have := h.map f
  rw [hw] at this
  cases x <;> exact this

theorem eq_ok_iff (h : s.Settles names v x) {r : α} :
    x = .ok r ↔ (∀ name ∈ names, ¬ s.IsAmbiguous name) ∧ r = v := by
  cases h with
  | clear hclear =>
    rw [Except.ok.injEq]
    exact ⟨fun heq => ⟨hclear, heq.symm⟩, fun ⟨_, heq⟩ => heq.symm⟩
  | stuck _ ambiguous =>
    refine ⟨nofun, fun ⟨hclear, _⟩ => ?_⟩
    exact absurd ambiguous (hclear _ (by simp))

theorem of_error (h : s.Settles names v x) {e : AmbiguousImport} (he : x = .error e) :
    ∃ before name after, names = before ++ name :: after ∧
      (∀ earlier ∈ before, ¬ s.IsAmbiguous earlier) ∧ s.IsAmbiguous name ∧
        e = ⟨name, s.wildcardPackages⟩ := by
  cases h with
  | clear => cases he
  | stuck hbefore ambiguous =>
    cases he
    exact ⟨_, _, _, rfl, hbefore, ambiguous, rfl⟩

/-- The value is what comes out where something does. -/
theorem toOption (h : s.Settles names v x) (w : α) :
    s.Settles names (x.toOption.getD w) x := by
  cases h with
  | clear hclear => exact .clear hclear
  | stuck hbefore ambiguous => exact .stuck hbefore ambiguous

end Settles

/-- What a name stands for; nothing where it is ambiguous. -/
def meaning (s : Scope) (name : Text) : Text := (s.resolveName name).toOption.getD []

theorem exists_settles_resolveSimple (s : Scope) (name : Text) :
    ∃ qualified, s.Settles [name] qualified (s.resolveSimple name) := by
  rcases s.resolveSimple_cases name with ⟨ambiguous, h⟩ | ⟨clear, qualified, h⟩
  · rw [h]
    exact ⟨[], .stuck (List.forall_mem_nil _) ambiguous⟩
  · rw [h]
    exact ⟨qualified, .clear (by simpa using clear)⟩

/-- A dotted name stands for itself, without its blanks, when it starts with a
small letter. Of any other the first part is looked up. -/
theorem resolveName_dotted (s : Scope) {t first rest : Text} (hfirst : '.' ∉ first)
    (h : Text.compact t = first ++ '.' :: rest) :
    s.resolveName t =
      if first.head?.any Char.isSmall then .ok (first ++ '.' :: rest)
      else (s.resolveSimple first).map fun qualified => qualified ++ '.' :: rest := by
  have hcut : Text.cutAt? ".".toList (first ++ '.' :: rest) = some (first, rest) :=
    Text.cutAt?_append hfirst rest
  rw [resolveName, h, hcut]
  cases first with
  | nil => rfl
  | cons c letters => rfl

theorem resolveName_trim (s : Scope) (name : Text) :
    s.resolveName (Text.trim name) = s.resolveName name := by
  rw [resolveName, resolveName, Text.compact_trim]

end Scope

/-! ## Names -/

/-- The simple names of a name that are looked up: its first part, unless more
parts follow and it starts with a small letter, as the names of packages do. -/
def DottedName.lookedUp (d : DottedName) : List Text :=
  match d.more with
  | [] => [d.first.name.text]
  | _ :: _ =>
    if d.first.name.text.head?.any Char.isSmall then [] else [d.first.name.text]

theorem SpacedName.compact_text (n : SpacedName) :
    Text.compact n.text = n.name.text := by
  rw [← Text.compact_trim, n.trim_text, Text.compact, List.filter_eq_self]
  intro c hc
  rw [(Merge.SimpleName.solid_of_mem hc).1]
  rfl

theorem DottedName.compact_text (d : DottedName) :
    Text.compact d.text = d.first.name.text ++ d.more.flatMap fun n =>
      '.' :: n.name.text := by
  have hdot : Char.isBlank '.' = false := by decide
  have hmore (n : SpacedName) : Text.compact ('.' :: n.text) = '.' :: n.name.text := by
    rw [← n.compact_text]
    simp [Text.compact, hdot]
  have hfirst := d.first.compact_text
  unfold Text.compact at *
  rw [text, List.filter_append, hfirst, List.filter_flatMap]
  simp only [hmore]

theorem DottedName.trim_notMem (d : DottedName) :
    Text.trim d.text ∉ primitiveNames := by
  intro hmem
  cases hmore : d.more with
  | nil =>
    rw [text, hmore, List.flatMap_nil, List.append_nil, d.first.trim_text] at hmem
    exact d.notPrimitive hmore hmem
  | cons n rest =>
    have hdot : '.' ∈ Text.compact (Text.trim d.text) := by
      rw [Text.compact_trim, d.compact_text, hmore]
      simp
    have hnone : ∀ name ∈ primitiveNames, '.' ∉ name := by decide
    exact hnone _ hmem (List.mem_of_mem_filter hdot)

/-- A name is resolved by what its first part stands for. -/
theorem DottedName.settles (s : Scope) (d : DottedName) :
    s.Settles d.lookedUp (s.meaning d.text) (s.resolveName d.text) := by
  suffices h : ∃ qualified, s.Settles d.lookedUp qualified (s.resolveName d.text) by
    obtain ⟨_, h⟩ := h
    exact h.toOption []
  rw [lookedUp]
  cases hmore : d.more with
  | nil =>
    have hcompact : Text.compact d.text =
        d.first.name.text := by simp [d.compact_text, hmore]
    have hnone : Text.cutAt? ".".toList d.first.name.text = none :=
      Text.cutAt?_eq_none d.first.name.no_dot
    rw [Scope.resolveName, hcompact, hnone]
    exact s.exists_settles_resolveSimple _
  | cons n rest =>
    have hcompact : Text.compact d.text = d.first.name.text ++
        '.' :: (n.name.text ++ rest.flatMap fun n => '.' :: n.name.text) := by
      rw [d.compact_text, hmore, List.flatMap_cons, List.cons_append]
    rw [s.resolveName_dotted d.first.name.no_dot hcompact]
    dsimp only
    split
    · exact ⟨_, .pure s _⟩
    · obtain ⟨_, hsimple⟩ := s.exists_settles_resolveSimple d.first.name.text
      exact ⟨_, hsimple.map _⟩

/-! ## Types -/

mutual

/-- The simple names of a type in the order of their being looked up: those of
the type arguments come before those of the name in front of them. -/
def SpelledType.lookedUp : SpelledType → List Text
  | .primitive _ _ => []
  | .named name => name.lookedUp
  | .generic name first more _ =>
    first.lookedUp ++ furtherLookedUp more ++ name.lookedUp
  | .array element _ => element.lookedUp

/-- The simple names of a type argument that are looked up. -/
def SpelledArgument.lookedUp : SpelledArgument → List Text
  | .type t => t.lookedUp
  | .wildcard _ _ => []
  | .bounded _ _ _ t => t.lookedUp

/-- The simple names of type arguments that are looked up. -/
def furtherLookedUp : List SpelledArgument → List Text
  | [] => []
  | a :: rest => a.lookedUp ++ furtherLookedUp rest

end

/-- The simple names of the type of a parameter that are looked up. -/
def SpelledParameter.lookedUp (p : SpelledParameter) : List Text := p.type.lookedUp

mutual

/-- What a type stands for in a scope where its names have a meaning. -/
def SpelledType.ref (s : Scope) : SpelledType → TypeRef
  | .primitive name _ => .primitive name.name.text
  | .named name => .reference (s.meaning name.text) (Text.trim name.text) []
  | .generic name first more after =>
    .reference (s.meaning name.text)
      (Text.trim (SpelledType.generic name first more after).text)
      (first.ref s :: furtherRefs s more)
  | .array element after =>
    .reference ((element.ref s).qualifiedName ++ "[]")
      (Text.trim (SpelledType.array element after).text) (element.ref s).arguments

/-- What a type argument stands for. -/
def SpelledArgument.ref (s : Scope) : SpelledArgument → TypeRef
  | .type t => t.ref s
  | .wildcard _ _ => .reference "?" "?" []
  | .bounded before between bound t =>
    .reference ("? " ++ bound.word ++ " " ++ (t.ref s).qualifiedName)
      (Text.trim (SpelledArgument.bounded before between bound t).text) [t.ref s]

/-- What type arguments stand for. -/
def furtherRefs (s : Scope) : List SpelledArgument → List TypeRef
  | [] => []
  | a :: rest => a.ref s :: furtherRefs s rest

end

/-- What the type of a parameter stands for: a variable arity makes an array. -/
def SpelledParameter.ref (s : Scope) (p : SpelledParameter) : TypeRef :=
  match p.arity with
  | none => p.type.ref s
  | some _ =>
    .reference ((p.type.ref s).qualifiedName ++ "[]") (Text.trim p.text)
      (p.type.ref s).arguments

mutual

/-- The expression of a spelled type stands for what the type does, unless one
of its names is ambiguous. -/
theorem SpelledType.settles (s : Scope) : (t : SpelledType) →
    s.Settles t.lookedUp (t.ref s) (s.resolveExpr t.expr)
  | .primitive name isPrimitive => by
    have hprimitive := List.contains_iff_mem.mpr isPrimitive
    rw [SpelledType.expr, Scope.resolveExpr, Scope.resolveExprs]
    show s.Settles [] _ (if primitiveNames.contains name.name.text then _ else _)
    rw [if_pos hprimitive]
    exact .pure s _
  | .named name => by
    have hname := mt List.contains_iff_mem.mp name.trim_notMem
    rw [SpelledType.expr, Scope.resolveExpr, Scope.resolveExprs]
    show s.Settles name.lookedUp
      _ (if primitiveNames.contains (Text.trim name.text) then _ else _)
    rw [if_neg hname, s.resolveName_trim]
    exact (name.settles s).bind_pure rfl
  | .generic name first more after => by
    have hname := mt List.contains_iff_mem.mp name.trim_notMem
    -- arguments are looked up in front of the name
    have harguments : s.Settles (first.lookedUp ++ furtherLookedUp more)
        (first.ref s :: furtherRefs s more)
          (s.resolveExprs (first.expr :: furtherExprs more)) := by
      rw [Scope.resolveExprs]
      exact (first.settles s).bind ((settles_further s more).bind_pure rfl)
    rw [SpelledType.expr, Scope.resolveExpr]
    refine harguments.bind ?_
    rw [if_neg hname, s.resolveName_trim]
    exact (name.settles s).bind_pure rfl
  | .array element after => by
    rw [SpelledType.expr, Scope.resolveExpr]
    exact (element.settles s).bind_pure rfl

theorem SpelledArgument.settles (s : Scope) : (a : SpelledArgument) →
    s.Settles a.lookedUp (a.ref s) (s.resolveExpr a.expr)
  | .type t => t.settles s
  | .wildcard _ _ => .pure s _
  | .bounded before between bound t => by
    rw [SpelledArgument.expr, Scope.resolveExpr]
    exact (t.settles s).bind_pure rfl

theorem settles_further (s : Scope) : (as : List SpelledArgument) →
    s.Settles (furtherLookedUp as) (furtherRefs s as) (s.resolveExprs (furtherExprs as))
  | [] => .pure s _
  | a :: as => by
    rw [furtherExprs, Scope.resolveExprs]
    exact (a.settles s).bind ((settles_further s as).bind_pure rfl)

end

theorem SpelledParameter.settles (s : Scope) (p : SpelledParameter) :
    s.Settles p.lookedUp (p.ref s) (s.resolve p.text) := by
  rw [Scope.resolve, p.read_text]
  obtain ⟨type, arity⟩ := p
  cases arity with
  | none => exact type.settles s
  | some after =>
    simp only [expr, ref, Scope.resolveExpr]
    exact (type.settles s).bind_pure rfl

/-- **A spelled type is resolved part by part**, and it is resolved exactly if
none of its looked-up names is ambiguous. Else the first ambiguous one is
reported, with all packages that could supply it. -/
theorem Scope.resolve_spelled (s : Scope) (p : SpelledParameter) :
    (∀ r, s.resolve p.text = .ok r ↔
      (∀ name ∈ p.lookedUp, ¬ s.IsAmbiguous name) ∧ r = p.ref s) ∧
      ∀ e, s.resolve p.text = .error e →
        ∃ before name after, p.lookedUp = before ++ name :: after ∧
        (∀ earlier ∈ before, ¬ s.IsAmbiguous earlier) ∧ s.IsAmbiguous name ∧
          e = ⟨name, s.wildcardPackages⟩ :=
  ⟨fun _ => (p.settles s).eq_ok_iff, fun _ => (p.settles s).of_error⟩

end Graft.Java
