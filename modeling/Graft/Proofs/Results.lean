import Mathlib.Data.List.Forall2

/-!
# Computations that may fail

A computation in steps gives a value when all its steps do, and a traversal when
every element does. Two computations agree when they cannot give different
values (`Agree`); they may fail at different inputs and in different ways.
Agreement goes through all steps of a computation.
-/

namespace Graft

variable {ε ε' α β : Type}

/-- A computation in two steps gives a value when both steps do. -/
theorem ok_of_bind {x : Except ε α} {f : α → Except ε β} {r : β}
    (h : (x >>= f) = .ok r) : ∃ a, x = .ok a ∧ f a = .ok r := by
  cases x with
  | error e => cases h
  | ok a => exact ⟨a, rfl, h⟩

theorem bind_eq_ok_iff {x : Except ε α} {f : α → Except ε β} {r : β} :
    (x >>= f) = .ok r ↔ ∃ a, x = .ok a ∧ f a = .ok r := by
  refine ⟨ok_of_bind, ?_⟩
  rintro ⟨a, rfl, h⟩
  exact h

theorem eq_ok_of_toOption {x : Except ε α} {a : α} (h : x.toOption = some a) :
    x = .ok a := by
  cases x with
  | error e => cases h
  | ok a' =>
    cases h
    rfl

theorem check_then_eq_ok_iff {x : Except ε Unit} {y : Except ε β} {r : β} :
    (x >>= fun _ => y) = .ok r ↔ x = .ok () ∧ y = .ok r := by
  rw [bind_eq_ok_iff]
  exact ⟨fun ⟨_, hx, hy⟩ => ⟨hx, hy⟩, fun ⟨hx, hy⟩ => ⟨(), hx, hy⟩⟩

theorem ok_of_map {x : Except ε α} {f : α → β} {r : β} (h : f <$> x = .ok r) :
    ∃ a, x = .ok a ∧ f a = r := by
  cases x with
  | error e => cases h
  | ok a =>
    cases h
    exact ⟨a, rfl, rfl⟩

theorem ok_of_mapError {x : Except ε α} {f : ε → ε'} {a : α}
    (h : x.mapError f = .ok a) : x = .ok a := by
  cases x with
  | error e => cases h
  | ok a' =>
    cases h
    rfl

/-- A list of checks succeeds when each of them does. -/
theorem forM_eq_ok_iff {f : α → Except ε Unit} {xs : List α} :
    xs.forM f = .ok () ↔ ∀ x ∈ xs, f x = .ok () := by
  induction xs with
  | nil => simp [List.forM, pure, Except.pure]
  | cons x rest ih =>
    rw [List.forall_mem_cons, ← ih]
    exact check_then_eq_ok_iff

/-- What is read of a list is read of its elements, one by one. -/
theorem mapM_eq_ok_iff {f : α → Except ε β} {xs : List α} {ys : List β} :
    xs.mapM f = .ok ys ↔ List.Forall₂ (fun x y => f x = .ok y) xs ys := by
  induction xs generalizing ys with
  | nil =>
    rw [List.mapM_nil, List.forall₂_nil_left_iff]
    exact ⟨fun h => (Except.ok.inj h).symm, fun h => congrArg _ h.symm⟩
  | cons x rest ih =>
    rw [List.mapM_cons, bind_eq_ok_iff, List.forall₂_cons_left_iff]
    constructor
    · rintro ⟨y, hy, h⟩
      obtain ⟨ys', hys', h⟩ := ok_of_bind h
      cases h
      exact ⟨y, ys', hy, ih.mp hys', rfl⟩
    · rintro ⟨y, ys', hy, hrest, rfl⟩
      refine ⟨y, hy, ?_⟩
      rw [ih.mpr hrest]
      rfl

/-- Where it is known when an element is read and as what, so
it is of a list. -/
theorem mapM_eq_ok_iff_map {f : α → Except ε β} {P : α → Prop} {g : α → β}
    (h : ∀ x y, f x = .ok y ↔ P x ∧ g x = y) {xs : List α} {ys : List β} :
    xs.mapM f = .ok ys ↔ (∀ x ∈ xs, P x) ∧ xs.map g = ys := by
  simp only [mapM_eq_ok_iff, h, List.forall₂_and_left]
  rw [← List.forall₂_map_left_iff (R := (· = ·)), List.forall₂_eq_eq_eq]

/-- What is related to the elements of a list one by one is related to
some of them each. -/
theorem exists_of_mem_of_forall₂ {R : α → β → Prop} {xs : List α} {ys : List β} {y : β}
    (h : List.Forall₂ R xs ys) (hy : y ∈ ys) : ∃ x ∈ xs, R x y := by
  induction h with
  | nil => cases hy
  | cons hx _ ih =>
    rcases List.mem_cons.mp hy with rfl | hy
    · exact ⟨_, List.mem_cons_self, hx⟩
    · obtain ⟨x, hmem, hread⟩ := ih hy
      exact ⟨x, List.mem_cons_of_mem _ hmem, hread⟩

theorem exists_of_mem_of_mapM {f : α → Except ε β} {xs : List α} {ys : List β} {y : β}
    (h : xs.mapM f = .ok ys) (hy : y ∈ ys) : ∃ x ∈ xs, f x = .ok y :=
  exists_of_mem_of_forall₂ (R := fun x y => f x = .ok y) (mapM_eq_ok_iff.mp h) hy

theorem exists_of_mapM_of_mem {f : α → Except ε β} {xs : List α} {ys : List β} {x : α}
    (h : xs.mapM f = .ok ys) (hx : x ∈ xs) : ∃ y ∈ ys, f x = .ok y :=
  exists_of_mem_of_forall₂ (R := fun y x => f x = .ok y) (mapM_eq_ok_iff.mp h).flip hx

theorem forall_mem_iff_of_forall₂ {P : α → Prop} {Q : β → Prop} {xs : List α}
    {ys : List β} (h : List.Forall₂ (fun x y => P x ↔ Q y) xs ys) :
    (∀ x ∈ xs, P x) ↔ ∀ y ∈ ys, Q y := by
  induction h with
  | nil => simp
  | cons hxy _ ih => rw [List.forall_mem_cons, List.forall_mem_cons, hxy, ih]

/-! ## Agreement -/

/-- Two computations agree: if both give a value, it is the same one. -/
def Agree (x : Except ε α) (y : Except ε' α) : Prop :=
  ∀ ⦃a b : α⦄, x = .ok a → y = .ok b → a = b

namespace Agree

variable {x : Except ε α} {y : Except ε' α}

theorem refl (x : Except ε α) : Agree x x := by
  intro a b ha hb
  exact Except.ok.inj (ha.symm.trans hb)

theorem error_left (e : ε) (y : Except ε' α) : Agree (.error e) y := by
  intro a b ha
  cases ha

theorem error_right (x : Except ε α) (e : ε') : Agree x (.error e) := by
  intro a b _ hb
  cases hb

theorem pure (a : α) :
    Agree (Pure.pure a : Except ε α) (Pure.pure a : Except ε' α) := by
  intro b c hb hc
  cases hb
  cases hc
  rfl

theorem bind (h : Agree x y) {f : α → Except ε β} {g : α → Except ε' β}
    (hfg : ∀ a, Agree (f a) (g a)) : Agree (x >>= f) (y >>= g) := by
  intro r s hr hs
  obtain ⟨a, ha, hr⟩ := ok_of_bind hr
  obtain ⟨b, hb, hs⟩ := ok_of_bind hs
  obtain rfl := h ha hb
  exact hfg a hr hs

theorem mapError {δ δ' : Type} (h : Agree x y) (f : ε → δ) (g : ε' → δ') :
    Agree (x.mapError f) (y.mapError g) := by
  intro a b ha hb
  exact h (ok_of_mapError ha) (ok_of_mapError hb)

theorem mapM {f : α → Except ε β} {g : α → Except ε' β} (h : ∀ a, Agree (f a) (g a))
    (xs : List α) : Agree (xs.mapM f) (xs.mapM g) := by
  induction xs with
  | nil =>
    rw [List.mapM_nil, List.mapM_nil]
    exact .pure []
  | cons a rest ih =>
    rw [List.mapM_cons, List.mapM_cons]
    exact (h a).bind fun b => ih.bind fun bs => .pure (b :: bs)

end Agree

end Graft
