import Mathlib.Data.Nat.Notation
import Mathlib.Logic.Function.Basic

/-!
# Objects at addresses

A program has objects at addresses: `build` makes a new one at a free address,
`change` gives the one at an address a new value. Both are refused when the value
cannot be made. Two programs whose objects are related address by address stay so when
they build and change related values.
-/

namespace Objects

variable {α β : Type*}

/-- The objects by their addresses. -/
abbrev Heap (α : Type*) := ℕ → Option α

/-- A new object at a free address. -/
def build (s : Heap α) (a : ℕ) (v : Option α) : Option (Heap α) :=
  match s a with
  | some _ => none
  | none => v.map fun x => Function.update s a (some x)

/-- A new value of the object at an address. -/
def change (s : Heap α) (a : ℕ) (f : α → Option α) : Option (Heap α) :=
  match s a with
  | none => none
  | some x => (f x).map fun y => Function.update s a (some y)

theorem build_eq_some {s s' : Heap α} {a : ℕ} {v : Option α} (h : build s a v = some s') :
    ∃ x, v = some x ∧ s' = Function.update s a (some x) := by
  unfold build at h
  split at h
  · cases h
  · obtain ⟨x, hx, rfl⟩ := Option.map_eq_some_iff.mp h
    exact ⟨x, hx, rfl⟩

theorem change_eq_some {s s' : Heap α} {a : ℕ} {f : α → Option α} (h : change s a f = some s') :
    ∃ x y, s a = some x ∧ f x = some y ∧ s' = Function.update s a (some y) := by
  unfold change at h
  split at h
  · cases h
  · rename_i x hx
    obtain ⟨y, hy, rfl⟩ := Option.map_eq_some_iff.mp h
    exact ⟨x, y, hx, hy, rfl⟩

section Spec

variable {s s' : Heap α} {a b : ℕ} {v : Option α} {f : α → Option α}

/-- A new object has the value that it has been made with. -/
theorem build_at (h : build s a v = some s') : ∃ x, v = some x ∧ s' a = some x := by
  obtain ⟨x, hx, rfl⟩ := build_eq_some h
  exact ⟨x, hx, Function.update_self _ _ _⟩

theorem build_frame (h : build s a v = some s') (hb : b ≠ a) : s' b = s b := by
  obtain ⟨x, -, rfl⟩ := build_eq_some h
  exact Function.update_of_ne hb _ _

/-- A changed object has the value that has been made of its former one. -/
theorem change_at (h : change s a f = some s') :
    ∃ x y, s a = some x ∧ f x = some y ∧ s' a = some y := by
  obtain ⟨x, y, hx, hy, rfl⟩ := change_eq_some h
  exact ⟨x, y, hx, hy, Function.update_self _ _ _⟩

theorem change_frame (h : change s a f = some s') (hb : b ≠ a) : s' b = s b := by
  obtain ⟨x, y, -, -, rfl⟩ := change_eq_some h
  exact Function.update_of_ne hb _ _

end Spec

section Related

variable {R : α → β → Prop} {s : Heap α} {t : Heap β}

/-- The same addresses have objects, and these are related. -/
def Related (R : α → β → Prop) (s : Heap α) (t : Heap β) : Prop :=
  ∀ a, Option.Rel R (s a) (t a)

theorem Related.update (h : Related R s t) (a : ℕ) {x : α} {y : β} (hxy : R x y) :
    Related R (Function.update s a (some x)) (Function.update t a (some y)) := by
  intro b
  by_cases hb : b = a
  · subst hb
    rw [Function.update_self, Function.update_self]
    exact .some hxy
  · rw [Function.update_of_ne hb, Function.update_of_ne hb]
    exact h b

theorem Related.cases (h : Related R s t) (a : ℕ) :
    (s a = none ∧ t a = none) ∨ ∃ x y, s a = some x ∧ t a = some y ∧ R x y := by
  have hrel := h a
  generalize s a = v, t a = w at hrel
  cases hrel with
  | none => exact .inl ⟨rfl, rfl⟩
  | some hxy => exact .inr ⟨_, _, rfl, rfl, hxy⟩

theorem Related.of_left (h : Related R s t) {a : ℕ} {x : α} (hx : s a = some x) :
    ∃ y, t a = some y ∧ R x y := by
  rcases h.cases a with ⟨hs, -⟩ | ⟨x', y, hs, ht, hxy⟩
  · cases hs.symm.trans hx
  · obtain rfl := Option.some.inj (hs.symm.trans hx)
    exact ⟨y, ht, hxy⟩

/-- What is made of related values is related. -/
theorem Related.map (h : Related R s t) (a : ℕ) {v : Option α} {w : Option β}
    (hvw : Option.Rel R v w) :
    Option.Rel (Related R) (v.map fun x => Function.update s a (some x))
      (w.map fun y => Function.update t a (some y)) := by
  cases hvw with
  | none => exact .none
  | some hxy => exact .some (h.update a hxy)

theorem Related.build (h : Related R s t) (a : ℕ) {v : Option α} {w : Option β}
    (hvw : Option.Rel R v w) : Option.Rel (Related R) (build s a v) (build t a w) := by
  unfold Objects.build
  rcases h.cases a with ⟨hs, ht⟩ | ⟨x, y, hs, ht, -⟩
  · rw [hs, ht]
    exact h.map a hvw
  · rw [hs, ht]
    exact .none

theorem Related.change (h : Related R s t) (a : ℕ) {f : α → Option α} {g : β → Option β}
    (hfg : ∀ x y, R x y → Option.Rel R (f x) (g y)) :
    Option.Rel (Related R) (change s a f) (change t a g) := by
  unfold Objects.change
  rcases h.cases a with ⟨hs, ht⟩ | ⟨x, y, hs, ht, hxy⟩
  · rw [hs, ht]
    exact .none
  · rw [hs, ht]
    exact h.map a (hfg x y hxy)

end Related

end Objects
