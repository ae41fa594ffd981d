import Mathlib.Logic.Basic

/-!
# Computations that fail in one way

A computation gets through unless one thing goes wrong: `Through e P x` says that
`x` has a result, or has failed with `e` and `P` is then false; this is kept by `>>=`. A
computation in which any step may also fail with `e` ends as the one in which none does,
or it fails with `e` because one has (`Interrupts`). A call of another party can also fail
after it has been executed (`Attempt`).
-/

namespace Fallible

universe u

variable {ε : Type*} {α β : Type u}

/-- The computation gets through, or it fails with `e` and `P` does not hold. -/
def Through (e : ε) (P : Prop) (x : Except ε α) : Prop :=
  (∃ a, x = .ok a) ∨ x = .error e ∧ ¬ P

section Through

variable {e : ε} {P : Prop} {x : Except ε α}

theorem Through.ok (a : α) : Through e P (.ok a) := .inl ⟨a, rfl⟩

theorem Through.exists_ok (h : Through e P x) (hP : P) : ∃ a, x = .ok a :=
  h.resolve_right fun hfail => hfail.2 hP

theorem Through.bind {f : α → Except ε β} (hx : Through e P x)
    (hf : ∀ a, x = .ok a → Through e P (f a)) : Through e P (x >>= f) := by
  rcases hx with ⟨a, rfl⟩ | ⟨rfl, hP⟩
  · exact hf a rfl
  · exact .inr ⟨rfl, hP⟩

end Through

/-- The second computation is the first one, or it fails with `e` and `P` holds. -/
def Interrupts (e : ε) (P : Prop) (x y : Except ε α) : Prop := y = x ∨ y = .error e ∧ P

section Interrupts

variable {e : ε} {P : Prop} {x y : Except ε α}

theorem Interrupts.refl (x : Except ε α) : Interrupts e P x x := .inl rfl

theorem Interrupts.fail (x : Except ε α) (hP : P) : Interrupts e P x (.error e) := .inr ⟨rfl, hP⟩

end Interrupts

section Attempt

variable {σ : Type*} {s : σ} {full r : σ × Except ε α} {executed answered : Bool}

/-- How a call from the state `s`, which should end with `full`, does end: it has been
executed and answered, or executed and not answered, or neither. -/
inductive Attempt (s : σ) (full : σ × Except ε α) : Bool → Bool → σ × Except ε α → Prop
  | done : Attempt s full true true full
  | unanswered (e : ε) : Attempt s full true false (full.1, .error e)
  | missed (e : ε) : Attempt s full false false (s, .error e)

/-- A call that should fail without an effect does so however it ends. -/
theorem Attempt.of_error {e : ε} (hfull : full = (s, .error e)) (h : answered = true →
    executed = true) : Attempt s full executed answered (s, .error e) := by
  subst hfull
  cases executed with
  | true =>
      cases answered with
      | true => exact .done
      | false => exact .unanswered e
  | false =>
      cases answered with
      | true => exact absurd (h rfl) (by decide)
      | false => exact .missed e

theorem Attempt.state_eq (h : Attempt s full executed answered r) :
    r.1 = if executed then full.1 else s := by
  cases h <;> rfl

end Attempt

end Fallible
