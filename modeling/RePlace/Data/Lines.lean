import Mathlib.Data.List.Infix
import Mathlib.Tactic

/-!
# Cutting a text at a separator

`cut sep s` is what stands before and behind the first occurrence of `sep`, and
`pieces sep` cuts until there is none left. Lines that do not contain the first
letter of a separator of two letters are read back from the text they make, and
when none of them is empty the first doubled separator is the one behind the last
line.
-/

namespace RePlace.Lines

variable {α : Type*} [DecidableEq α]

/-- What stands before and behind the first occurrence of a separator. -/
def cut (sep : List α) : List α → Option (List α × List α)
  | [] => if sep = [] then some ([], []) else none
  | a :: s =>
      if sep <+: a :: s then some ([], (a :: s).drop sep.length)
      else (cut sep s).map fun c => (a :: c.1, c.2)

/-- Cut until no separator is left, at most `n` times. -/
def pieces (sep : List α) : ℕ → List α → List (List α)
  | 0, s => [s]
  | n + 1, s =>
      match cut sep s with
      | none => [s]
      | some c => c.1 :: pieces sep n c.2

variable {sep : List α} {x y : α}

/-- A cut gives the text back, and no occurrence starts earlier. -/
theorem cut_eq_some {s a b : List α} (h : cut sep s = some (a, b)) :
    s = a ++ (sep ++ b) ∧ ∀ a' b', s = a' ++ (sep ++ b') → a.length ≤ a'.length := by
  induction s generalizing a with
  | nil =>
      rw [cut] at h
      split at h
      next hsep =>
          obtain ⟨rfl, rfl⟩ := Prod.mk.inj (Option.some.inj h)
          exact ⟨by simp [hsep], fun _ _ _ => Nat.zero_le _⟩
      next => cases h
  | cons c s ih =>
      rw [cut] at h
      split at h
      next hpre =>
          obtain ⟨rfl, rfl⟩ := Prod.mk.inj (Option.some.inj h)
          exact ⟨(List.prefix_iff_eq_append.mp hpre).symm, fun _ _ _ => Nat.zero_le _⟩
      next hpre =>
          obtain ⟨⟨a', b'⟩, hcut, heq⟩ := Option.map_eq_some_iff.mp h
          obtain ⟨rfl, rfl⟩ := Prod.mk.inj heq
          obtain ⟨hs, hfirst⟩ := ih hcut
          refine ⟨by rw [List.cons_append, ← hs], fun p q hpq => ?_⟩
          cases p with
          | nil => exact absurd ⟨q, hpq.symm⟩ hpre
          | cons d p =>
              obtain ⟨rfl, hs'⟩ := List.cons.inj hpq
              exact Nat.succ_le_succ (hfirst p q hs')

/-- A separator at the beginning. -/
theorem cut_append_self (sep s : List α) : cut sep (sep ++ s) = some ([], s) := by
  cases h : sep ++ s with
  | nil => simp_all [cut]
  | cons a t =>
      have hpre : sep <+: a :: t := ⟨s, h⟩
      rw [cut, if_pos hpre, ← h, List.drop_left]

/-- A letter with which no occurrence starts is passed over. -/
theorem cut_cons_pass {a : α} {s : List α} (h : ¬ sep <+: a :: s) :
    cut sep (a :: s) = (cut sep s).map fun c => (a :: c.1, c.2) := by
  rw [cut, if_neg h]

/-- Letters that a separator does not start with are passed over. -/
theorem cut_append_of_notMem {l : List α} (hl : x ∉ l) (s : List α) :
    cut (x :: sep) (l ++ s) = (cut (x :: sep) s).map fun c => (l ++ c.1, c.2) := by
  induction l with
  | nil => simp
  | cons a l ih =>
      have hne : x ≠ a := List.ne_of_not_mem_cons hl
      have hpre : ¬ x :: sep <+: a :: (l ++ s) := fun h => hne (List.cons_prefix_cons.mp h).1
      rw [List.cons_append, cut_cons_pass hpre, ih (List.not_mem_of_not_mem_cons hl),
        Option.map_map]
      rfl

/-- The first piece of a text. -/
theorem cut_append_sep {l : List α} (hl : x ∉ l) (s : List α) :
    cut (x :: sep) (l ++ (x :: sep ++ s)) = some (l, s) := by
  rw [cut_append_of_notMem hl, cut_append_self]
  simp

theorem cut_of_notMem {l : List α} (hl : x ∉ l) : cut (x :: sep) l = none := by
  have h := @cut_append_of_notMem _ _ sep x l hl []
  rwa [List.append_nil, cut, if_neg (by simp)] at h

/-- Lines without the first letter of the separator are read back. -/
theorem pieces_intercalate {L : List (List α)} (hne : L ≠ []) (hL : ∀ l ∈ L, x ∉ l) {n : ℕ}
    (hn : L.length ≤ n + 1) :
    pieces (x :: sep) n ((x :: sep).intercalate L) = L := by
  induction L generalizing n with
  | nil => exact absurd rfl hne
  | cons l L ih =>
      have hl : x ∉ l := hL l (List.mem_cons_self ..)
      cases L with
      | nil =>
          rw [List.intercalate_singleton]
          cases n with
          | zero => rfl
          | succ n => rw [pieces, cut_of_notMem hl]
      | cons l' L =>
          obtain ⟨n, rfl⟩ : ∃ m, n = m + 1 := ⟨n - 1, by simp at hn; omega⟩
          rw [List.intercalate_cons_cons, List.append_assoc, pieces, cut_append_sep hl]
          simp only [List.cons.injEq, true_and]
          refine ih (by simp) (fun m hm => hL m (List.mem_cons_of_mem _ hm)) ?_
          simp only [List.length_cons] at hn ⊢
          omega

/-- A separator in front of a letter that does not continue it as a doubled one. -/
theorem cut_doubled_pass {a : α} (hxy : x ≠ y) (ha : a ≠ x) (s : List α) :
    cut [x, y, x, y] (x :: y :: a :: s) =
      (cut [x, y, x, y] (a :: s)).map fun c => (x :: y :: c.1, c.2) := by
  have hfirst : ¬ [x, y, x, y] <+: x :: y :: a :: s := by
    simp [List.cons_prefix_cons, Ne.symm ha]
  have hsecond : ¬ [x, y, x, y] <+: y :: a :: s := by
    simp [List.cons_prefix_cons, hxy]
  rw [cut_cons_pass hfirst, cut_cons_pass hsecond, Option.map_map]
  rfl

omit [DecidableEq α] in
/-- A text of lines starts with the first letter of its first line. -/
theorem exists_intercalate_cons (sep : List α) (a : α) (l : List α) (L : List (List α)) :
    ∃ t, sep.intercalate ((a :: l) :: L) = a :: t := by
  cases L with
  | nil => exact ⟨l, List.intercalate_singleton ..⟩
  | cons l' L => exact ⟨_, List.intercalate_cons_cons ..⟩

omit [DecidableEq α] in
theorem length_le_intercalate (sep : List α) {L : List (List α)} (hL : ∀ l ∈ L, l ≠ []) :
    L.length ≤ (sep.intercalate L).length := by
  induction L with
  | nil => simp
  | cons l L ih =>
      have hl := List.length_pos_iff.mpr (hL l (List.mem_cons_self ..))
      have hrest := ih fun m hm => hL m (List.mem_cons_of_mem _ hm)
      cases L with
      | nil =>
          rw [List.intercalate_singleton]
          exact hl
      | cons l' L =>
          rw [List.intercalate_cons_cons]
          simp only [List.length_cons, List.length_append] at hrest ⊢
          omega

/-- Behind lines that are not empty, the first doubled separator is the one at their
end. -/
theorem cut_doubled {L : List (List α)} (hxy : x ≠ y) (hne : L ≠ [])
    (hL : ∀ l ∈ L, l ≠ [] ∧ x ∉ l) (s : List α) :
    cut [x, y, x, y] ([x, y].intercalate L ++ ([x, y, x, y] ++ s)) =
      some ([x, y].intercalate L, s) := by
  induction L with
  | nil => exact absurd rfl hne
  | cons l L ih =>
      have hl : x ∉ l := (hL l (List.mem_cons_self ..)).2
      cases L with
      | nil => rw [List.intercalate_singleton, cut_append_sep hl]
      | cons l' L =>
          have hrest := ih (by simp) fun m hm => hL m (List.mem_cons_of_mem _ hm)
          obtain ⟨hne', hl'⟩ := hL l' (by simp)
          obtain ⟨a, u, rfl⟩ := List.exists_cons_of_ne_nil hne'
          obtain ⟨t, ht⟩ := exists_intercalate_cons [x, y] a u L
          have ha : a ≠ x := fun h => hl' (by simp [h])
          rw [ht, List.cons_append] at hrest
          rw [List.intercalate_cons_cons, List.append_assoc, List.append_assoc, ht,
            cut_append_of_notMem hl, List.cons_append, List.cons_append, List.cons_append,
            List.nil_append, cut_doubled_pass hxy ha, hrest]
          simp

end RePlace.Lines
