import Mathlib.Data.List.TakeWhile
import Mathlib.Tactic

/-!
# Loops that cut a string at a separator

A loop that walks an index over a string and hands every piece between two
separators to its body is the fold of that body over `List.splitOn`. The loop
is `scan`; its body reads the string through two indices. The fold is
`foldSegments`; its body reads one segment and the segments still to come, so
that a body that looks ahead is covered. `scan_eq_foldSegments` is the bridge
between the two readings.
-/

namespace Scan

variable {α τ ε : Type*}

/-- The elements of `s` from `start` up to, not including, `stop`. -/
def slice (s : List α) (start stop : ℕ) : List α := (s.take stop).drop start

theorem slice_self (s : List α) (k : ℕ) : slice s k k = [] := by
  simp [slice]

theorem slice_succ {s : List α} {start stop : ℕ} {a : α} (hle : start ≤ stop)
    (ha : s[stop]? = some a) : slice s start (stop + 1) = slice s start stop ++ [a] := by
  obtain ⟨hlt, rfl⟩ := List.getElem?_eq_some_iff.mp ha
  rw [slice, slice, List.take_succ_eq_append_getElem hlt, List.drop_append_of_le_length]
  simp only [List.length_take]
  omega

theorem slice_append {s : List α} {start stop size : ℕ} (h₁ : start ≤ stop) (h₂ : stop ≤ size)
    (h₃ : size ≤ s.length) :
    slice s start size = slice s start stop ++ slice s stop size := by
  have hcut : s.take size = s.take stop ++ slice s stop size := by
    conv_lhs => rw [← List.take_append_drop stop (s.take size)]
    rw [List.take_take, min_eq_left h₂, slice]
  have hstart : start ≤ (s.take stop).length := by
    rw [List.length_take]
    omega
  calc slice s start size = (s.take stop ++ slice s stop size).drop start := by rw [slice, hcut]
    _ = (s.take stop).drop start ++ slice s stop size :=
      List.drop_append_of_le_length hstart

theorem slice_cons {s : List α} {stop size : ℕ} {a : α} (hlt : stop < size)
    (hsize : size ≤ s.length) (ha : s[stop]? = some a) :
    slice s stop size = a :: slice s (stop + 1) size := by
  rw [slice_append (Nat.le_succ stop) hlt hsize, slice_succ le_rfl ha, slice_self]
  rfl

/-- `for (stop = start; stop <= size; ++stop)` over the string `s`: a place that
is not a separator is skipped unless it is the end; every other place hands the
piece before it to `body` and starts the next piece behind it. The first number
is the count of places still to visit. -/
def scan [DecidableEq α] (sep : α) (s : List α) (size : ℕ) (body : τ → ℕ → ℕ → Except ε τ) :
    ℕ → ℕ → ℕ → τ → Except ε τ
  | 0, _, _, st => .ok st
  | fuel + 1, start, stop, st =>
      if s[stop]? ≠ some sep ∧ stop < size then scan sep s size body fuel start (stop + 1) st
      else do
        let st ← body st start stop
        scan sep s size body fuel (stop + 1) (stop + 1) st

/-- The fold over a list of segments whose body also sees the segments that are
still to come. -/
def foldSegments (f : τ → List α → List (List α) → Except ε τ) :
    τ → List (List α) → Except ε τ
  | st, [] => .ok st
  | st, p :: rest => do
      let st ← f st p rest
      foldSegments f st rest

@[simp] theorem foldSegments_nil (f : τ → List α → List (List α) → Except ε τ) (st : τ) :
    foldSegments f st [] = .ok st := rfl

theorem foldSegments_cons (f : τ → List α → List (List α) → Except ε τ) (st : τ)
    (p : List α) (rest : List (List α)) :
    foldSegments f st (p :: rest) = (f st p rest >>= fun st => foldSegments f st rest) := rfl

/-- The segments behind the place `stop`: none when `stop` is the end. -/
def segmentsAfter [DecidableEq α] (sep : α) (s : List α) (size stop : ℕ) : List (List α) :=
  if stop < size then (slice s (stop + 1) size).splitOn sep else []

/-- A loop body that treats the piece between its two indices as `f` treats the
segment makes the loop the fold of `f` over the segments. -/
theorem scan_eq_foldSegments [DecidableEq α] {sep : α} {s : List α} {size : ℕ}
    {body : τ → ℕ → ℕ → Except ε τ} {f : τ → List α → List (List α) → Except ε τ}
    (hsize : size ≤ s.length)
    (hbody : ∀ st start stop, start ≤ stop → stop ≤ size →
      body st start stop = f st (slice s start stop) (segmentsAfter sep s size stop))
    (start : ℕ) (hstart : start ≤ size) (st : τ) :
    scan sep s size body (size + 1 - start) start start st =
      foldSegments f st ((slice s start size).splitOn sep) := by
  suffices main : ∀ n start stop st, size + 1 - stop = n → start ≤ stop → stop ≤ size →
      sep ∉ slice s start stop →
      scan sep s size body n start stop st =
        foldSegments f st ((slice s start size).splitOn sep) from
    main _ start start st rfl le_rfl hstart (by simp [slice_self])
  intro n
  induction n with
  | zero =>
      intro start stop st hn _ hstop _
      omega
  | succ n ih =>
      intro start stop st hn hle hstop hfree
      rcases hstop.eq_or_lt with rfl | hlt
      · -- the last place: the piece is the last segment
        have hn0 : n = 0 := by omega
        subst hn0
        rw [List.splitOn_eq_singleton hfree, foldSegments_cons]
        simp only [scan, lt_irrefl, and_false, if_false]
        rw [hbody st start stop hle le_rfl]
        simp only [segmentsAfter, lt_irrefl, if_false, foldSegments_nil]
      · have hget : ∃ a, s[stop]? = some a := ⟨s[stop], List.getElem?_eq_getElem (by omega)⟩
        obtain ⟨a, ha⟩ := hget
        have hcut : slice s start size = slice s start stop ++ a :: slice s (stop + 1) size := by
          rw [slice_append hle hstop hsize, slice_cons hlt hsize ha]
        by_cases hsep : a = sep
        · -- a separator: the piece is a segment, the rest follows
          subst hsep
          rw [hcut, List.splitOn_append_cons_self_of_not_mem hfree, foldSegments_cons]
          simp only [scan, ha, ne_eq, not_true_eq_false, false_and, if_false]
          rw [hbody st start stop hle hstop, segmentsAfter, if_pos hlt]
          congr 1
          funext st'
          exact ih (stop + 1) (stop + 1) st' (by omega) le_rfl hlt (by simp [slice_self])
        · have hne : s[stop]? ≠ some sep := by simpa [ha] using hsep
          simp only [scan, hne, ne_eq, not_false_eq_true, hlt, and_self, if_true]
          refine ih start (stop + 1) st (by omega) (by omega) hlt ?_
          rw [slice_succ hle ha]
          simpa [hfree] using Ne.symm hsep

/-- What the separator joins, the separator cuts. -/
theorem eq_of_splitOn_eq [DecidableEq α] {sep : α} {s t : List α}
    (h : s.splitOn sep = t.splitOn sep) : s = t := by
  calc s = [sep].intercalate (s.splitOn sep) := (List.intercalate_splitOn sep).symm
    _ = [sep].intercalate (t.splitOn sep) := by rw [h]
    _ = t := List.intercalate_splitOn sep

theorem not_mem_of_mem_splitOn [DecidableEq α] {sep : α} {s p : List α}
    (hp : p ∈ s.splitOn sep) : sep ∉ p := by
  induction s generalizing p with
  | nil => simp_all
  | cons a s ih =>
      rw [List.splitOn_cons_eq_if_modifyHead] at hp
      by_cases ha : a = sep
      · simp only [ha, beq_self_eq_true, if_true, List.mem_cons] at hp
        rcases hp with rfl | hp
        · simp
        · exact ih hp
      · obtain ⟨q, rest, hq⟩ := List.exists_cons_of_ne_nil (List.splitOn_ne_nil sep s)
        simp only [beq_eq_false_iff_ne.mpr ha, hq, List.modifyHead_cons, Bool.false_eq_true,
          if_false, List.mem_cons] at hp
        rw [hq] at ih
        rcases hp with rfl | hp
        · have := ih (List.mem_cons_self ..)
          simpa [this] using Ne.symm ha
        · exact ih (List.mem_cons_of_mem _ hp)

end Scan
