import Mathlib.Tactic

/-!
# A search that starts again

A loop looks for a word in a string with one counter: a character that continues
the word advances it, any other sets it back to zero and is spent. Such a loop
misses occurrences that begin inside a failed attempt. A character that is not in
the word ends every attempt (`restart_append_cons`), so an occurrence behind one
is found unless an earlier one was (`restart_of_reset`). The occurrences that are
found are those behind failed attempts only (`restart_eq_some_iff`).
-/

namespace Restart

variable {α : Type*} [DecidableEq α]

/-- The number of characters of the word that have been counted when the loop
stops: `none` when the string ends first. -/
def restart (word : List α) : List α → ℕ → Option ℕ
  | [], _ => none
  | a :: rest, k =>
      if word[k]? ≠ some a then restart word rest 0
      else if k + 1 = word.length then some (k + 1)
      else restart word rest (k + 1)

/-- The loop stops at the end of the word only. -/
theorem restart_eq_length {word s : List α} {k n : ℕ} (h : restart word s k = some n) :
    n = word.length := by
  induction s generalizing k with
  | nil => simp [restart] at h
  | cons a rest ih =>
      simp only [restart] at h
      split_ifs at h with hne hend
      · exact ih h
      · rw [← Option.some.inj h, hend]
      · exact ih h

/-- What is left of the word is found when the string goes on with it. -/
theorem restart_drop_append {word : List α} (rest : List α) {k : ℕ} (hk : k < word.length) :
    restart word (word.drop k ++ rest) k = some word.length := by
  obtain ⟨m, hm⟩ : ∃ m, word.length = k + 1 + m := ⟨word.length - (k + 1), by omega⟩
  induction m generalizing k with
  | zero =>
      rw [List.drop_eq_getElem_cons hk, List.cons_append, restart,
        if_neg (by simp [List.getElem?_eq_getElem hk]), if_pos (by omega), hm]
  | succ m ih =>
      rw [List.drop_eq_getElem_cons hk, List.cons_append, restart,
        if_neg (by simp [List.getElem?_eq_getElem hk]), if_neg (by omega)]
      exact ih (by omega) (by omega)

/-- A character that is not in the word ends every attempt. -/
theorem restart_append_cons {word : List α} {a : α} (ha : a ∉ word) (s rest : List α) (k : ℕ) :
    restart word (s ++ a :: rest) k = (restart word s k).or (restart word rest 0) := by
  have hne : ∀ k, word[k]? ≠ some a := fun k h => ha (List.mem_of_getElem? h)
  induction s generalizing k with
  | nil => simp [restart, hne k]
  | cons b s ih =>
      simp only [List.cons_append, restart, ih]
      split_ifs <;> simp

/-- The word is found at the start of a string. -/
theorem restart_append_self {word : List α} (hword : word ≠ []) (rest : List α) :
    restart word (word ++ rest) 0 = some word.length := by
  simpa using restart_drop_append rest (List.length_pos_iff.mpr hword)

/-- The word is found behind a character that is not in it. -/
theorem restart_of_reset {word : List α} (hword : word ≠ []) {a : α} (ha : a ∉ word)
    (s rest : List α) : restart word (s ++ a :: (word ++ rest)) 0 = some word.length := by
  rw [restart_append_cons ha, restart_append_self hword]
  cases h : restart word s 0 with
  | none => rfl
  | some n => rw [Option.some_or, restart_eq_length h]

/-! ### What is found -/

/-- What a failed attempt spends: some characters of the word and one that does not
go on with it. -/
def Attempt (word u : List α) : Prop :=
  ∃ j < word.length, ∃ a, word[j]? ≠ some a ∧ u = word.take j ++ [a]

/-- The word stands behind failed attempts. -/
def Reached (word s : List α) : Prop :=
  ∃ (us : List (List α)) (rest : List α), (∀ u ∈ us, Attempt word u) ∧
    s = us.flatten ++ (word ++ rest)

/-- The counter stands for the characters that have been counted. -/
theorem restart_take_append {word : List α} (s : List α) {k : ℕ} (hk : k < word.length) :
    restart word (word.take k ++ s) 0 = restart word s k := by
  induction k generalizing s with
  | zero => rfl
  | succ k ih =>
      have hlt : k < word.length := by omega
      rw [List.take_succ_eq_append_getElem hlt, List.append_assoc, List.singleton_append, ih _ hlt,
        restart, if_neg (by simp [List.getElem?_eq_getElem hlt]), if_neg (by omega)]

theorem Attempt.restart_append {word u : List α} (h : Attempt word u) (s : List α) :
    restart word (u ++ s) 0 = restart word s 0 := by
  obtain ⟨j, hj, a, hne, rfl⟩ := h
  rw [List.append_assoc, restart_take_append _ hj, List.singleton_append, restart, if_pos hne]

/-- A loop that stops has come to the word. -/
theorem reached_of_restart {word s : List α} {k n : ℕ} (hk : k < word.length)
    (h : restart word s k = some n) : Reached word (word.take k ++ s) := by
  induction s generalizing k with
  | nil => simp [restart] at h
  | cons a s ih =>
      simp only [restart] at h
      split_ifs at h with hne hend
      · obtain ⟨us, rest, hus, hs⟩ := ih (Nat.zero_lt_of_lt hk) h
        refine ⟨(word.take k ++ [a]) :: us, rest, ?_, ?_⟩
        · rintro u (_ | ⟨_, hu⟩)
          · exact ⟨k, hk, a, hne, rfl⟩
          · exact hus u hu
        · rw [List.take_zero, List.nil_append] at hs
          rw [hs, List.flatten_cons, List.append_assoc, List.append_assoc, List.singleton_append]
      · have ha : word[k] = a := by simpa [List.getElem?_eq_getElem hk] using hne
        have hword : word.take k ++ [a] = word := by
          rw [← ha, ← List.take_succ_eq_append_getElem hk, hend, List.take_length]
        refine ⟨[], s, by simp, ?_⟩
        rw [List.flatten_nil, List.nil_append, ← List.singleton_append, ← List.append_assoc, hword]
      · have ha : word[k] = a := by simpa [List.getElem?_eq_getElem hk] using hne
        have hnext := ih (by omega) h
        rwa [List.take_succ_eq_append_getElem hk, ha, List.append_assoc,
          List.singleton_append] at hnext

/-- The word is found exactly behind failed attempts. -/
theorem restart_eq_some_iff {word : List α} (hword : word ≠ []) (s : List α) :
    restart word s 0 = some word.length ↔ Reached word s := by
  constructor
  · intro h
    simpa using reached_of_restart (List.length_pos_iff.mpr hword) h
  · rintro ⟨us, rest, hus, rfl⟩
    induction us with
    | nil => exact restart_append_self hword rest
    | cons u us ih =>
        rw [List.flatten_cons, List.append_assoc, (hus u List.mem_cons_self).restart_append]
        exact ih fun v hv => hus v (List.mem_cons_of_mem _ hv)

end Restart
