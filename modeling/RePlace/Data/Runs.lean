import Mathlib.Data.List.Basic
import Mathlib.Tactic

/-!
# Runs in a list of labels

A place of a list is first when its label does not stand before it. The run of a
first place goes up to the next first place. The runs are the places of the labels
exactly when equal labels stand next to each other, and it is enough to compare
the length of a run with the number of places of its label.
-/

namespace RePlace.Runs

variable {α : Type*} {ws : List α}

/-- The label at the place does not stand before it. -/
def First (ws : List α) (k : ℕ) : Prop := ∀ i < k, ws[i]? ≠ ws[k]?

/-- The run of the place `p` ends in front of `q`. -/
structure RunEnd (ws : List α) (p q : ℕ) : Prop where
  lt : p < q
  le : q ≤ ws.length
  inside : ∀ k, p < k → k < q → ¬ First ws k
  next : q < ws.length → First ws q

/-- Between two places of a label stand only places of that label. -/
def Consecutive (ws : List α) : Prop :=
  ∀ i j k, i < j → j < k → k < ws.length → ws[i]? = ws[k]? → ws[j]? = ws[i]?

/-- What stands among the first elements has a place among them. -/
theorem exists_of_mem_take {l : List α} {n : ℕ} {b : α} (h : b ∈ l.take n) :
    ∃ k < n, l[k]? = some b := by
  obtain ⟨k, hk⟩ := List.mem_iff_getElem?.mp h
  rw [List.getElem?_take] at hk
  split at hk
  next hlt => exact ⟨k, hlt, hk⟩
  next => cases hk

theorem not_first_iff {k : ℕ} : ¬ First ws k ↔ ∃ i < k, ws[i]? = ws[k]? := by
  simp [First]

/-- A label has a first place. -/
theorem exists_first (ws : List α) (k : ℕ) :
    ∃ p ≤ k, ws[p]? = ws[k]? ∧ First ws p := by
  induction k using Nat.strong_induction_on with
  | _ k ih =>
      by_cases hk : First ws k
      · exact ⟨k, le_rfl, rfl, hk⟩
      · obtain ⟨i, hik, heq⟩ := not_first_iff.mp hk
        obtain ⟨p, hpi, hp, hfirst⟩ := ih i hik
        exact ⟨p, hpi.trans hik.le, hp.trans heq, hfirst⟩

theorem First.eq {p p' : ℕ} (hp : First ws p) (hp' : First ws p') (heq : ws[p]? = ws[p']?) :
    p = p' := by
  rcases Nat.lt_trichotomy p p' with hlt | rfl | hgt
  · exact absurd heq (hp' p hlt)
  · rfl
  · exact absurd heq.symm (hp p' hgt)

/-- A run has one end. -/
theorem RunEnd.unique {p q q' : ℕ} (hq : RunEnd ws p q) (hq' : RunEnd ws p q') : q = q' := by
  have hle := hq.le
  have hle' := hq'.le
  rcases Nat.lt_trichotomy q q' with hlt | rfl | hgt
  · exact absurd (hq.next (by omega)) (hq'.inside q hq.lt hlt)
  · rfl
  · exact absurd (hq'.next (by omega)) (hq.inside q' hq'.lt hgt)

/-- Every place lies in the run of some first place. -/
theorem exists_run (ws : List α) (j : ℕ) :
    ∃ p ≤ j, First ws p ∧ ∀ k, p < k → k ≤ j → ¬ First ws k := by
  induction j with
  | zero => exact ⟨0, le_rfl, fun i hi => absurd hi (Nat.not_lt_zero i), fun k _ _ => by omega⟩
  | succ j ih =>
      by_cases hj : First ws (j + 1)
      · exact ⟨j + 1, le_rfl, hj, fun k _ _ => by omega⟩
      · obtain ⟨p, hpj, hp, hinside⟩ := ih
        refine ⟨p, by omega, hp, fun k hpk hkj => ?_⟩
        rcases Nat.lt_or_eq_of_le hkj with hlt | rfl
        · exact hinside k hpk (by omega)
        · exact hj

/-- When equal labels stand next to each other, the run of a first place holds the
places of its label. -/
theorem Consecutive.mem_run_iff (hc : Consecutive ws) {p q : ℕ} (hp : First ws p)
    (hq : RunEnd ws p q) {k : ℕ} (hk : k < ws.length) :
    ws[k]? = ws[p]? ↔ p ≤ k ∧ k < q := by
  constructor
  · intro heq
    refine ⟨?_, ?_⟩
    · by_contra hlt
      exact hp k (by omega) heq
    · by_contra hle
      have hfirst := hq.next (by omega)
      rcases Nat.lt_or_eq_of_le (not_lt.mp hle) with hqk | rfl
      · exact hfirst p hq.lt (hc p q k hq.lt hqk hk heq.symm).symm
      · exact hfirst p hq.lt heq.symm
  · rintro ⟨hpk, hkq⟩
    induction k using Nat.strong_induction_on with
    | _ k ih =>
        rcases Nat.lt_or_eq_of_le hpk with hlt | rfl
        · obtain ⟨i, hik, heq⟩ := not_first_iff.mp (hq.inside k hlt hkq)
          rcases Nat.lt_or_ge i p with hip | hpi
          · exact absurd (hc i p k hip hlt hk heq).symm (hp i hip)
          · rw [← heq]
            exact ih i hik (hik.trans hk) hpi (hik.trans hkq)
        · rfl

/-- Equal labels stand next to each other when a place that is not first has the
label of the place before it. -/
theorem consecutive_of_step
    (hstep : ∀ k, k + 1 < ws.length → ¬ First ws (k + 1) → ws[k]? = ws[k + 1]?) :
    Consecutive ws := by
  intro i j k hij hjk hk heq
  have hback : ∀ d, d < k - i → ws[k - d]? = ws[i]? := by
    intro d
    induction d with
    | zero => exact fun _ => heq.symm
    | succ d ih =>
        intro hd
        have hprev := ih (by omega)
        have hsucc : k - (d + 1) + 1 = k - d := by omega
        have := hstep (k - (d + 1)) (by omega)
          (not_first_iff.mpr ⟨i, by omega, by rw [hsucc, hprev]⟩)
        rw [this, hsucc, hprev]
  have hlast := hback (k - j) (by omega)
  rwa [show k - (k - j) = j by omega] at hlast

variable [DecidableEq α]

/-- Places of one label from `p` to `q` and one more behind them. -/
theorem lt_count_of_run {p q k : ℕ} {x : α} (hqk : q ≤ k)
    (hrun : ∀ j, p ≤ j → j < q → ws[j]? = some x) (hk : ws[k]? = some x) :
    q - p < ws.countP fun w => w = x := by
  have hmid : ((ws.take q).drop p).countP (fun w => w = x) = q - p := by
    have hlen : ((ws.take q).drop p).length = q - p := by
      have := (List.getElem?_eq_some_iff.mp hk).1
      simp only [List.length_drop, List.length_take]
      omega
    rw [← hlen, List.countP_eq_length]
    intro y hy
    obtain ⟨j, hj⟩ := List.mem_iff_getElem?.mp hy
    have hlt := (List.getElem?_eq_some_iff.mp hj).1
    rw [hlen] at hlt
    rw [List.getElem?_drop, List.getElem?_take, if_pos (by omega),
      hrun (p + j) (by omega) (by omega)] at hj
    exact decide_eq_true (Option.some.inj hj).symm
  have hrest : 0 < (ws.drop q).countP fun w => w = x := by
    rw [List.countP_pos_iff]
    refine ⟨x, List.mem_iff_getElem?.mpr ⟨k - q, ?_⟩, decide_eq_true rfl⟩
    rw [List.getElem?_drop, ← hk]
    congr 1
    omega
  have htake : ((ws.take q).drop p).countP (fun w => w = x) ≤
      (ws.take q).countP fun w => w = x := (List.drop_sublist p _).countP_le
  have hsplit := congrArg (List.countP fun w => w = x) (List.take_append_drop q ws)
  rw [List.countP_append] at hsplit
  omega

/-- When every run is as long as its label has places, equal labels stand next to
each other. -/
theorem consecutive_of_count (hend : ∀ p < ws.length, First ws p → ∃ q, RunEnd ws p q)
    (hcount : ∀ p q x, First ws p → RunEnd ws p q → ws[p]? = some x →
      q - p = ws.countP fun w => w = x) :
    Consecutive ws := by
  refine consecutive_of_step fun k => ?_
  induction k using Nat.strong_induction_on with
  | _ k ih =>
      intro hk hnot
      obtain ⟨p, hpk, hsame, hp⟩ := exists_first ws (k + 1)
      have hlt : p < k + 1 := by
        rcases Nat.lt_or_eq_of_le hpk with hlt | rfl
        · exact hlt
        · exact absurd hp hnot
      obtain ⟨q, hq⟩ := hend p (by omega) hp
      obtain ⟨x, hx⟩ : ∃ x, ws[p]? = some x := ⟨_, List.getElem?_eq_getElem (by omega)⟩
      -- the run of `p` holds its label up to the place `k`
      have hrun : ∀ j, p ≤ j → j < q → j ≤ k → ws[j]? = some x := by
        intro j hpj hjq hjk
        induction j, hpj using Nat.le_induction with
        | base => exact hx
        | succ j hpj ihj =>
            rw [← ih j (by omega) (by omega) (hq.inside (j + 1) (by omega) hjq)]
            exact ihj (by omega) (by omega)
      rcases Nat.lt_or_ge k q with hkq | hqk
      · rw [hrun k (by omega) hkq le_rfl, ← hsame, hx]
      · have hmore := lt_count_of_run (p := p) (hqk.trans (Nat.le_succ k))
          (fun j hpj hjq => hrun j hpj hjq (by omega)) (hsame ▸ hx)
        have := hcount p q x hp hq hx
        omega

/-- The first place of a label is where a search for it stops. -/
theorem findIdx?_eq_some_iff {p : ℕ} {x : α} :
    ws.findIdx? (fun w => w = x) = some p ↔ ws[p]? = some x ∧ First ws p := by
  rw [List.findIdx?_eq_some_iff_getElem]
  constructor
  · rintro ⟨hlt, hx, hbefore⟩
    have hget : ws[p]? = some x := by
      rw [List.getElem?_eq_getElem hlt, of_decide_eq_true hx]
    refine ⟨hget, fun i hi heq => ?_⟩
    rw [hget, List.getElem?_eq_getElem (by omega), Option.some.injEq] at heq
    exact hbefore i hi (decide_eq_true heq)
  · rintro ⟨hx, hfirst⟩
    obtain ⟨hlt, hget⟩ := List.getElem?_eq_some_iff.mp hx
    refine ⟨hlt, decide_eq_true hget, fun i hi heq => hfirst i hi ?_⟩
    rw [hx, List.getElem?_eq_getElem (by omega), of_decide_eq_true heq]

/-- A place is first when a search in the part before it finds nothing. -/
theorem findIdx?_take_eq_none_iff {p : ℕ} {x : α} (hx : ws[p]? = some x) :
    (ws.take p).findIdx? (fun w => w = x) = none ↔ First ws p := by
  rw [List.findIdx?_eq_none_iff]
  constructor
  · intro hnone i hi heq
    have hmem : x ∈ ws.take p := by
      rw [List.mem_iff_getElem?]
      exact ⟨i, by rw [List.getElem?_take, if_pos hi, heq, hx]⟩
    simpa using hnone x hmem
  · intro hfirst w hw
    obtain ⟨i, hlt, hi⟩ := exists_of_mem_take hw
    rw [decide_eq_false_iff_not]
    rintro rfl
    exact hfirst i hlt (hi.trans hx.symm)

/-- When equal labels stand next to each other, the run of a first place holds the
elements with its label. -/
theorem Consecutive.filter_eq {β : Type*} {f : β → α} {l : List β}
    (hc : Consecutive (l.map f)) {p q : ℕ} (hp : First (l.map f) p) (hq : RunEnd (l.map f) p q)
    {x : α} (hx : (l.map f)[p]? = some x) :
    l.filter (fun b => f b = x) = (l.drop p).take (q - p) := by
  have hmem : ∀ k b, l[k]? = some b → (f b = x ↔ p ≤ k ∧ k < q) := by
    intro k b hb
    have hlt := (List.getElem?_eq_some_iff.mp hb).1
    rw [← hc.mem_run_iff hp hq (by simpa using hlt), hx, List.getElem?_map, hb]
    simp
  have hcut : l = l.take p ++ ((l.drop p).take (q - p) ++ l.drop q) := by
    have hdrop : (l.drop p).drop (q - p) = l.drop q := by
      rw [List.drop_drop]
      congr 1
      have := hq.lt
      omega
    rw [← hdrop, List.take_append_drop, List.take_append_drop]
  have hleft : (l.take p).filter (fun b => f b = x) = [] := by
    rw [List.filter_eq_nil_iff]
    intro b hb heq
    obtain ⟨k, hlt, hk⟩ := exists_of_mem_take hb
    have := (hmem k b hk).mp (of_decide_eq_true heq)
    omega
  have hmid : ((l.drop p).take (q - p)).filter (fun b => f b = x) = (l.drop p).take (q - p) := by
    rw [List.filter_eq_self]
    intro b hb
    obtain ⟨k, hlt, hk⟩ := exists_of_mem_take hb
    rw [List.getElem?_drop] at hk
    exact decide_eq_true ((hmem _ b hk).mpr ⟨by omega, by omega⟩)
  have hright : (l.drop q).filter (fun b => f b = x) = [] := by
    rw [List.filter_eq_nil_iff]
    intro b hb heq
    obtain ⟨k, hk⟩ := List.mem_iff_getElem?.mp hb
    rw [List.getElem?_drop] at hk
    have := (hmem _ b hk).mp (of_decide_eq_true heq)
    omega
  conv_lhs => rw [hcut]
  rw [List.filter_append, List.filter_append, hleft, hmid, hright, List.nil_append,
    List.append_nil]

/-! ## The run behind a mark -/

/-- The elements from a place up to the next marked one. -/
def runAt {β : Type*} (mark : β → Bool) (l : List β) (p : ℕ) : List β :=
  match l.drop p with
  | [] => []
  | b :: rest => b :: rest.takeWhile fun c => !mark c

theorem exists_takeWhile {β : Type*} (test : β → Bool) (l : List β) :
    ∃ n ≤ l.length, l.takeWhile test = l.take n ∧
      (∀ k b, k < n → l[k]? = some b → test b = true) ∧
      ∀ b, l[n]? = some b → test b = false := by
  induction l with
  | nil => exact ⟨0, le_rfl, rfl, by simp, by simp⟩
  | cons a l ih =>
      cases ha : test a with
      | false =>
          rw [List.takeWhile_cons_of_neg (by simp [ha])]
          exact ⟨0, Nat.zero_le _, rfl, by simp, by simp [ha]⟩
      | true =>
          obtain ⟨n, hn, htake, hinside, hnext⟩ := ih
          refine ⟨n + 1, by simpa using hn, ?_, fun k b hk hb => ?_, hnext⟩
          · rw [List.takeWhile_cons_of_pos ha, List.take_succ_cons, htake]
          · cases k with
            | zero => simpa [← Option.some.inj hb] using ha
            | succ k => exact hinside k b (by omega) hb

/-- A run is cut out of the list, and the element behind it is marked. -/
theorem exists_runAt {β : Type*} (mark : β → Bool) {l : List β} {p : ℕ} (hp : p < l.length) :
    ∃ q, p < q ∧ q ≤ l.length ∧ runAt mark l p = (l.drop p).take (q - p) ∧
      (∀ k b, p < k → k < q → l[k]? = some b → mark b = false) ∧
      ∀ b, l[q]? = some b → mark b = true := by
  obtain ⟨n, hn, htake, hinside, hnext⟩ :=
    exists_takeWhile (fun b => !mark b) (l.drop (p + 1))
  rw [List.length_drop] at hn
  refine ⟨p + 1 + n, by omega, by omega, ?_, fun k b hpk hkq hk => ?_, fun b hb => ?_⟩
  · rw [runAt, List.drop_eq_getElem_cons hp, show p + 1 + n - p = n + 1 by omega,
      List.take_succ_cons, ← htake]
  · have hget : (l.drop (p + 1))[k - (p + 1)]? = some b := by
      rw [List.getElem?_drop, ← hk]
      congr 1
      omega
    simpa using hinside _ b (by omega) hget
  · have hget : (l.drop (p + 1))[n]? = some b := by rw [List.getElem?_drop, hb]
    simpa using hnext b hget

end RePlace.Runs
