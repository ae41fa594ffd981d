import Mathlib.Data.List.Sort
import Mathlib.Tactic

/-!
# Maps kept in the order of a comparator

A comparator in the C manner returns a negative, zero or positive integer. A map
kept in its order is the list of its entries; `insert` puts an entry at its
place. When the comparator is a strict order (`LawfulComparator`) and no key is
inserted twice, the entries are those inserted, in increasing order of key, and
the order of the insertions does not matter (`ofList_eq_of_perm`).
-/

namespace OrderedMap

variable {κ ν : Type*}

/-- A three-way comparator whose sign is a strict total order. -/
structure LawfulComparator (cmp : κ → κ → ℤ) : Prop where
  swap : ∀ a b, cmp a b < 0 ↔ 0 < cmp b a
  eq_iff : ∀ a b, cmp a b = 0 ↔ a = b
  trans : ∀ {a b c}, cmp a b < 0 → cmp b c < 0 → cmp a c < 0

/-- Put an entry at its place. A key that is already there gets the new value. -/
def insert (cmp : κ → κ → ℤ) (k : κ) (v : ν) : List (κ × ν) → List (κ × ν)
  | [] => [(k, v)]
  | e :: m =>
      if cmp k e.1 < 0 then (k, v) :: e :: m
      else if cmp k e.1 = 0 then (k, v) :: m
      else e :: insert cmp k v m

/-- Insert the entries of a list one after the other. -/
def ofList (cmp : κ → κ → ℤ) (m : List (κ × ν)) (es : List (κ × ν)) : List (κ × ν) :=
  es.foldl (fun m e => insert cmp e.1 e.2 m) m

/-- The keys increase along the list. -/
def Increasing (cmp : κ → κ → ℤ) (m : List (κ × ν)) : Prop :=
  m.Pairwise fun e e' => cmp e.1 e'.1 < 0

variable {cmp : κ → κ → ℤ}

theorem mem_insert {k : κ} {v : ν} {m : List (κ × ν)} {e : κ × ν}
    (h : e ∈ insert cmp k v m) : e = (k, v) ∨ e ∈ m := by
  induction m with
  | nil => simpa [insert] using h
  | cons e' m ih =>
      by_cases h₁ : cmp k e'.1 < 0
      · simpa [insert, h₁] using h
      · by_cases h₂ : cmp k e'.1 = 0
        · rw [insert, if_neg h₁, if_pos h₂, List.mem_cons] at h
          exact h.imp_right (List.mem_cons_of_mem _)
        · rw [insert, if_neg h₁, if_neg h₂, List.mem_cons] at h
          rcases h with rfl | h
          · exact .inr (List.mem_cons_self ..)
          · exact (ih h).imp_right (List.mem_cons_of_mem _)

/-- A map of the entries that keeps the comparison of the keys goes through. -/
theorem map_insert {κ' ν' : Type*} {cmp' : κ' → κ' → ℤ} {f : κ → κ'} {g : κ → ν → ν'}
    (hf : ∀ a b, cmp' (f a) (f b) = cmp a b) (k : κ) (v : ν) (m : List (κ × ν)) :
    (insert cmp k v m).map (fun e => (f e.1, g e.1 e.2)) =
      insert cmp' (f k) (g k v) (m.map fun e => (f e.1, g e.1 e.2)) := by
  induction m with
  | nil => rfl
  | cons e m ih =>
      simp only [insert, List.map_cons, hf]
      split
      · rfl
      · split
        · rfl
        · rw [List.map_cons, ih]

theorem map_ofList {κ' ν' : Type*} {cmp' : κ' → κ' → ℤ} {f : κ → κ'} {g : κ → ν → ν'}
    (hf : ∀ a b, cmp' (f a) (f b) = cmp a b) (m es : List (κ × ν)) :
    (ofList cmp m es).map (fun e => (f e.1, g e.1 e.2)) =
      ofList cmp' (m.map fun e => (f e.1, g e.1 e.2)) (es.map fun e => (f e.1, g e.1 e.2)) := by
  induction es generalizing m with
  | nil => rfl
  | cons e es ih =>
      have hstep := ih (insert cmp e.1 e.2 m)
      rw [map_insert hf] at hstep
      exact hstep

theorem insert_perm (hc : LawfulComparator cmp) {k : κ} {v : ν} {m : List (κ × ν)}
    (hk : ∀ e ∈ m, e.1 ≠ k) : (insert cmp k v m).Perm ((k, v) :: m) := by
  induction m with
  | nil => simp [insert]
  | cons e m ih =>
      have hne : cmp k e.1 ≠ 0 := fun h =>
        hk e (List.mem_cons_self ..) ((hc.eq_iff k e.1).mp h).symm
      by_cases h₁ : cmp k e.1 < 0
      · rw [insert, if_pos h₁]
      · rw [insert, if_neg h₁, if_neg hne]
        exact ((ih fun e' he' => hk e' (List.mem_cons_of_mem _ he')).cons e).trans
          (List.Perm.swap ..)

theorem insert_increasing (hc : LawfulComparator cmp) {k : κ} {v : ν} {m : List (κ × ν)}
    (hm : Increasing cmp m) : Increasing cmp (insert cmp k v m) := by
  induction m with
  | nil => simp [insert, Increasing]
  | cons e m ih =>
      obtain ⟨hhead, htail⟩ := List.pairwise_cons.mp hm
      by_cases h₁ : cmp k e.1 < 0
      · rw [insert, if_pos h₁]
        refine List.pairwise_cons.mpr ⟨?_, hm⟩
        intro e' he'
        rcases List.mem_cons.mp he' with rfl | he'
        · exact h₁
        · exact hc.trans h₁ (hhead e' he')
      · by_cases h₂ : cmp k e.1 = 0
        · rw [insert, if_neg h₁, if_pos h₂]
          obtain rfl : k = e.1 := (hc.eq_iff k e.1).mp h₂
          exact List.pairwise_cons.mpr ⟨hhead, htail⟩
        · rw [insert, if_neg h₁, if_neg h₂]
          refine List.pairwise_cons.mpr ⟨?_, ih htail⟩
          intro e' he'
          rcases mem_insert he' with rfl | he'
          · exact (hc.swap e.1 k).mpr (by omega)
          · exact hhead e' he'

theorem mem_ofList {m es : List (κ × ν)} {e : κ × ν} (h : e ∈ ofList cmp m es) :
    e ∈ m ∨ e ∈ es := by
  induction es generalizing m with
  | nil => exact .inl h
  | cons e' es ih =>
      rcases ih h with hins | hes
      · rcases mem_insert hins with rfl | hm
        · exact .inr (List.mem_cons_self ..)
        · exact .inl hm
      · exact .inr (List.mem_cons_of_mem _ hes)

theorem Increasing.nodup_keys (hc : LawfulComparator cmp) {m : List (κ × ν)}
    (hm : Increasing cmp m) : (m.map Prod.fst).Nodup := by
  refine List.pairwise_map.mpr (hm.imp fun {e e'} hlt heq => ?_)
  have := (hc.eq_iff e.1 e'.1).mpr heq
  omega

theorem ofList_perm (hc : LawfulComparator cmp) {m es : List (κ × ν)}
    (hnd : ((m ++ es).map Prod.fst).Nodup) : (ofList cmp m es).Perm (m ++ es) := by
  induction es generalizing m with
  | nil => simp [ofList]
  | cons e es ih =>
      have hfresh : ∀ e' ∈ m, e'.1 ≠ e.1 := by
        rw [List.map_append, List.map_cons] at hnd
        intro e' he' heq
        exact (List.nodup_append.mp hnd).2.2 e'.1 (List.mem_map_of_mem he') e.1
          (List.mem_cons_self ..) heq
      have hins := insert_perm (v := e.2) hc hfresh
      have hmid : (insert cmp e.1 e.2 m ++ es).Perm (m ++ e :: es) :=
        (hins.append_right es).trans List.perm_middle.symm
      refine (ih ?_).trans hmid
      exact (hmid.map Prod.fst).nodup_iff.mpr hnd

theorem ofList_increasing (hc : LawfulComparator cmp) {m : List (κ × ν)}
    (hm : Increasing cmp m) (es : List (κ × ν)) : Increasing cmp (ofList cmp m es) := by
  induction es generalizing m with
  | nil => exact hm
  | cons e es ih => exact ih (insert_increasing hc hm)

theorem eq_of_perm_of_increasing (hc : LawfulComparator cmp) {m m' : List (κ × ν)}
    (hp : m.Perm m') (hm : Increasing cmp m) (hm' : Increasing cmp m') : m = m' := by
  refine List.Perm.eq_of_pairwise ?_ hm hm' hp
  intro e e' _ _ h h'
  have := (hc.swap e.1 e'.1).mp h
  omega

/-- Distinct keys may be inserted in any order. -/
theorem ofList_eq_of_perm (hc : LawfulComparator cmp) {es es' : List (κ × ν)}
    (hp : es.Perm es') (hnd : (es.map Prod.fst).Nodup) :
    ofList cmp [] es = ofList cmp [] es' := by
  have hnd' : (es'.map Prod.fst).Nodup := (hp.map Prod.fst).nodup_iff.mp hnd
  refine eq_of_perm_of_increasing hc ?_ (ofList_increasing hc List.Pairwise.nil es)
    (ofList_increasing hc List.Pairwise.nil es')
  exact (ofList_perm hc (m := []) hnd).trans (hp.trans (ofList_perm hc (m := []) hnd').symm)

/-- Dropping entries from the finished map or from the list it is built of is the
same. -/
theorem filter_ofList (hc : LawfulComparator cmp) (p : κ × ν → Bool) {es : List (κ × ν)}
    (hnd : (es.map Prod.fst).Nodup) :
    (ofList cmp [] es).filter p = ofList cmp [] (es.filter p) := by
  have hnd' : ((es.filter p).map Prod.fst).Nodup :=
    hnd.sublist (List.filter_sublist.map Prod.fst)
  refine eq_of_perm_of_increasing hc ?_
    (List.Pairwise.sublist List.filter_sublist (ofList_increasing hc List.Pairwise.nil es))
    (ofList_increasing hc List.Pairwise.nil _)
  exact ((ofList_perm hc (m := []) hnd).filter p).trans
    (ofList_perm hc (m := []) hnd').symm

end OrderedMap
