import Mathlib.Data.List.Basic
import Mathlib.Data.List.Count
import Mathlib.Data.Nat.Notation

/-!
# Objects that own handles

A foreign library hands out handles, which have to be given back. A program keeps them in
objects at addresses: an object is made empty, takes the handle that a call returns, gives
its handle to another object that is moved from it, and gives it back when it is destroyed.
`step` refuses what is undefined: an object that is not there, a call with the handle of an
empty object, and a handle that has been given back already.

The ledger of a program is that every handle is in one place: in an object, among those
given back, or among those lost because an object that had it has taken another one or has
been dropped. Every operation keeps it (`Ledger.effect`), so no handle that has been given
back is used or given back again (`exec_eq`).
-/

namespace Handles

/-- The operations of a program. -/
inductive Op
  /-- An empty object. -/
  | create (a : ℕ)
  /-- The object takes what a call returns: a handle, or a null pointer. -/
  | fill (a : ℕ) (got : Bool)
  /-- A new object is moved from another one. -/
  | move (a b : ℕ)
  /-- An object is assigned from another one, which is moved from. -/
  | moveAssign (a b : ℕ)
  /-- A call with the handle of the object. -/
  | use (a : ℕ)
  /-- A call with the handle of the object, which takes a null pointer as well. -/
  | inspect (a : ℕ)
  /-- The object gives back its handle and ends. -/
  | destroy (a : ℕ)
  /-- The object ends as it is. -/
  | drop (a : ℕ)
deriving DecidableEq

/-- The objects by their addresses, the number of handles that have been handed out, those
that have been given back, and those that no object has any more. -/
structure State where
  objects : List (ℕ × Option ℕ) := []
  next : ℕ := 0
  closed : List ℕ := []
  lost : List ℕ := []

/-- The objects without the one at an address. -/
def remove (objects : List (ℕ × Option ℕ)) (a : ℕ) : List (ℕ × Option ℕ) :=
  objects.filter fun x => x.1 ≠ a

/-- The objects with a new value of the one at an address. -/
def put (objects : List (ℕ × Option ℕ)) (a : ℕ) (v : Option ℕ) : List (ℕ × Option ℕ) :=
  (a, v) :: remove objects a

/-- The handles of the objects. -/
def held (objects : List (ℕ × Option ℕ)) : List ℕ := objects.filterMap Prod.snd

/-- What an operation does; none without the objects that it needs. -/
def effect (s : State) : Op → Option State
  | .create a =>
      match s.objects.lookup a with
      | some _ => none
      | none => some { s with objects := put s.objects a none }
  | .fill a got =>
      match s.objects.lookup a with
      | none => none
      | some old =>
          let s := { s with lost := old.toList ++ s.lost }
          if got then some { s with objects := put s.objects a (some s.next), next := s.next + 1 }
          else some { s with objects := put s.objects a none }
  | .move a b =>
      match s.objects.lookup a, s.objects.lookup b with
      | none, some h => some { s with objects := put (put s.objects b none) a h }
      | _, _ => none
  | .moveAssign a b =>
      match s.objects.lookup a, s.objects.lookup b with
      | some old, some h =>
          if a = b then some s
          else some { s with
            objects := put (put s.objects b none) a h, lost := old.toList ++ s.lost }
      | _, _ => none
  | .use a =>
      match s.objects.lookup a with
      | some (some _) => some s
      | _ => none
  | .inspect a =>
      match s.objects.lookup a with
      | some _ => some s
      | none => none
  | .destroy a =>
      match s.objects.lookup a with
      | none => none
      | some h =>
          some { s with objects := remove s.objects a, closed := h.toList ++ s.closed }
  | .drop a =>
      match s.objects.lookup a with
      | none => none
      | some h => some { s with objects := remove s.objects a, lost := h.toList ++ s.lost }

/-- The handle that an operation uses or gives back. -/
def touched (s : State) : Op → Option ℕ
  | .use a => (s.objects.lookup a).join
  | .inspect a => (s.objects.lookup a).join
  | .destroy a => (s.objects.lookup a).join
  | _ => none

/-- One operation; none when it is undefined. -/
def step (s : State) (op : Op) : Option State :=
  if (touched s op).any (· ∈ s.closed) then none else effect s op

/-- A program. -/
def exec (s : State) (ops : List Op) : Option State := ops.foldlM step s

/-! ## The ledger -/

/-- Addresses are distinct, and every handle that has been handed out is in one place. -/
structure Ledger (s : State) : Prop where
  addresses : (s.objects.map Prod.fst).Nodup
  handles : ∀ h, (held s.objects).count h + s.closed.count h + s.lost.count h =
    if h < s.next then 1 else 0

theorem ledger_init : Ledger {} where
  addresses := List.nodup_nil
  handles h := by simp [held]

section Lemmas

variable {objects : List (ℕ × Option ℕ)} {a b : ℕ} {v old : Option ℕ}

theorem nodup_remove (h : (objects.map Prod.fst).Nodup) (a : ℕ) :
    ((remove objects a).map Prod.fst).Nodup :=
  h.sublist (List.filter_sublist.map _)

theorem nodup_put (h : (objects.map Prod.fst).Nodup) (a : ℕ) (v : Option ℕ) :
    ((put objects a v).map Prod.fst).Nodup := by
  refine List.nodup_cons.mpr ⟨?_, nodup_remove h a⟩
  simp [remove]

theorem remove_of_lookup_eq_none (h : objects.lookup a = none) : remove objects a = objects := by
  rw [remove, List.filter_eq_self]
  intro x hx
  have hne := List.lookup_eq_none_iff.mp h x hx
  exact decide_eq_true fun heq => by simp [heq] at hne

theorem count_held_cons (a : ℕ) (v : Option ℕ) (objects : List (ℕ × Option ℕ)) (h : ℕ) :
    (held ((a, v) :: objects)).count h = v.toList.count h + (held objects).count h := by
  cases v with
  | none => simp [held]
  | some x => simp [held, List.count_cons, Nat.add_comm]

/-- The handle of an object is one of those held, beside those of the others. -/
theorem count_held (hnodup : (objects.map Prod.fst).Nodup) (ha : objects.lookup a = some old)
    (h : ℕ) : (held objects).count h = old.toList.count h + (held (remove objects a)).count h := by
  induction objects with
  | nil => cases ha
  | cons x objects ih =>
      obtain ⟨b, v⟩ := x
      obtain ⟨hb, hnodup⟩ := List.nodup_cons.mp hnodup
      by_cases hab : a = b
      · subst hab
        obtain rfl : v = old := by simpa using ha
        have hrest : remove ((a, v) :: objects) a = objects := by
          rw [remove, List.filter_cons_of_neg (by simp), ← remove]
          refine remove_of_lookup_eq_none (List.lookup_eq_none_iff.mpr fun x hx => ?_)
          have hne : a ≠ x.1 := fun heq => hb (heq ▸ List.mem_map.mpr ⟨x, hx, rfl⟩)
          simpa using hne
        rw [hrest]
        exact count_held_cons a v objects h
      · have hrest : remove ((b, v) :: objects) a = (b, v) :: remove objects a :=
          List.filter_cons_of_pos (decide_eq_true fun heq => hab heq.symm)
        rw [List.lookup_cons, beq_eq_false_iff_ne.mpr hab] at ha
        rw [hrest, count_held_cons, count_held_cons, ih hnodup ha]
        exact Nat.add_left_comm _ _ _

theorem count_held_put (objects : List (ℕ × Option ℕ)) (a : ℕ) (v : Option ℕ) (h : ℕ) :
    (held (put objects a v)).count h = v.toList.count h + (held (remove objects a)).count h :=
  count_held_cons a v (remove objects a) h

theorem lookup_remove (objects : List (ℕ × Option ℕ)) (hne : a ≠ b) :
    (remove objects b).lookup a = objects.lookup a := by
  induction objects with
  | nil => rfl
  | cons x objects ih =>
      obtain ⟨c, v⟩ := x
      by_cases hc : c = b
      · subst hc
        rw [remove, List.filter_cons_of_neg (by simp), ← remove, ih, List.lookup_cons,
          beq_eq_false_iff_ne.mpr hne]
      · rw [remove, List.filter_cons_of_pos (by simpa using hc), ← remove, List.lookup_cons,
          List.lookup_cons, ih]

theorem lookup_put (objects : List (ℕ × Option ℕ)) (hne : a ≠ b) :
    (put objects b v).lookup a = objects.lookup a := by
  rw [put, List.lookup_cons, beq_eq_false_iff_ne.mpr hne, lookup_remove objects hne]

end Lemmas

variable {s s' : State}

/-- An object is taken away, and its handle is given back or lost. -/
theorem Ledger.without (h : Ledger s) {a : ℕ} {v : Option ℕ} (hv : s.objects.lookup a = some v)
    {closed lost : List ℕ} (hgone : ∀ x, closed.count x + lost.count x =
      v.toList.count x + s.closed.count x + s.lost.count x) :
    Ledger { s with objects := remove s.objects a, closed, lost } where
  addresses := nodup_remove h.addresses a
  handles x := by
    have hx := h.handles x
    have hgone := hgone x
    rw [count_held h.addresses hv x] at hx
    dsimp only
    omega

/-- Every operation keeps the ledger. -/
theorem Ledger.effect (h : Ledger s) {op : Op} (hop : effect s op = some s') : Ledger s' := by
  cases op with
  | create a =>
      simp only [Handles.effect] at hop
      split at hop
      · cases hop
      · rename_i hnone
        obtain rfl := Option.some.inj hop
        refine ⟨nodup_put h.addresses a none, fun x => ?_⟩
        rw [count_held_put, remove_of_lookup_eq_none hnone]
        simpa using h.handles x
  | fill a got =>
      simp only [Handles.effect] at hop
      split at hop
      · cases hop
      · rename_i old hold
        have hcount := count_held h.addresses hold
        split at hop
        · obtain rfl := Option.some.inj hop
          refine ⟨nodup_put h.addresses a _, fun x => ?_⟩
          have hx := h.handles x
          rw [hcount x] at hx
          simp only [count_held_put, List.count_append]
          simp only [Option.toList_some, List.count_singleton, beq_iff_eq]
          split_ifs at hx ⊢ <;> omega
        · obtain rfl := Option.some.inj hop
          refine ⟨nodup_put h.addresses a _, fun x => ?_⟩
          have hx := h.handles x
          rw [hcount x] at hx
          simp only [count_held_put, List.count_append]
          simp only [Option.toList_none, List.count_nil]
          omega
  | move a b =>
      simp only [Handles.effect] at hop
      split at hop
      · rename_i v ha hb
        obtain rfl := Option.some.inj hop
        have hne : a ≠ b := fun heq => by simp [heq, hb] at ha
        have hput : (put s.objects b none).lookup a = none := by rwa [lookup_put _ hne]
        refine ⟨nodup_put (nodup_put h.addresses b none) a v, fun x => ?_⟩
        have hx := h.handles x
        rw [count_held h.addresses hb x] at hx
        rw [count_held_put, remove_of_lookup_eq_none hput, count_held_put]
        simp only [Option.toList_none, List.count_nil]
        omega
      · cases hop
  | moveAssign a b =>
      simp only [Handles.effect] at hop
      split at hop
      · rename_i old v ha hb
        split at hop
        · obtain rfl := Option.some.inj hop
          exact h
        · rename_i hne
          obtain rfl := Option.some.inj hop
          have hput : (put s.objects b none).lookup a = some old := by rwa [lookup_put _ hne]
          refine ⟨nodup_put (nodup_put h.addresses b none) a v, fun x => ?_⟩
          have hx := h.handles x
          have hcount := count_held (nodup_put h.addresses b none) hput x
          rw [count_held h.addresses hb x] at hx
          rw [count_held_put] at hcount
          rw [count_held_put]
          simp only [List.count_append]
          simp only [Option.toList_none, List.count_nil] at hcount
          omega
      · cases hop
  | use a =>
      simp only [Handles.effect] at hop
      split at hop
      · obtain rfl := Option.some.inj hop
        exact h
      · cases hop
  | inspect a =>
      simp only [Handles.effect] at hop
      split at hop
      · obtain rfl := Option.some.inj hop
        exact h
      · cases hop
  | destroy a =>
      simp only [Handles.effect] at hop
      split at hop
      · cases hop
      · rename_i v hv
        obtain rfl := Option.some.inj hop
        exact h.without hv fun x => by rw [List.count_append]
  | drop a =>
      simp only [Handles.effect] at hop
      split at hop
      · cases hop
      · rename_i v hv
        obtain rfl := Option.some.inj hop
        refine h.without hv fun x => ?_
        rw [List.count_append]
        omega

/-- No operation touches a handle that has been given back. -/
theorem step_eq (h : Ledger s) (op : Op) : step s op = Handles.effect s op := by
  have hheld : ∀ a x, (s.objects.lookup a).join = some x → x ∉ s.closed := by
    intro a x hx hclosed
    have hlookup : s.objects.lookup a = some (some x) := Option.join_eq_some_iff.mp hx
    have hcount := h.handles x
    rw [count_held h.addresses hlookup x] at hcount
    have hpos := List.count_pos_iff.mpr hclosed
    simp only [Option.toList_some, List.count_singleton_self] at hcount
    split_ifs at hcount <;> omega
  refine if_neg ?_
  rw [Option.any_eq_true]
  rintro ⟨x, hx, hclosed⟩
  cases op with
  | use a => exact hheld a x hx (of_decide_eq_true hclosed)
  | inspect a => exact hheld a x hx (of_decide_eq_true hclosed)
  | destroy a => exact hheld a x hx (of_decide_eq_true hclosed)
  | create a => cases hx
  | fill a got => cases hx
  | move a b => cases hx
  | moveAssign a b => cases hx
  | drop a => cases hx

/-- A program does what its operations do. -/
theorem exec_eq (h : Ledger s) (ops : List Op) : exec s ops = ops.foldlM Handles.effect s := by
  induction ops generalizing s with
  | nil => rfl
  | cons op ops ih =>
      rw [exec, List.foldlM_cons, List.foldlM_cons, step_eq h op]
      cases hop : Handles.effect s op with
      | none => rfl
      | some s' => exact ih (h.effect hop)

theorem Ledger.exec (h : Ledger s) {ops : List Op} (hops : exec s ops = some s') : Ledger s' := by
  rw [exec_eq h] at hops
  induction ops generalizing s with
  | nil =>
      obtain rfl := Option.some.inj hops
      exact h
  | cons op ops ih =>
      rw [List.foldlM_cons] at hops
      obtain ⟨t, ht, hops⟩ := Option.bind_eq_some_iff.mp hops
      exact ih (h.effect ht) hops

/-! ## Programs that clean up -/

/-- The state with its handles renamed, behind those that are gone already. -/
def State.shift (s t : State) : State where
  objects := s.objects.map fun x => (x.1, x.2.map (· + t.next))
  next := s.next + t.next
  closed := s.closed.map (· + t.next) ++ t.closed
  lost := s.lost.map (· + t.next) ++ t.lost

theorem lookup_map (f : Option ℕ → Option ℕ) (objects : List (ℕ × Option ℕ)) (a : ℕ) :
    (objects.map fun x => (x.1, f x.2)).lookup a = (objects.lookup a).map f := by
  induction objects with
  | nil => rfl
  | cons x objects ih =>
      rw [List.map_cons, List.lookup_cons, List.lookup_cons, ih]
      cases a == x.1 <;> rfl

theorem remove_map (f : Option ℕ → Option ℕ) (objects : List (ℕ × Option ℕ)) (a : ℕ) :
    remove (objects.map fun x => (x.1, f x.2)) a =
      (remove objects a).map fun x => (x.1, f x.2) := by
  rw [remove, List.filter_map]
  rfl

theorem put_map (f : Option ℕ → Option ℕ) (objects : List (ℕ × Option ℕ)) (a : ℕ)
    (v : Option ℕ) : put (objects.map fun x => (x.1, f x.2)) a (f v) =
      (put objects a v).map fun x => (x.1, f x.2) := by
  rw [put, remove_map]
  rfl

theorem map_toList_append (old : Option ℕ) (l l' : List ℕ) (n : ℕ) :
    (old.map (· + n)).toList ++ (l.map (· + n) ++ l') =
      (old.toList ++ l).map (· + n) ++ l' := by
  cases old <;> rfl

/-- What an operation does is the same whatever the handles are called. -/
theorem effect_shift (s t : State) (op : Op) :
    Handles.effect (s.shift t) op = (Handles.effect s op).map (·.shift t) := by
  have hlookup : ∀ a, (s.shift t).objects.lookup a =
      (s.objects.lookup a).map (Option.map (· + t.next)) :=
    lookup_map (Option.map (· + t.next)) s.objects
  have hput : ∀ objects a v, put (objects.map fun x : ℕ × Option ℕ =>
      (x.1, x.2.map (· + t.next))) a (Option.map (· + t.next) v) =
        (put objects a v).map fun x => (x.1, x.2.map (· + t.next)) :=
    put_map (Option.map (· + t.next))
  have hremove : ∀ a, remove (s.shift t).objects a =
      (remove s.objects a).map fun x => (x.1, x.2.map (· + t.next)) :=
    remove_map (Option.map (· + t.next)) s.objects
  cases op with
  | create a =>
      simp only [Handles.effect, hlookup]
      cases s.objects.lookup a with
      | some v => rfl
      | none => exact congrArg some (by simp only [State.shift, ← hput]; rfl)
  | fill a got =>
      simp only [Handles.effect, hlookup]
      cases s.objects.lookup a with
      | none => rfl
      | some old =>
          cases got with
          | true =>
              refine congrArg some ?_
              simp only [State.shift, ← hput, map_toList_append]
              simp [Nat.add_right_comm]
          | false =>
              refine congrArg some ?_
              simp only [State.shift, ← hput, map_toList_append]
              rfl
  | move a b =>
      simp only [Handles.effect, hlookup]
      cases s.objects.lookup a with
      | some v => rfl
      | none =>
      cases s.objects.lookup b with
      | none => rfl
      | some h => exact congrArg some (by simp only [State.shift, ← hput]; rfl)
  | moveAssign a b =>
      simp only [Handles.effect, hlookup]
      cases s.objects.lookup a with
      | none => rfl
      | some old =>
      cases s.objects.lookup b with
      | none => rfl
      | some h =>
          by_cases hab : a = b
          · simp [hab]
          · simp only [Option.map_some, if_neg hab]
            refine congrArg some ?_
            simp only [State.shift, ← hput, map_toList_append]
            rfl
  | use a =>
      simp only [Handles.effect, hlookup]
      cases s.objects.lookup a with
      | none => rfl
      | some v => cases v <;> rfl
  | inspect a =>
      simp only [Handles.effect, hlookup]
      cases s.objects.lookup a <;> rfl
  | destroy a =>
      simp only [Handles.effect, hlookup]
      cases s.objects.lookup a with
      | none => rfl
      | some h =>
          refine congrArg some ?_
          simp only [hremove]
          simp only [State.shift, map_toList_append]
  | drop a =>
      simp only [Handles.effect, hlookup]
      cases s.objects.lookup a with
      | none => rfl
      | some h =>
          refine congrArg some ?_
          simp only [hremove]
          simp only [State.shift, map_toList_append]

theorem foldlM_effect_shift (s t : State) (ops : List Op) :
    ops.foldlM Handles.effect (s.shift t) = (ops.foldlM Handles.effect s).map (·.shift t) := by
  induction ops generalizing s with
  | nil => rfl
  | cons op ops ih =>
      rw [List.foldlM_cons, List.foldlM_cons, effect_shift]
      cases Handles.effect s op with
      | none => rfl
      | some s' => exact ih s'

/-- How many handles the program loses when it leaves no object behind. -/
def losses (ops : List Op) : Option ℕ :=
  match ops.foldlM Handles.effect {} with
  | some ⟨[], _, _, lost⟩ => some lost.length
  | _ => none

/-- Without any objects, the program runs, leaves none behind and loses this many handles. -/
def Settles (ops : List Op) (k : ℕ) : Prop :=
  ∀ s, s.objects = [] → ∃ s', ops.foldlM Handles.effect s = some s' ∧ s'.objects = [] ∧
    s'.lost.length = s.lost.length + k

theorem Settles.append {ops ops' : List Op} {j k : ℕ} (h : Settles ops j) (h' : Settles ops' k) :
    Settles (ops ++ ops') (j + k) := by
  intro s hs
  obtain ⟨t, ht, hempty, hlost⟩ := h s hs
  obtain ⟨u, hu, hempty', hlost'⟩ := h' t hempty
  refine ⟨u, ?_, hempty', by omega⟩
  rw [List.foldlM_append, ht]
  exact hu

/-- It is enough to run the program once. -/
theorem settles_of_losses {ops : List Op} {k : ℕ} (h : losses ops = some k) : Settles ops k := by
  intro s hs
  have hshift : State.shift {} s = s := by
    obtain ⟨objects, n, c, l⟩ := s
    obtain rfl : objects = [] := hs
    simp [State.shift]
  unfold losses at h
  split at h
  · rename_i n c l hrun
    refine ⟨State.shift ⟨[], n, c, l⟩ s, ?_, rfl, ?_⟩
    · rw [← hshift, foldlM_effect_shift, hrun, hshift]
      rfl
    · obtain rfl := Option.some.inj h
      simp [State.shift, Nat.add_comm]
  · cases h

end Handles
