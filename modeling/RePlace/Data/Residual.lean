import RePlace.Data.PatternTrie

/-!
# Residuals of a table of words

Read a table of words letter by letter: the residual of the table after a stem
is the list of what is left of the words that went along, in the order of the
table. A stem takes any letter when the first word left continues with a
parameter (`takesAny`); otherwise only the words that continue with the letter
read go along. `residual` says what a `PatternTrie` built of the table should
look like below a stem, and `sub_insertAll` says that it does, as long as no
word ends where its stem takes any letter (`NoOpenEnd`).
-/

universe u v

namespace PatternTrie

variable {σ : Type u} {ι : Type v}

/-- A table of words, each with its label. -/
abbrev Table (σ : Type u) (ι : Type v) : Type (max u v) := List (List σ × ι)

namespace Table

/-- What is left of the words that start with any letter. -/
def tails (M : Table σ ι) : Table σ ι :=
  M.filterMap fun e =>
    match e.1 with
    | _ :: x => some (x, e.2)
    | [] => none

/-- The label of the first word of which nothing is left. -/
def firstEnd (M : Table σ ι) : Option ι := (M.find? fun e => e.1.isEmpty).map Prod.snd

variable [DecidableEq σ]

/-- What is left of the words that start with the letter. -/
def tailsWith (s : σ) (M : Table σ ι) : Table σ ι :=
  M.filterMap fun e =>
    match e.1 with
    | r :: x => if r = s then some (x, e.2) else none
    | [] => none

variable (isParam : σ → Bool)

/-- The first word of the table starts with a parameter. -/
def startsWithParam (M : Table σ ι) : Bool :=
  match M with
  | e :: _ => startsParam isParam e.1
  | [] => false

/-- Read one letter below the first. -/
def step (M : Table σ ι) (s : σ) : Table σ ι :=
  if startsWithParam isParam M then tails M else tailsWith s M

/-- Read a word below the first letter. -/
def residue : Table σ ι → List σ → Table σ ι
  | M, [] => M
  | M, s :: x => residue (step isParam M s) x

/-- Read a word from the top of the table. The first letter is never taken as
any letter. -/
def residual (P : Table σ ι) : List σ → Table σ ι
  | [] => P
  | s :: x => residue isParam (tailsWith s P) x

/-- Behind the stem any letter goes along. -/
def takesAny (P : Table σ ι) (x : List σ) : Bool :=
  !x.isEmpty && startsWithParam isParam (residual isParam P x)

/-- No word of the table ends where its stem takes any letter. -/
def NoOpenEnd (P : Table σ ι) : Prop := ∀ e ∈ P, takesAny isParam P e.1 = false

end Table

open Table

section Tables

theorem mem_tails {M : Table σ ι} {x : List σ} {i : ι} :
    (x, i) ∈ tails M ↔ ∃ s, (s :: x, i) ∈ M := by
  simp only [tails, List.mem_filterMap, Prod.exists]
  constructor
  · rintro ⟨w, j, hw, h⟩
    cases w with
    | nil => simp at h
    | cons s w =>
        obtain ⟨rfl, rfl⟩ : w = x ∧ j = i := by simpa using h
        exact ⟨s, hw⟩
  · rintro ⟨s, hs⟩
    exact ⟨s :: x, i, hs, rfl⟩

theorem firstEnd_eq_some {M : Table σ ι} {i : ι} (h : firstEnd M = some i) : ([], i) ∈ M := by
  obtain ⟨e, he, rfl⟩ := Option.map_eq_some_iff.mp h
  have hnil : e.1 = [] := by simpa using List.find?_some he
  have hmem := List.mem_of_find?_eq_some he
  rwa [← hnil]

theorem firstEnd_isSome_of_mem {M : Table σ ι} {i : ι} (h : ([], i) ∈ M) :
    ∃ k, firstEnd M = some k := by
  have : (firstEnd M).isSome := by
    rw [firstEnd, Option.isSome_map, List.find?_isSome]
    exact ⟨_, h, rfl⟩
  exact Option.isSome_iff_exists.mp this

@[simp] theorem firstEnd_nil : firstEnd ([] : Table σ ι) = none := rfl

theorem firstEnd_cons (e : List σ × ι) (M : Table σ ι) :
    firstEnd (e :: M) = if e.1.isEmpty then some e.2 else firstEnd M := by
  by_cases h : e.1.isEmpty = true <;> simp [firstEnd, h]

variable [DecidableEq σ]

theorem mem_tailsWith {M : Table σ ι} {s : σ} {x : List σ} {i : ι} :
    (x, i) ∈ tailsWith s M ↔ (s :: x, i) ∈ M := by
  simp only [tailsWith, List.mem_filterMap, Prod.exists]
  constructor
  · rintro ⟨w, j, hw, h⟩
    cases w with
    | nil => simp at h
    | cons r w =>
        by_cases hr : r = s
        · obtain ⟨rfl, rfl⟩ : w = x ∧ j = i := by simpa [hr] using h
          exact hr ▸ hw
        · simp [hr] at h
  · intro hs
    exact ⟨s :: x, i, hs, by simp⟩

@[simp] theorem tailsWith_nil (s : σ) : tailsWith s ([] : Table σ ι) = [] := rfl

variable {isParam : σ → Bool}

@[simp] theorem residue_nil (M : Table σ ι) : residue isParam M [] = M := rfl

@[simp] theorem residue_cons (M : Table σ ι) (s : σ) (x : List σ) :
    residue isParam M (s :: x) = residue isParam (step isParam M s) x := rfl

@[simp] theorem residual_nil (P : Table σ ι) : residual isParam P [] = P := rfl

@[simp] theorem residual_cons (P : Table σ ι) (s : σ) (x : List σ) :
    residual isParam P (s :: x) = residue isParam (tailsWith s P) x := rfl

theorem step_nil (s : σ) : step isParam ([] : Table σ ι) s = [] := by
  simp [step, startsWithParam]

@[simp] theorem residue_empty (x : List σ) : residue isParam ([] : Table σ ι) x = [] := by
  induction x with
  | nil => rfl
  | cons s x ih => rw [residue_cons, step_nil, ih]

theorem residue_append (M : Table σ ι) (x y : List σ) :
    residue isParam M (x ++ y) = residue isParam (residue isParam M x) y := by
  induction x generalizing M with
  | nil => rfl
  | cons s x ih => exact ih (step isParam M s)

theorem residual_append (P : Table σ ι) {x : List σ} (hx : x ≠ []) (y : List σ) :
    residual isParam P (x ++ y) = residue isParam (residual isParam P x) y := by
  cases x with
  | nil => exact absurd rfl hx
  | cons s x => exact residue_append (tailsWith s P) x y

theorem takesAny_iff {P : Table σ ι} {x : List σ} :
    takesAny isParam P x = true ↔
      x ≠ [] ∧ startsWithParam isParam (residual isParam P x) = true := by
  cases x <;> simp [takesAny]

/-- A word goes along with its own letters. -/
theorem mem_residue_self {M : Table σ ι} {x y : List σ} {i : ι} (h : (x ++ y, i) ∈ M) :
    (y, i) ∈ residue isParam M x := by
  induction x generalizing M with
  | nil => exact h
  | cons s x ih =>
      refine ih (M := step isParam M s) ?_
      rw [step]
      split
      · exact mem_tails.mpr ⟨s, h⟩
      · exact mem_tailsWith.mpr h

theorem mem_residual_self {P : Table σ ι} {x y : List σ} {i : ι} (h : (x ++ y, i) ∈ P) :
    (y, i) ∈ residual isParam P x := by
  cases x with
  | nil => exact h
  | cons s x => exact mem_residue_self (mem_tailsWith.mpr h)

/-- Two words of one length are read alike below `M`: where they differ, any
letter goes along. -/
def ReadAlike (isParam : σ → Bool) : Table σ ι → List σ → List σ → Prop
  | _, [], [] => True
  | M, s :: x, r :: z =>
      (startsWithParam isParam M = true ∨ s = r) ∧ ReadAlike isParam (step isParam M s) x z
  | _, _, _ => False

theorem ReadAlike.step_eq {M : Table σ ι} {s r : σ}
    (h : startsWithParam isParam M = true ∨ s = r) : step isParam M s = step isParam M r := by
  rcases h with h | rfl
  · simp [step, h]
  · rfl

theorem ReadAlike.eq_nil {M : Table σ ι} {z : List σ} (h : ReadAlike isParam M [] z) : z = [] := by
  cases z with
  | nil => rfl
  | cons r z => exact h.elim

theorem ReadAlike.exists_cons {M : Table σ ι} {s : σ} {x z : List σ}
    (h : ReadAlike isParam M (s :: x) z) :
    ∃ r z', z = r :: z' ∧ (startsWithParam isParam M = true ∨ s = r) ∧
      ReadAlike isParam (step isParam M s) x z' := by
  cases z with
  | nil => exact h.elim
  | cons r z => exact ⟨r, z, rfl, h.1, h.2⟩

theorem ReadAlike.residue_eq {M : Table σ ι} {x z : List σ} (h : ReadAlike isParam M x z) :
    residue isParam M x = residue isParam M z := by
  induction x generalizing M z with
  | nil => rw [h.eq_nil]
  | cons s x ih =>
      obtain ⟨r, z, rfl, hsr, hrest⟩ := h.exists_cons
      rw [residue_cons, residue_cons, ← ReadAlike.step_eq hsr]
      exact ih hrest

theorem ReadAlike.length_eq {M : Table σ ι} {x z : List σ} (h : ReadAlike isParam M x z) :
    x.length = z.length := by
  induction x generalizing M z with
  | nil => rw [h.eq_nil]
  | cons s x ih =>
      obtain ⟨r, z, rfl, -, hrest⟩ := h.exists_cons
      simpa using ih hrest

/-- What is left behind a word is left of a word of the table that is read
alike. -/
theorem exists_of_mem_residue {M : Table σ ι} {x y : List σ} {i : ι}
    (h : (y, i) ∈ residue isParam M x) :
    ∃ z, (z ++ y, i) ∈ M ∧ ReadAlike isParam M x z := by
  induction x generalizing M with
  | nil => exact ⟨[], h, trivial⟩
  | cons s x ih =>
      obtain ⟨z, hz, halike⟩ := ih h
      rw [step] at hz
      split at hz
      next hp =>
          obtain ⟨r, hr⟩ := mem_tails.mp hz
          exact ⟨r :: z, hr, .inl hp, halike⟩
      next => exact ⟨s :: z, mem_tailsWith.mp hz, .inr rfl, halike⟩

/-- From the top of a table, two words are read alike when they start with the
same letter and are read alike below. -/
def ReadAlikeTop (isParam : σ → Bool) (P : Table σ ι) : List σ → List σ → Prop
  | [], [] => True
  | s :: x, r :: z => s = r ∧ ReadAlike isParam (tailsWith s P) x z
  | _, _ => False

theorem ReadAlikeTop.eq_nil_or_exists_cons {P : Table σ ι} {x z : List σ}
    (h : ReadAlikeTop isParam P x z) :
    x = [] ∧ z = [] ∨ ∃ s x' z', x = s :: x' ∧ z = s :: z' ∧
      ReadAlike isParam (tailsWith s P) x' z' := by
  cases x with
  | nil =>
      cases z with
      | nil => exact .inl ⟨rfl, rfl⟩
      | cons r z => exact h.elim
  | cons s x =>
      cases z with
      | nil => exact h.elim
      | cons r z => exact .inr ⟨s, x, z, rfl, by rw [h.1], h.2⟩

theorem ReadAlikeTop.residual_eq {P : Table σ ι} {x z : List σ}
    (h : ReadAlikeTop isParam P x z) : residual isParam P x = residual isParam P z := by
  rcases h.eq_nil_or_exists_cons with ⟨rfl, rfl⟩ | ⟨s, x, z, rfl, rfl, halike⟩
  · rfl
  · exact halike.residue_eq

theorem ReadAlikeTop.length_eq {P : Table σ ι} {x z : List σ}
    (h : ReadAlikeTop isParam P x z) : x.length = z.length := by
  rcases h.eq_nil_or_exists_cons with ⟨rfl, rfl⟩ | ⟨s, x, z, rfl, rfl, halike⟩
  · rfl
  · simpa using halike.length_eq

theorem exists_of_mem_residual {P : Table σ ι} {x y : List σ} {i : ι}
    (h : (y, i) ∈ residual isParam P x) :
    ∃ z, (z ++ y, i) ∈ P ∧ ReadAlikeTop isParam P x z := by
  cases x with
  | nil => exact ⟨[], h, trivial⟩
  | cons s x =>
      obtain ⟨z, hz, halike⟩ := exists_of_mem_residue h
      exact ⟨s :: z, mem_tailsWith.mp hz, rfl, halike⟩

/-! ## Growing the table -/

omit [DecidableEq σ] in
theorem startsWithParam_append {A : Table σ ι} (hA : A ≠ []) (B : Table σ ι) :
    startsWithParam isParam (A ++ B) = startsWithParam isParam A := by
  cases A with
  | nil => exact absurd rfl hA
  | cons e A => rfl

theorem step_append {A : Table σ ι} (hA : A ≠ []) (B : Table σ ι) (s : σ) :
    ∃ C, step isParam (A ++ B) s = step isParam A s ++ C := by
  rw [step, startsWithParam_append hA, step]
  split
  · exact ⟨tails B, List.filterMap_append⟩
  · exact ⟨tailsWith s B, List.filterMap_append⟩

theorem residue_append_table {A : Table σ ι} {x : List σ} (h : residue isParam A x ≠ [])
    (B : Table σ ι) : ∃ C, residue isParam (A ++ B) x = residue isParam A x ++ C := by
  induction x generalizing A B with
  | nil => exact ⟨B, rfl⟩
  | cons s x ih =>
      have hA : A ≠ [] := by
        rintro rfl
        exact h (residue_empty _)
      obtain ⟨C, hC⟩ := @step_append _ _ _ isParam A hA B s
      rw [residue_cons, residue_cons, hC]
      exact ih h C

/-- Later words do not change what the words before them decide. -/
theorem residual_append_table {A : Table σ ι} {x : List σ} (h : residual isParam A x ≠ [])
    (B : Table σ ι) : ∃ C, residual isParam (A ++ B) x = residual isParam A x ++ C := by
  cases x with
  | nil => exact ⟨B, rfl⟩
  | cons s x =>
      have hcut : tailsWith s (A ++ B) = tailsWith s A ++ tailsWith s B := List.filterMap_append
      rw [residual_cons, residual_cons, hcut]
      exact residue_append_table h (tailsWith s B)

theorem takesAny_append_table {A : Table σ ι} {x : List σ} (h : residual isParam A x ≠ [])
    (B : Table σ ι) : takesAny isParam (A ++ B) x = takesAny isParam A x := by
  obtain ⟨C, hC⟩ := residual_append_table h B
  rw [takesAny, takesAny, hC, startsWithParam_append h]

theorem takesAny_mono {A : Table σ ι} {x : List σ} (h : takesAny isParam A x = true)
    (B : Table σ ι) : takesAny isParam (A ++ B) x = true := by
  rw [takesAny_append_table _ B, h]
  intro hnil
  rw [takesAny_iff, hnil] at h
  simp [startsWithParam] at h

theorem Table.NoOpenEnd.of_append {A B : Table σ ι} (h : NoOpenEnd isParam (A ++ B)) :
    NoOpenEnd isParam A ∧ ∀ e ∈ B, takesAny isParam A e.1 = false := by
  have hA : ∀ e ∈ A ++ B, takesAny isParam A e.1 = false := by
    intro e he
    rw [← Bool.not_eq_true]
    intro htakes
    have := h e he
    rw [takesAny_mono htakes B] at this
    cases this
  exact ⟨fun e he => hA e (List.mem_append_left _ he),
    fun e he => hA e (List.mem_append_right _ he)⟩

/-- A word added at the end of a table leaves the rest of itself behind its stem. -/
theorem residue_append_self (A : Table σ ι) (x y : List σ) (i : ι) :
    residue isParam (A ++ [(x ++ y, i)]) x = residue isParam A x ++ [(y, i)] := by
  induction x generalizing A with
  | nil => rfl
  | cons s x ih =>
      have hself : step isParam (A ++ [(s :: (x ++ y), i)]) s =
          step isParam A s ++ [(x ++ y, i)] := by
        cases A with
        | nil =>
            rw [List.nil_append, step_nil, step]
            split <;> simp [tails, tailsWith]
        | cons e A =>
            have htails : tails (e :: A ++ [(s :: (x ++ y), i)]) =
                tails (e :: A) ++ [(x ++ y, i)] := List.filterMap_append
            have hwith : tailsWith s (e :: A ++ [(s :: (x ++ y), i)]) =
                tailsWith s (e :: A) ++ tailsWith s [(s :: (x ++ y), i)] := List.filterMap_append
            rw [step, startsWithParam_append (by simp), step, htails, hwith]
            split
            · rfl
            · simp [tailsWith]
      rw [List.cons_append, residue_cons, residue_cons, hself, ih]

theorem takesAny_append_self (A : Table σ ι) (x : List σ) (i : ι) :
    takesAny isParam (A ++ [(x, i)]) x = takesAny isParam A x := by
  cases x with
  | nil => rfl
  | cons s x =>
      have hself : residual isParam (A ++ [(s :: x, i)]) (s :: x) =
          residual isParam A (s :: x) ++ [([], i)] := by
        have hcut : tailsWith s (A ++ [(s :: x, i)]) = tailsWith s A ++ [(x ++ [], i)] := by
          simp [tailsWith]
        rw [residual_cons, hcut, residue_append_self]
        rfl
      rw [takesAny, takesAny, hself]
      cases residual isParam A (s :: x) <;> rfl

theorem Table.NoOpenEnd.append_singleton {A : Table σ ι} (hA : NoOpenEnd isParam A)
    {e : List σ × ι} (he : takesAny isParam A e.1 = false) : NoOpenEnd isParam (A ++ [e]) := by
  intro e' he'
  rcases List.mem_append.mp he' with hmem | hmem
  · have hleft : residual isParam A e'.1 ≠ [] := by
      have hself : ([], e'.2) ∈ residual isParam A e'.1 :=
        mem_residual_self (by rwa [List.append_nil])
      exact List.ne_nil_of_mem hself
    rw [takesAny_append_table hleft, hA e' hmem]
  · obtain rfl := List.mem_singleton.mp hmem
    rw [takesAny_append_self, he]

/-! ## Words without parameters -/

/-- No word of the table has a parameter. -/
def Table.Plain (isParam : σ → Bool) (P : Table σ ι) : Prop :=
  ∀ e ∈ P, ∀ s ∈ e.1, isParam s = false

omit [DecidableEq σ] in
theorem Table.Plain.startsWithParam {M : Table σ ι} (hM : M.Plain isParam) :
    startsWithParam isParam M = false := by
  cases M with
  | nil => rfl
  | cons e M =>
      obtain ⟨w, i⟩ := e
      cases w with
      | nil => rfl
      | cons s w => exact hM _ (List.mem_cons_self ..) s (List.mem_cons_self ..)

theorem Table.Plain.tailsWith {M : Table σ ι} (hM : M.Plain isParam) (s : σ) :
    (tailsWith s M).Plain isParam := by
  rintro ⟨w, i⟩ he r hr
  exact hM _ (mem_tailsWith.mp he) r (List.mem_cons_of_mem _ hr)

theorem Table.Plain.step_eq {M : Table σ ι} (hM : M.Plain isParam) (s : σ) :
    step isParam M s = Table.tailsWith s M := by
  rw [step, hM.startsWithParam]
  rfl

theorem firstEnd_tailsWith (M : Table σ ι) (s : σ) (x : List σ) :
    (((tailsWith s M).find? fun e => e.1 = x).map Prod.snd) =
      ((M.find? fun e => e.1 = s :: x).map Prod.snd) := by
  induction M with
  | nil => rfl
  | cons e M ih =>
      obtain ⟨w, i⟩ := e
      cases w with
      | nil => simpa [tailsWith] using ih
      | cons r w =>
          by_cases hr : r = s
          · subst hr
            by_cases hw : w = x
            · simp [tailsWith, hw]
            · simpa [tailsWith, hw] using ih
          · simpa [tailsWith, hr] using ih

/-- Below any stem a table without parameters leaves the words that continue it. -/
theorem Table.Plain.residue {M : Table σ ι} (hM : M.Plain isParam) (x : List σ) :
    (residue isParam M x).Plain isParam ∧
      firstEnd (Table.residue isParam M x) = (M.find? fun e => e.1 = x).map Prod.snd := by
  induction x generalizing M with
  | nil =>
      have hends : (fun e : List σ × ι => e.1.isEmpty) = fun e => decide (e.1 = []) := by
        funext e
        cases e.1 <;> simp
      exact ⟨hM, by rw [residue_nil, firstEnd, hends]⟩
  | cons s x ih =>
      rw [residue_cons, hM.step_eq, ← firstEnd_tailsWith]
      exact ih (hM.tailsWith s)

theorem Table.Plain.takesAny {P : Table σ ι} (hP : P.Plain isParam) (x : List σ) :
    takesAny isParam P x = false := by
  cases x with
  | nil => rfl
  | cons s x =>
      have := ((hP.tailsWith s).residue x).1.startsWithParam
      simp [Table.takesAny, this]

theorem Table.Plain.firstEnd_residual {P : Table σ ι} (hP : P.Plain isParam) {x : List σ}
    (hx : x ≠ []) :
    firstEnd (residual isParam P x) = (P.find? fun e => e.1 = x).map Prod.snd := by
  cases x with
  | nil => exact absurd rfl hx
  | cons s x => rw [residual_cons, ((hP.tailsWith s).residue x).2, firstEnd_tailsWith]

end Tables

/-! ## The trie of a table -/

section Build

variable [DecidableEq σ] (isParam : σ → Bool)

/-- Insert the words of a table one after the other. -/
def insertAll (t : PatternTrie σ ι) (M : Table σ ι) : PatternTrie σ ι :=
  M.foldl (fun t e => insert isParam t e.1 e.2) t

variable {isParam}

@[simp] theorem insertAll_nil (t : PatternTrie σ ι) : insertAll isParam t [] = t := rfl

@[simp] theorem insertAll_cons (t : PatternTrie σ ι) (e : List σ × ι) (M : Table σ ι) :
    insertAll isParam t (e :: M) = insertAll isParam (insert isParam t e.1 e.2) M := rfl

theorem insertAll_append (t : PatternTrie σ ι) (A B : Table σ ι) :
    insertAll isParam t (A ++ B) = insertAll isParam (insertAll isParam t A) B :=
  List.foldl_append

theorem insertAll_lit (o : Option ι) (c : σ → PatternTrie σ ι) (M : Table σ ι) :
    insertAll isParam (lit o c) M =
      lit (o <|> firstEnd M) fun s => insertAll isParam (c s) (tailsWith s M) := by
  induction M generalizing o c with
  | nil => simp
  | cons e M ih =>
      obtain ⟨w, i⟩ := e
      cases w with
      | nil =>
          rw [insertAll_cons, insert_lit_nil, ih, firstEnd_cons]
          cases o <;> simp [tailsWith]
      | cons r w =>
          rw [insertAll_cons, insert_lit_cons, ih, firstEnd_cons]
          congr 1
          funext s
          by_cases hs : s = r
          · subst hs
            simp [tailsWith]
          · simp [tailsWith, hs, Ne.symm hs]

theorem insertAll_wild (n : σ) (t : PatternTrie σ ι) {M : Table σ ι}
    (hM : ∀ e ∈ M, e.1 ≠ []) :
    insertAll isParam (wild n t) M = wild n (insertAll isParam t (tails M)) := by
  induction M generalizing t with
  | nil => rfl
  | cons e M ih =>
      obtain ⟨w, i⟩ := e
      have htail : ∀ e ∈ M, e.1 ≠ [] := fun e he => hM e (List.mem_cons_of_mem _ he)
      cases w with
      | nil => exact absurd rfl (hM _ (List.mem_cons_self ..))
      | cons r w => simpa [tails] using ih (insert isParam t w i) htail

/-- The first word of a table decides the kind of its node: a parameter makes it
`wild`. -/
theorem insertAll_absent_of_param {M : Table σ ι} (hp : startsWithParam isParam M = true)
    (hM : ∀ e ∈ M, e.1 ≠ []) :
    ∃ n, insertAll isParam absent M = wild n (insertAll isParam absent (tails M)) := by
  cases M with
  | nil => simp [startsWithParam] at hp
  | cons e M =>
      obtain ⟨w, i⟩ := e
      have hstart : startsParam isParam w = true := hp
      obtain ⟨s, y, rfl, -, hfresh⟩ := fresh_of_startsParam hstart i
      refine ⟨s, ?_⟩
      rw [insertAll_cons, insert_absent, hfresh,
        insertAll_wild _ _ fun e he => hM e (List.mem_cons_of_mem _ he)]
      simp [tails]

theorem insertAll_absent_of_not_param {M : Table σ ι} (hne : M ≠ [])
    (hp : startsWithParam isParam M = false) :
    insertAll isParam absent M =
      lit (firstEnd M) fun s => insertAll isParam absent (tailsWith s M) := by
  cases M with
  | nil => exact absurd rfl hne
  | cons e M =>
      have hempty : insertAll isParam absent (e :: M) = insertAll isParam empty (e :: M) := by
        rw [insertAll_cons, insert_absent, fresh_eq_insert_empty hp, insertAll_cons]
      rw [hempty, empty, insertAll_lit]
      simp

/-- Below a stem stands the trie of what is left behind the stem. -/
theorem sub_insertAll_absent {M : Table σ ι} {x : List σ}
    (h : ∀ y, startsWithParam isParam (residue isParam M y) = true →
      ∀ e ∈ residue isParam M y, e.1 ≠ []) :
    sub (insertAll isParam absent M) x = insertAll isParam absent (residue isParam M x) := by
  induction x generalizing M with
  | nil => simp
  | cons s x ih =>
      have hstep : sub (insertAll isParam absent (step isParam M s)) x =
          insertAll isParam absent (residue isParam (step isParam M s) x) :=
        ih fun y => h (s :: y)
      rw [residue_cons, ← hstep, step]
      by_cases hp : startsWithParam isParam M = true
      · obtain ⟨n, hn⟩ := insertAll_absent_of_param hp (h [] hp)
        simp [hn, hp]
      · by_cases hne : M = []
        · subst hne
          simp [startsWithParam]
        · rw [insertAll_absent_of_not_param hne (by simpa using hp)]
          simp [hp]

/-- A table in which no word ends where any letter goes along has no such end
behind any stem. -/
theorem Table.NoOpenEnd.residual {P : Table σ ι} (h : NoOpenEnd isParam P) {x : List σ}
    (hx : takesAny isParam P x = true) : ∀ e ∈ Table.residual isParam P x, e.1 ≠ [] := by
  rintro ⟨w, i⟩ he rfl
  obtain ⟨z, hz, halike⟩ := exists_of_mem_residual he
  have hopen := h _ hz
  obtain ⟨hne, hp⟩ := takesAny_iff.mp hx
  have hz' : takesAny isParam P (z ++ []) = true := by
    rw [List.append_nil, takesAny_iff, ← halike.residual_eq]
    refine ⟨?_, hp⟩
    rintro rfl
    exact hne (List.length_eq_zero_iff.mp halike.length_eq)
  rw [hz'] at hopen
  cases hopen

/-- The trie of a table shows, below every stem, the trie of its residual. -/
theorem sub_insertAll {P : Table σ ι} (h : NoOpenEnd isParam P) {x : List σ} (hx : x ≠ []) :
    sub (insertAll isParam empty P) x =
      insertAll isParam absent (Table.residual isParam P x) := by
  cases x with
  | nil => exact absurd rfl hx
  | cons s x =>
      rw [empty, insertAll_lit, sub_lit_cons, residual_cons]
      refine sub_insertAll_absent fun y hy => ?_
      exact h.residual (x := s :: y) (takesAny_iff.mpr ⟨by simp, hy⟩)

theorem isWild_insertAll_absent {M : Table σ ι}
    (h : startsWithParam isParam M = true → ∀ e ∈ M, e.1 ≠ []) :
    isWild (insertAll isParam absent M) = startsWithParam isParam M := by
  by_cases hp : startsWithParam isParam M = true
  · obtain ⟨n, hn⟩ := insertAll_absent_of_param hp (h hp)
    simp [hn, hp]
  · rw [Bool.not_eq_true] at hp
    by_cases hne : M = []
    · simp [hne, startsWithParam]
    · simp [insertAll_absent_of_not_param hne hp, hp]

/-- A stem leads to a `wild` node exactly when any letter goes along behind it. -/
theorem isWild_sub_insertAll {P : Table σ ι} (h : NoOpenEnd isParam P) (x : List σ) :
    isWild (sub (insertAll isParam empty P) x) = takesAny isParam P x := by
  cases x with
  | nil => simp [empty, insertAll_lit, takesAny]
  | cons s x =>
      rw [sub_insertAll h (by simp), isWild_insertAll_absent]
      · simp [takesAny]
      · exact fun hp => h.residual (takesAny_iff.mpr ⟨by simp, hp⟩)

/-- A stem leads to a node owned by the first word that ends there. -/
theorem owner_sub_insertAll {P : Table σ ι} (h : NoOpenEnd isParam P) {x : List σ}
    (hx : x ≠ []) :
    owner (sub (insertAll isParam empty P) x) = firstEnd (Table.residual isParam P x) := by
  rw [sub_insertAll h hx]
  by_cases hp : startsWithParam isParam (Table.residual isParam P x) = true
  · have hends := h.residual (takesAny_iff.mpr ⟨hx, hp⟩)
    obtain ⟨n, hn⟩ := insertAll_absent_of_param hp hends
    rw [hn, owner_wild]
    cases hf : firstEnd (Table.residual isParam P x) with
    | none => rfl
    | some i => exact absurd rfl (hends _ (firstEnd_eq_some hf))
  · by_cases hne : Table.residual isParam P x = []
    · simp [hne]
    · rw [insertAll_absent_of_not_param hne (by simpa using hp), owner_lit]

end Build

end PatternTrie
