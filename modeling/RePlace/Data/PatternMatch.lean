import RePlace.Data.Residual

/-!
# Which words a table of patterns finds

A word of a table is a pattern: a parameter stands for any letter, every other
letter for itself (`Matches`). The trie of a table need not find what the
patterns match. `Table.Sound` is the condition under which everything found is
matched, `Table.Complete` the condition under which everything matched is found;
for each part of a condition there is a lemma that says what goes wrong without
it. Both can be decided (`Table.sound_iff`, `Table.complete_iff`).
-/

universe u v

namespace PatternTrie

variable {σ : Type u} {ι : Type v}

/-- The pattern `w` matches the word `x` letter by letter. -/
def Matches (isParam : σ → Bool) (w x : List σ) : Prop :=
  List.Forall₂ (fun p s => isParam p = true ∨ p = s) w x

variable {isParam : σ → Bool}

theorem Matches.length_eq {w x : List σ} (h : Matches isParam w x) : w.length = x.length :=
  List.Forall₂.length_eq h

/-- A literal letter of a pattern is matched by itself only. -/
theorem Matches.literal {a b y : List σ} {p s : σ} (h : Matches isParam (a ++ p :: b) (a ++ s :: y))
    (hp : isParam p = false) : p = s := by
  induction a with
  | nil =>
      rcases List.forall₂_cons.mp h with ⟨hparam | heq, -⟩
      · rw [hp] at hparam
        cases hparam
      · exact heq
  | cons r a ih => exact ih (List.forall₂_cons.mp h).2

/-- A pattern that matches a pattern matches what that one matches. -/
theorem Matches.trans {v w x : List σ} (h : Matches isParam v w) (h' : Matches isParam w x) :
    Matches isParam v x := by
  induction h generalizing x with
  | nil => exact h'
  | cons hpq _ ih =>
      cases h' with
      | cons hqs hrest =>
          refine .cons ?_ (ih hrest)
          rcases hpq with hp | rfl
          · exact .inl hp
          · exact hqs

open Table

variable [DecidableEq σ]

/-! ## Matching and reading -/

/-- A pattern whose parameters stand where any letter goes along is read like
every word it matches. -/
theorem Matches.readAlike {M : Table σ ι} {w x : List σ} (h : Matches isParam w x)
    (hparams : ∀ a p b, w = a ++ p :: b → isParam p = true →
      startsWithParam isParam (residue isParam M a) = true) : ReadAlike isParam M x w := by
  induction h generalizing M with
  | nil => trivial
  | @cons p s w x hps _ ih =>
      have hhead : startsWithParam isParam M = true ∨ s = p := by
        rcases hps with hp | rfl
        · exact .inl (hparams [] p w rfl hp)
        · exact .inr rfl
      refine ⟨hhead, ih fun a q b hw hq => ?_⟩
      rw [ReadAlike.step_eq hhead]
      exact hparams (p :: a) q b (by rw [hw]; rfl) hq

/-- A word that is read like a pattern whose letters are parameters wherever any
letter goes along is matched by it. -/
theorem ReadAlike.matches {M : Table σ ι} {x w : List σ} (h : ReadAlike isParam M x w)
    (hparams : ∀ a p b, w = a ++ p :: b →
      startsWithParam isParam (residue isParam M a) = true → isParam p = true) :
    Matches isParam w x := by
  induction w generalizing M x with
  | nil =>
      cases x with
      | nil => exact .nil
      | cons s x => exact h.elim
  | cons p w ih =>
      cases x with
      | nil => exact h.elim
      | cons s x =>
          refine .cons ?_ (ih h.2 fun a q b hw hq => ?_)
          · exact h.1.imp (hparams [] p w rfl) Eq.symm
          · rw [ReadAlike.step_eq h.1] at hq
            exact hparams (p :: a) q b (by rw [hw]; rfl) hq

theorem Matches.readAlikeTop {P : Table σ ι} {w x : List σ} (h : Matches isParam w x)
    (hparams : ∀ a p b, w = a ++ p :: b → isParam p = true → takesAny isParam P a = true) :
    ReadAlikeTop isParam P x w := by
  cases h with
  | nil => trivial
  | @cons p s w x hps hrest =>
      rcases hps with hp | rfl
      · exact absurd (hparams [] p w rfl hp) (by simp [takesAny])
      · refine ⟨rfl, Matches.readAlike hrest fun a q b hw hq => ?_⟩
        have := hparams (p :: a) q b (by rw [hw]; rfl) hq
        exact (takesAny_iff.mp this).2

theorem ReadAlikeTop.matches {P : Table σ ι} {x w : List σ} (h : ReadAlikeTop isParam P x w)
    (hparams : ∀ a p b, w = a ++ p :: b → takesAny isParam P a = true → isParam p = true) :
    Matches isParam w x := by
  rcases h.eq_nil_or_exists_cons with ⟨rfl, rfl⟩ | ⟨s, x, w, rfl, rfl, hrest⟩
  · exact .nil
  · refine .cons (.inr rfl) (hrest.matches fun a q b hw hq => ?_)
    exact hparams (s :: a) q b (by rw [hw]; rfl) (takesAny_iff.mpr ⟨by simp, hq⟩)

/-- Where any letter goes along, one letter is read like another. -/
theorem residual_swap {P : Table σ ι} {a : List σ} (ha : takesAny isParam P a = true) (p q : σ)
    (b : List σ) : residual isParam P (a ++ q :: b) = residual isParam P (a ++ p :: b) := by
  obtain ⟨hne, hp⟩ := takesAny_iff.mp ha
  rw [residual_append P hne, residual_append P hne, residue_cons, residue_cons, step, step,
    if_pos hp, if_pos hp]

/-- Where a literal is expected, nothing is left behind a letter of no pattern. -/
theorem residual_eq_nil_of_missing {P : Table σ ι} {a : List σ}
    (ha : takesAny isParam P a = false) {q : σ} (hq : ∀ e ∈ P, q ∉ e.1) (b : List σ) :
    residual isParam P (a ++ q :: b) = [] := by
  have hnone : ∀ M : Table σ ι, (∀ e ∈ M, q ∉ e.1) → tailsWith q M = [] := by
    intro M hM
    rw [List.eq_nil_iff_forall_not_mem]
    rintro ⟨y, i⟩ hy
    exact hM _ (mem_tailsWith.mp hy) (List.mem_cons_self ..)
  by_cases hnil : a = []
  · rw [hnil, List.nil_append, residual_cons, hnone P hq, residue_empty]
  · have hclosed : startsWithParam isParam (residual isParam P a) = false := by
      rw [← Bool.not_eq_true]
      intro hp
      rw [takesAny_iff.mpr ⟨hnil, hp⟩] at ha
      cases ha
    rw [residual_append P hnil, residue_cons, step, hclosed]
    refine (congrArg (residue isParam · b) (hnone _ ?_)).trans (residue_empty b)
    rintro ⟨y, i⟩ hy hmem
    obtain ⟨z, hz, -⟩ := exists_of_mem_residual hy
    exact hq _ hz (List.mem_append_right z hmem)

theorem ReadAlikeTop.takesAny_append {P : Table σ ι} {x w : List σ}
    (h : ReadAlikeTop isParam P x w) (hx : x ≠ []) (y : List σ) :
    takesAny isParam P (x ++ y) = takesAny isParam P (w ++ y) := by
  have hw : w ≠ [] := by
    rintro rfl
    exact hx (List.length_eq_zero_iff.mp h.length_eq)
  have hres : residual isParam P (x ++ y) = residual isParam P (w ++ y) := by
    rw [residual_append P hx, residual_append P hw, h.residual_eq]
  rw [Bool.eq_iff_iff, takesAny_iff, takesAny_iff, hres]
  simp [hx, hw]

/-! ## Soundness -/

/-- No word ends where any letter goes along or one letter before such a place,
and where any letter goes along the first word of a place has a parameter. -/
structure Table.Sound (isParam : σ → Bool) (P : Table σ ι) : Prop where
  noOpenEnd : NoOpenEnd isParam P
  noOpenNext : ∀ e ∈ P, ∀ s, takesAny isParam P (e.1 ++ [s]) = false
  params : ∀ e ∈ P, firstEnd (residual isParam P e.1) = some e.2 → ∀ a p b, e.1 = a ++ p :: b →
    takesAny isParam P a = true → isParam p = true

theorem exists_of_firstEnd {P : Table σ ι} {x : List σ} {i : ι}
    (h : firstEnd (residual isParam P x) = some i) :
    ∃ w, (w, i) ∈ P ∧ ReadAlikeTop isParam P x w ∧
      firstEnd (residual isParam P w) = some i := by
  obtain ⟨w, hw, halike⟩ := exists_of_mem_residual (firstEnd_eq_some h)
  rw [List.append_nil] at hw
  exact ⟨w, hw, halike, by rw [← halike.residual_eq, h]⟩

/-- The root of the trie has no owner. -/
theorem owner_insertAll_empty {P : Table σ ι} (hne : ∀ e ∈ P, e.1 ≠ []) :
    owner (insertAll isParam empty P) = none := by
  rw [empty, insertAll_lit, owner_lit]
  cases hf : firstEnd P with
  | none => rfl
  | some k => exact absurd rfl (hne _ (firstEnd_eq_some hf))

theorem ne_nil_of_owner {P : Table σ ι} (hne : ∀ e ∈ P, e.1 ≠ []) {x : List σ} {i : ι}
    (h : owner (sub (insertAll isParam empty P) x) = some i) : x ≠ [] := by
  rintro rfl
  rw [sub_nil, owner_insertAll_empty hne] at h
  cases h

/-- In a sound table the label found belongs to a pattern that matches. -/
theorem Table.Sound.matches_of_find {P : Table σ ι} (hP : P.Sound isParam)
    (hne : ∀ e ∈ P, e.1 ≠ []) {x : List σ} {i : ι}
    (h : find none (insertAll isParam empty P) x = some i) :
    ∃ w, (w, i) ∈ P ∧ Matches isParam w x := by
  rcases find_cases h with howner | ⟨-, ⟨hlast, -⟩ | ⟨y, s, z, -, howner, hwild⟩⟩
  · have hx := ne_nil_of_owner hne howner
    rw [owner_sub_insertAll hP.noOpenEnd hx] at howner
    obtain ⟨w, hw, halike, hfirst⟩ := exists_of_firstEnd howner
    exact ⟨w, hw, halike.matches (hP.params _ hw hfirst)⟩
  · cases hlast
  · -- the reader has stopped one letter behind an owned node
    have hy := ne_nil_of_owner hne howner
    rw [owner_sub_insertAll hP.noOpenEnd hy] at howner
    obtain ⟨w, hw, halike, -⟩ := exists_of_firstEnd howner
    have hclosed := hP.noOpenNext _ hw s
    rw [← halike.takesAny_append hy, ← isWild_sub_insertAll hP.noOpenEnd, hwild] at hclosed
    cases hclosed

theorem exists_firstEnd (isParam : σ → Bool) {P : Table σ ι} {e : List σ × ι} (he : e ∈ P) :
    ∃ i, firstEnd (residual isParam P e.1) = some i :=
  firstEnd_isSome_of_mem (mem_residual_self (by rwa [List.append_nil]))

/-- The word of a pattern leads to an owned node. -/
theorem find_self {P : Table σ ι} (hP : NoOpenEnd isParam P) {w : List σ} (hne : w ≠ []) {i : ι}
    (hi : firstEnd (residual isParam P w) = some i) :
    find none (insertAll isParam empty P) w = some i := by
  refine find_of_owner none ?_
  rw [owner_sub_insertAll hP hne, hi]

/-- One letter behind a pattern, before a place where any letter goes along, a
pattern of another length is found. -/
theorem exists_find_of_openNext {P : Table σ ι} (hP : NoOpenEnd isParam P) {e : List σ × ι}
    (he : e ∈ P) (hne : e.1 ≠ []) {s : σ} (hs : takesAny isParam P (e.1 ++ [s]) = true) :
    ∃ i w, (w, i) ∈ P ∧ w.length = e.1.length ∧
      find none (insertAll isParam empty P) (e.1 ++ [s]) = some i := by
  obtain ⟨i, hi⟩ := exists_firstEnd isParam he
  obtain ⟨w, hw, halike, -⟩ := exists_of_firstEnd hi
  refine ⟨i, w, hw, halike.length_eq.symm, find_of_wild_after_owner none ?_ ?_⟩
  · rw [owner_sub_insertAll hP hne, hi]
  · rw [isWild_sub_insertAll hP, hs]

/-- Where any letter goes along, a literal of the first pattern of a place does
not hinder another letter. -/
theorem find_of_literal {P : Table σ ι} (hP : NoOpenEnd isParam P) {a b : List σ} {p : σ} {i : ι}
    (hi : firstEnd (residual isParam P (a ++ p :: b)) = some i)
    (ha : takesAny isParam P a = true) (q : σ) :
    find none (insertAll isParam empty P) (a ++ q :: b) = some i := by
  refine find_of_owner none ?_
  rw [owner_sub_insertAll hP (by simp), residual_swap ha p, hi]

/-! ## Completeness -/

/-- No word ends where any letter goes along, parameters stand only where any
letter goes along, and the first word of a place matches the words that end
there. -/
structure Table.Complete (isParam : σ → Bool) (P : Table σ ι) : Prop where
  noOpenEnd : NoOpenEnd isParam P
  params : ∀ e ∈ P, ∀ a p b, e.1 = a ++ p :: b → isParam p = true → takesAny isParam P a = true
  first : ∀ e ∈ P, ∀ i w, firstEnd (residual isParam P e.1) = some i → (w, i) ∈ P →
    Matches isParam w e.1

/-- In a complete table every word that a pattern matches finds a pattern that
matches it. -/
theorem Table.Complete.exists_find {P : Table σ ι} (hP : P.Complete isParam) {e : List σ × ι}
    (he : e ∈ P) (hne : e.1 ≠ []) {x : List σ} (hx : Matches isParam e.1 x) :
    ∃ i w, (w, i) ∈ P ∧ Matches isParam w x ∧
      find none (insertAll isParam empty P) x = some i := by
  have halike := hx.readAlikeTop (hP.params e he)
  obtain ⟨i, hi⟩ := exists_firstEnd isParam he
  obtain ⟨w, hw, -⟩ := exists_of_firstEnd hi
  have hx' : x ≠ [] := by
    rintro rfl
    exact hne (List.length_eq_zero_iff.mp hx.length_eq)
  refine ⟨i, w, hw, (hP.first e he i w hi hw).trans hx, find_of_owner none ?_⟩
  rw [owner_sub_insertAll hP.noOpenEnd hx', halike.residual_eq, hi]

/-- Where a literal is expected, a letter of no pattern finds nothing. -/
theorem find_eq_none_of_missing {P : Table σ ι} (hP : NoOpenEnd isParam P) {a : List σ}
    (ha : takesAny isParam P a = false) {q : σ} (hq : ∀ e ∈ P, q ∉ e.1) (b : List σ) :
    find none (insertAll isParam empty P) (a ++ q :: b) = none := by
  refine find_of_absent none ?_
  rw [sub_insertAll hP (by simp), residual_eq_nil_of_missing ha hq, insertAll_nil]

/-! ## Deciding the conditions -/

/-- A word is cut at each of its letters. -/
theorem forall_cut_iff {α : Type*} {w : List α} {Q : List α → α → Prop} :
    (∀ a p b, w = a ++ p :: b → Q a p) ↔ ∀ i : Fin w.length, Q (w.take i) (w.get i) := by
  constructor
  · intro h i
    refine h _ _ (w.drop (i + 1)) ?_
    rw [List.get_eq_getElem, List.getElem_cons_drop, List.take_append_drop]
  · rintro h a p b rfl
    have hi := h ⟨a.length, by simp⟩
    simpa using hi

/-- Where a literal is expected, any letter goes along only behind a letter of the
table. -/
theorem exists_mem_of_takesAny_concat {P : Table σ ι} {x : List σ} {s : σ}
    (hx : takesAny isParam P x = false) (hs : takesAny isParam P (x ++ [s]) = true) :
    ∃ e ∈ P, s ∈ e.1 := by
  by_contra hno
  have hmissing : ∀ e ∈ P, s ∉ e.1 := fun e he hmem => hno ⟨e, he, hmem⟩
  rw [takesAny, residual_eq_nil_of_missing hx hmissing] at hs
  simp [startsWithParam] at hs

instance (P : Table σ ι) : Decidable (NoOpenEnd isParam P) :=
  inferInstanceAs (Decidable (∀ e ∈ P, takesAny isParam P e.1 = false))

instance (w x : List σ) : Decidable (Matches isParam w x) :=
  inferInstanceAs (Decidable (List.Forall₂ (fun p s => isParam p = true ∨ p = s) w x))

/-- Only the letters of the table have to be tried. -/
theorem Table.sound_iff {P : Table σ ι} : P.Sound isParam ↔
    NoOpenEnd isParam P ∧
      (∀ e ∈ P, ∀ e' ∈ P, ∀ s ∈ e'.1, takesAny isParam P (e.1 ++ [s]) = false) ∧
      ∀ e ∈ P, firstEnd (residual isParam P e.1) = some e.2 → ∀ i : Fin e.1.length,
        takesAny isParam P (e.1.take i) = true → isParam (e.1.get i) = true := by
  constructor
  · exact fun h => ⟨h.noOpenEnd, fun e he e' _ s _ => h.noOpenNext e he s,
      fun e he hi => forall_cut_iff.mp (h.params e he hi)⟩
  · rintro ⟨hend, hnext, hparams⟩
    refine ⟨hend, fun e he s => ?_, fun e he hi => forall_cut_iff.mpr (hparams e he hi)⟩
    rw [← Bool.not_eq_true]
    intro hs
    obtain ⟨e', he', hmem⟩ := exists_mem_of_takesAny_concat (hend e he) hs
    rw [hnext e he e' he' s hmem] at hs
    cases hs

theorem Table.complete_iff {P : Table σ ι} : P.Complete isParam ↔
    NoOpenEnd isParam P ∧
      (∀ e ∈ P, ∀ i : Fin e.1.length, isParam (e.1.get i) = true →
        takesAny isParam P (e.1.take i) = true) ∧
      ∀ e ∈ P, ∀ e' ∈ P, firstEnd (residual isParam P e.1) = some e'.2 →
        Matches isParam e'.1 e.1 := by
  constructor
  · exact fun h => ⟨h.noOpenEnd, fun e he => forall_cut_iff.mp (h.params e he),
      fun e he e' he' hi => h.first e he e'.2 e'.1 hi he'⟩
  · rintro ⟨hend, hparams, hfirst⟩
    exact ⟨hend, fun e he => forall_cut_iff.mpr (hparams e he),
      fun e he i w hi hw => hfirst e he (w, i) hw hi⟩

variable [DecidableEq ι]

instance (P : Table σ ι) : Decidable (P.Sound isParam) := decidable_of_iff' _ Table.sound_iff

instance (P : Table σ ι) : Decidable (P.Complete isParam) :=
  decidable_of_iff' _ Table.complete_iff

end PatternTrie
