import RePlace.Data.CarryTrie
import RePlace.Data.PatternMatch

/-!
# What a word captures

The `wild` nodes on the way of a word may have been created by another word, with
its letters for names, and a parameter may meet a `lit` node. `Fits t w` says that
the nodes of `t` that the word `w` follows are of the kinds and the names of its
own letters. What is matched by `w` and read to its node then captures the
parameters of `w`, and otherwise it does not (`captures_insert_eq_own_iff`). Later
words leave this as it is, so for the words of a list the nodes count that each of
them has met (`CarryTrie.captures_addAll_eq_own_iff`).
-/

universe u v

namespace PatternTrie

variable {σ : Type u} {ι : Type v} (isParam : σ → Bool)

/-- The nodes on the way of the word, as far as there are any, are what its letters
would have made of them. -/
def Fits : PatternTrie σ ι → List σ → Prop
  | lit _ c, s :: x => isParam s = false ∧ Fits (c s) x
  | wild n t, s :: x => isParam s = true ∧ n = s ∧ Fits t x
  | _, _ => True

instance instDecidableFits [DecidableEq σ] :
    (t : PatternTrie σ ι) → (w : List σ) → Decidable (Fits isParam t w)
  | absent, _ => isTrue (by simp [Fits])
  | lit _ _, [] => isTrue trivial
  | wild _ _, [] => isTrue trivial
  | lit _ c, s :: x =>
      have := instDecidableFits (c s) x
      inferInstanceAs (Decidable (isParam s = false ∧ Fits isParam (c s) x))
  | wild n t, s :: x =>
      have := instDecidableFits t x
      inferInstanceAs (Decidable (isParam s = true ∧ n = s ∧ Fits isParam t x))

/-- The parameters of a pattern, each with the letter that stands in its place. -/
def own (w x : List σ) : List (σ × σ) := (w.zip x).filter fun c => isParam c.1

variable {isParam}

@[simp] theorem fits_absent (x : List σ) : Fits isParam (absent : PatternTrie σ ι) x := by
  simp [Fits]

@[simp] theorem fits_nil (t : PatternTrie σ ι) : Fits isParam t [] := by
  cases t <;> simp [Fits]

@[simp] theorem fits_lit_cons (o : Option ι) (c : σ → PatternTrie σ ι) (s : σ) (x : List σ) :
    Fits isParam (lit o c) (s :: x) ↔ isParam s = false ∧ Fits isParam (c s) x := Iff.rfl

@[simp] theorem fits_wild_cons (n s : σ) (t : PatternTrie σ ι) (x : List σ) :
    Fits isParam (wild n t) (s :: x) ↔ isParam s = true ∧ n = s ∧ Fits isParam t x := Iff.rfl

@[simp] theorem own_nil : own isParam ([] : List σ) [] = [] := rfl

theorem own_cons_param {p : σ} (hp : isParam p = true) (w : List σ) (s : σ) (x : List σ) :
    own isParam (p :: w) (s :: x) = (p, s) :: own isParam w x := by
  simp [own, hp]

theorem own_cons_literal {p : σ} (hp : isParam p = false) (w : List σ) (s : σ) (x : List σ) :
    own isParam (p :: w) (s :: x) = own isParam w x := by
  simp [own, hp]

@[simp] theorem captures_nil (t : PatternTrie σ ι) : captures t [] = [] := by
  cases t <;> rfl

@[simp] theorem captures_absent (x : List σ) :
    captures (absent : PatternTrie σ ι) x = [] := by
  cases x <;> rfl

@[simp] theorem captures_lit_cons (o : Option ι) (c : σ → PatternTrie σ ι) (s : σ) (x : List σ) :
    captures (lit o c) (s :: x) = captures (c s) x := rfl

@[simp] theorem captures_wild_cons (n s : σ) (t : PatternTrie σ ι) (x : List σ) :
    captures (wild n t) (s :: x) = (n, s) :: captures t x := rfl

/-- The owners do not count. -/
theorem fits_map {κ : Type*} (f : ι → κ) {t : PatternTrie σ ι} {x : List σ} :
    Fits isParam (map f t) x ↔ Fits isParam t x := by
  induction x generalizing t with
  | nil => simp
  | cons s x ih =>
      cases t with
      | absent => simp [map]
      | lit o c => exact and_congr_right fun _ => ih
      | wild n t => exact and_congr_right fun _ => and_congr_right fun _ => ih

variable [DecidableEq σ]

/-! ## A word and its own node -/

/-- A node of the word `w` in which a matching word `x` ends, with an owner that
it has from `w`. -/
structure NewOwner (isParam : σ → Bool) (t : PatternTrie σ ι) (w x : List σ) (i : ι) : Prop where
  pattern : Matches isParam w x
  owned : owner (sub (insert isParam t w i) x) = some i
  fresh : owner (sub t x) ≠ some i

/-- One letter of the word is read by a `lit` node, where the letter read is the
letter of the word, or by a `wild` node. -/
theorem NewOwner.step {t : PatternTrie σ ι} {p s : σ} {w x : List σ} {i : ι}
    (h : NewOwner isParam t (p :: w) (s :: x) i) :
    ∃ u, NewOwner isParam u w x i ∧
      (s = p ∧ captures (insert isParam t (p :: w) i) (s :: x) = captures (insert isParam u w i) x ∧
          (Fits isParam t (p :: w) ↔ isParam p = false ∧ Fits isParam u w) ∨
        ∃ n, captures (insert isParam t (p :: w) i) (s :: x) =
            (n, s) :: captures (insert isParam u w i) x ∧
          (Fits isParam t (p :: w) ↔ isParam p = true ∧ n = p ∧ Fits isParam u w)) := by
  obtain ⟨hpattern, howned, hfresh⟩ := h
  obtain ⟨hps, hrest⟩ := List.forall₂_cons.mp hpattern
  cases t with
  | absent =>
      by_cases hp : isParam p = true
      · refine ⟨absent, ⟨hrest, ?_, by simp⟩, .inr ⟨p, ?_, by simp [hp]⟩⟩
        · simpa [PatternTrie.fresh, hp] using howned
        · simp [PatternTrie.fresh, hp]
      · obtain rfl := hps.resolve_left hp
        refine ⟨absent, ⟨hrest, ?_, by simp⟩, .inl ⟨rfl, ?_, by simp [hp]⟩⟩
        · simpa [PatternTrie.fresh, hp] using howned
        · simp [PatternTrie.fresh, hp]
  | lit o c =>
      have hsp : s = p := by
        by_contra hne
        exact hfresh (by simpa [hne] using howned)
      subst hsp
      exact ⟨c s, ⟨hrest, by simpa using howned, by simpa using hfresh⟩,
        .inl ⟨rfl, by simp, Iff.rfl⟩⟩
  | wild n t =>
      exact ⟨t, ⟨hrest, by simpa using howned, by simpa using hfresh⟩, .inr ⟨n, rfl, Iff.rfl⟩⟩

/-- How many of the letters that have been read are parameters, or literals. -/
def paramsRead (isParam : σ → Bool) (cs : List (σ × σ)) : ℕ := cs.countP fun c => isParam c.2

def literalsRead (isParam : σ → Bool) (cs : List (σ × σ)) : ℕ := cs.countP fun c => !isParam c.2

omit [DecidableEq σ] in
@[simp] theorem paramsRead_cons (c : σ × σ) (cs : List (σ × σ)) :
    paramsRead isParam (c :: cs) = paramsRead isParam cs + if isParam c.2 then 1 else 0 :=
  List.countP_cons ..

omit [DecidableEq σ] in
@[simp] theorem literalsRead_cons (c : σ × σ) (cs : List (σ × σ)) :
    literalsRead isParam (c :: cs) = literalsRead isParam cs + if !isParam c.2 then 1 else 0 :=
  List.countP_cons ..

/-- A parameter is missed in a `lit` node, where the letter read is the parameter,
and a literal is captured in a `wild` node, where the letter read is the literal. -/
theorem NewOwner.read_le {t : PatternTrie σ ι} {w x : List σ} {i : ι}
    (h : NewOwner isParam t w x i) :
    paramsRead isParam (captures (insert isParam t w i) x) ≤ paramsRead isParam (own isParam w x) ∧
      literalsRead isParam (own isParam w x) ≤
        literalsRead isParam (captures (insert isParam t w i) x) := by
  induction w generalizing t x with
  | nil =>
      cases h.pattern
      simp
  | cons p w ih =>
      obtain ⟨s, x, hps, -, rfl⟩ := List.forall₂_cons_left_iff.mp h.pattern
      obtain ⟨u, hu, ⟨rfl, hcap, -⟩ | ⟨n, hcap, -⟩⟩ := h.step
      all_goals
        have hrest := ih hu
        rw [hcap]
      · by_cases hp : isParam s = true
        · rw [own_cons_param hp]
          exact ⟨by simpa [hp] using hrest.1.trans (Nat.le_succ _), by simpa [hp] using hrest.2⟩
        · rw [own_cons_literal (by simpa using hp)]
          exact hrest
      · by_cases hp : isParam p = true
        · rw [own_cons_param hp]
          simpa using hrest
        · obtain rfl := hps.resolve_left hp
          rw [own_cons_literal (by simpa using hp)]
          exact ⟨by simpa [hp] using hrest.1, by simpa [hp] using hrest.2.trans (Nat.le_succ _)⟩

/-- What a word has been matched by captures the parameters of the pattern exactly
when all nodes on the way are the pattern's own. -/
theorem captures_insert_eq_own_iff {t : PatternTrie σ ι} {w x : List σ} {i : ι}
    (h : NewOwner isParam t w x i) :
    captures (insert isParam t w i) x = own isParam w x ↔ Fits isParam t w := by
  induction w generalizing t x with
  | nil =>
      cases h.pattern
      simp
  | cons p w ih =>
      obtain ⟨s, x, hps, -, rfl⟩ := List.forall₂_cons_left_iff.mp h.pattern
      obtain ⟨u, hu, ⟨rfl, hcap, hfits⟩ | ⟨n, hcap, hfits⟩⟩ := h.step
      · rw [hcap, hfits]
        by_cases hp : isParam s = true
        · -- the parameter is missed, and nothing makes up for it
          have hle := hu.read_le.1
          refine iff_of_false (fun heq => ?_) (by simp [hp])
          have hcount := congrArg (paramsRead isParam) heq
          rw [own_cons_param hp, paramsRead_cons, if_pos hp] at hcount
          omega
        · rw [Bool.not_eq_true] at hp
          rw [own_cons_literal hp, ih hu]
          exact (and_iff_right hp).symm
      · rw [hcap, hfits]
        by_cases hp : isParam p = true
        · rw [own_cons_param hp, List.cons.injEq, Prod.mk.injEq, ih hu]
          simp [hp]
        · -- the literal is captured, and nothing makes up for it
          obtain rfl := hps.resolve_left hp
          rw [Bool.not_eq_true] at hp
          have hle := hu.read_le.2
          refine iff_of_false (fun heq => ?_) (by simp [hp])
          have hcount := congrArg (literalsRead isParam) heq
          rw [own_cons_literal hp, literalsRead_cons, if_pos (by simpa using hp)] at hcount
          omega

/-! ## Later words -/

/-- A later word that leaves the owner of a node in place leaves everything on the
way to it in place. -/
theorem captures_insert_of_ne {t : PatternTrie σ ι} {x y : List σ} {i k : ι}
    (h : owner (sub (insert isParam t y i) x) = some k) (hk : k ≠ i) :
    captures (insert isParam t y i) x = captures t x := by
  induction y generalizing t x with
  | nil =>
      cases t with
      | absent =>
          rw [insert_absent] at h
          exact absurd (owner_sub_fresh h).1 hk
      | lit o c => cases x <;> rfl
      | wild n t =>
          cases x with
          | nil => rfl
          | cons s x =>
              cases x with
              | nil => exact absurd (by simpa using h.symm) hk
              | cons r x => simp at h
  | cons p y ih =>
      cases t with
      | absent =>
          rw [insert_absent] at h
          exact absurd (owner_sub_fresh h).1 hk
      | lit o c =>
          cases x with
          | nil => rfl
          | cons s x =>
              by_cases hs : s = p
              · subst hs
                simpa using ih (t := c s) (x := x) (by simpa using h)
              · simp [hs]
      | wild n t =>
          cases x with
          | nil => rfl
          | cons s x => simpa using ih (t := t) (x := x) (by simpa using h)

/-- The `wild` nodes of a trie have parameters for names. -/
def NamesParams (isParam : σ → Bool) : PatternTrie σ ι → Prop
  | absent => True
  | lit _ c => ∀ s, NamesParams isParam (c s)
  | wild n t => isParam n = true ∧ NamesParams isParam t

theorem namesParams_fresh (y : List σ) (i : ι) : NamesParams isParam (fresh isParam y i) := by
  induction y with
  | nil => exact fun _ => trivial
  | cons p y ih =>
      by_cases hp : isParam p = true
      · rw [PatternTrie.fresh, if_pos hp]
        exact ⟨hp, ih⟩
      · rw [PatternTrie.fresh, if_neg hp]
        intro s
        by_cases hs : s = p
        · subst hs
          simpa using ih
        · simp [hs, NamesParams]

theorem NamesParams.insert {t : PatternTrie σ ι} (h : NamesParams isParam t) (y : List σ) (i : ι) :
    NamesParams isParam (insert isParam t y i) := by
  induction y generalizing t with
  | nil =>
      cases t with
      | absent => exact namesParams_fresh [] i
      | lit o c => exact h
      | wild n t => exact ⟨h.1, fun _ => trivial⟩
  | cons p y ih =>
      cases t with
      | absent => exact namesParams_fresh (p :: y) i
      | lit o c =>
          intro s
          by_cases hs : s = p
          · subst hs
            simpa using ih (h s)
          · simpa [hs] using h s
      | wild n t => exact ⟨h.1, ih h.2⟩

omit [DecidableEq σ] in
theorem NamesParams.of_mem_captures {t : PatternTrie σ ι} (h : NamesParams isParam t)
    {x : List σ} {c : σ × σ} (hc : c ∈ captures t x) : isParam c.1 = true := by
  induction x generalizing t with
  | nil => simp at hc
  | cons s x ih =>
      cases t with
      | absent => simp at hc
      | lit o c => exact ih (h s) hc
      | wild n t =>
          rcases List.mem_cons.mp hc with rfl | hc
          · exact h.1
          · exact ih h.2 hc

/-! ## Words with a carry -/

namespace CarryTrie

/-- All names of a build are parameters. -/
theorem namesParams_addAll (M : List (List σ × ι)) :
    NamesParams isParam (addAll isParam {} M).trie := by
  induction M using List.reverseRecOn with
  | nil => exact fun _ => trivial
  | append_singleton A e ih =>
      rw [addAll_concat]
      exact ih.insert _ _

theorem fits_of_words_eq {κ : Type*} {M : List (List σ × ι)} {M' : List (List σ × κ)}
    (h : M.map Prod.fst = M'.map Prod.fst) {w : List σ} :
    Fits isParam (addAll isParam {} M).trie w ↔ Fits isParam (addAll isParam {} M').trie w := by
  have hmap : PatternTrie.map (fun _ => ()) (addAll isParam {} M).trie =
      PatternTrie.map (fun _ => ()) (addAll isParam {} M').trie :=
    congrArg trie (map_eq_of_words_eq h)
  rw [← fits_map fun _ => (), hmap, fits_map]

/-- The owner of a node is the owner of a word, and what is captured on the way to
the node is what was captured when that word had been added. -/
theorem exists_word_of_owner {M : List (List σ × ι)} (hnd : (M.map Prod.snd).Nodup) {x : List σ}
    {i : ι} (h : owner (sub (addAll isParam {} M).trie x) = some i) :
    ∃ A e B, M = A ++ e :: B ∧ e.2 = i ∧
      owner (sub ((addAll isParam {} A).add isParam e).trie x) = some i ∧
      owner (sub (addAll isParam {} A).trie x) ≠ some i ∧
      captures (addAll isParam {} M).trie x =
        captures ((addAll isParam {} A).add isParam e).trie x := by
  induction M using List.reverseRecOn with
  | nil => cases x <;> simp [addAll, empty] at h
  | append_singleton M e ih =>
      rw [List.map_append, List.nodup_append] at hnd
      obtain ⟨hM, -, hdisj⟩ := hnd
      rw [addAll_concat] at h ⊢
      by_cases hi : i = e.2
      · subst hi
        refine ⟨M, e, [], rfl, rfl, h, fun hold => ?_, rfl⟩
        obtain ⟨A, e', B, rfl, he', -⟩ := ih hM hold
        exact hdisj e.2 (by simp [he']) e.2 (by simp) rfl
      · have hold := (owner_sub_insert h).resolve_right fun hnew => hi hnew.1
        obtain ⟨A, e', B, rfl, he', howner, hfresh, hcap⟩ := ih hM hold
        refine ⟨A, e', B ++ [e], by simp, he', howner, hfresh, ?_⟩
        rw [← hcap]
        exact captures_insert_of_ne h hi

/-- A word that is found and matched captures the parameters of its pattern exactly
when the pattern fits what has been there before it. -/
theorem captures_addAll_eq_own_iff {M : List (List σ × ι)} (hnd : (M.map Prod.snd).Nodup)
    {x : List σ} {i : ι} (h : find none (addAll isParam {} M).trie x = some i) :
    ∃ A e B, M = A ++ e :: B ∧ e.2 = i ∧ (Matches isParam e.1 x →
      (captures (addAll isParam {} M).trie x = own isParam e.1 x ↔
        Fits isParam (addAll isParam {} A).trie e.1)) := by
  rcases find_cases h with howner | ⟨-, ⟨hnone, -⟩ | ⟨y, s, z, rfl, howner, -⟩⟩
  · obtain ⟨A, e, B, rfl, rfl, hnew, hfresh, hcap⟩ := exists_word_of_owner hnd howner
    refine ⟨A, e, B, rfl, rfl, fun hmatch => ?_⟩
    obtain ⟨-, hlen⟩ := (owner_sub_insert hnew).resolve_left hfresh
    have hcarry : (addAll isParam {} A).carry = [] := by
      rw [List.length_append, hmatch.length_eq] at hlen
      exact List.length_eq_zero_iff.mp (by omega)
    simp only [add, hcarry, List.nil_append] at hnew hcap
    rw [hcap]
    exact captures_insert_eq_own_iff ⟨hmatch, hnew, hfresh⟩
  · cases hnone
  · -- a word found from a `wild` node is shorter than what it is found for
    obtain ⟨A, e, B, rfl, rfl, hnew, hfresh, -⟩ := exists_word_of_owner hnd howner
    refine ⟨A, e, B, rfl, rfl, fun hmatch => ?_⟩
    obtain ⟨-, hlen⟩ := (owner_sub_insert hnew).resolve_left hfresh
    have hlong := hmatch.length_eq
    rw [List.length_append] at hlen
    simp only [List.length_append, List.length_cons] at hlong
    omega

end CarryTrie

end PatternTrie
