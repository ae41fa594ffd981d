import RePlace.Data.PatternTrie

/-!
# Tries built with a carry

A builder that does not leave the `wild` node in which a word has ended puts the
next word behind it: the first word is the `carry` of the next. The first
letters of the words may be of two kinds. While no word of one kind is carried
over to a word of the other, the words of one kind build below the root what
they build alone (`agree_filter`).
-/

universe u v

namespace PatternTrie

variable {σ : Type u} {ι : Type v}

/-- A trie and the word that the next one is put behind. -/
structure CarryTrie (σ : Type u) (ι : Type v) where
  trie : PatternTrie σ ι := empty
  carry : List σ := []

namespace CarryTrie

/-- Change the owners. -/
def map {κ : Type*} (f : ι → κ) (b : CarryTrie σ ι) : CarryTrie σ κ :=
  ⟨PatternTrie.map f b.trie, b.carry⟩

/-- The kind of the first letter. -/
def headKind (kind : σ → Bool) : List σ → Bool
  | s :: _ => kind s
  | [] => false

/-- What is carried over to the word is of its kind. -/
def Separate (kind : σ → Bool) (b : CarryTrie σ ι) (w : List σ) : Prop :=
  b.carry ≠ [] → headKind kind b.carry = headKind kind w

theorem headKind_append (kind : σ → Bool) {x : List σ} (hx : x ≠ []) (y : List σ) :
    headKind kind (x ++ y) = headKind kind x := by
  cases x with
  | nil => exact absurd rfl hx
  | cons s x => rfl

variable [DecidableEq σ] (isParam : σ → Bool)

/-- Put a word behind what is carried over. -/
def add (b : CarryTrie σ ι) (e : List σ × ι) : CarryTrie σ ι where
  trie := insert isParam b.trie (b.carry ++ e.1) e.2
  carry := if isWild (sub b.trie (b.carry ++ e.1)) then b.carry ++ e.1 else []

/-- Add the words of a list one after the other. -/
def addAll (b : CarryTrie σ ι) (M : List (List σ × ι)) : CarryTrie σ ι :=
  M.foldl (add isParam) b

variable {isParam}

theorem addAll_concat (b : CarryTrie σ ι) (A : List (List σ × ι)) (e : List σ × ι) :
    addAll isParam b (A ++ [e]) = (addAll isParam b A).add isParam e := by
  simp [addAll]

theorem map_add {κ : Type*} (f : ι → κ) (b : CarryTrie σ ι) (e : List σ × ι) :
    (b.add isParam e).map f = (b.map f).add isParam (e.1, f e.2) := by
  simp only [add, map, map_insert, sub_map, isWild_map]

theorem map_addAll {κ : Type*} (f : ι → κ) (b : CarryTrie σ ι) (M : List (List σ × ι)) :
    (addAll isParam b M).map f = addAll isParam (b.map f) (M.map fun e => (e.1, f e.2)) := by
  induction M generalizing b with
  | nil => rfl
  | cons e M ih =>
      have hstep := ih (b.add isParam e)
      rw [map_add] at hstep
      exact hstep

/-- What is built of the same words differs in the owners only. -/
theorem map_eq_of_words_eq {κ : Type*} {M : List (List σ × ι)} {M' : List (List σ × κ)}
    (h : M.map Prod.fst = M'.map Prod.fst) :
    (addAll isParam {} M).map (fun _ => ()) = (addAll isParam {} M').map fun _ => () := by
  have hwords : M.map (fun e => (e.1, ())) = M'.map fun e => (e.1, ()) := by
    have := congrArg (List.map fun w => (w, ())) h
    rwa [List.map_map, List.map_map] at this
  rw [map_addAll, map_addAll, hwords]
  rfl

/-- What is carried over does not depend on the owners. -/
theorem carry_eq_of_words_eq {κ : Type*} {M : List (List σ × ι)} {M' : List (List σ × κ)}
    (h : M.map Prod.fst = M'.map Prod.fst) :
    (addAll isParam {} M).carry = (addAll isParam {} M').carry :=
  congrArg CarryTrie.carry (map_eq_of_words_eq h)

/-- The kind of what is carried over is that of the word it was carried from, or
of what was carried to that word. -/
theorem headKind_carry_add {kind : σ → Bool} {b : CarryTrie σ ι} {e : List σ × ι}
    (hsep : b.Separate kind e.1) (hne : (b.add isParam e).carry ≠ []) :
    headKind kind (b.add isParam e).carry = headKind kind e.1 := by
  unfold add at hne ⊢
  split at hne
  · rw [if_pos (by assumption)]
    by_cases hb : b.carry = []
    · rw [hb, List.nil_append]
    · rw [headKind_append kind hb, hsep hb]
  · exact absurd rfl hne

/-- When nothing is carried over between neighbours of different kinds, nothing
is carried over to a word of another kind. -/
theorem separate_of_neighbours {kind : σ → Bool} {M : List (List σ × ι)}
    (h : ∀ A e e' B, M = A ++ e :: e' :: B → headKind kind e.1 ≠ headKind kind e'.1 →
      (addAll isParam {} (A ++ [e])).carry = [])
    {A : List (List σ × ι)} {e : List σ × ι} {B : List (List σ × ι)} (hM : M = A ++ e :: B) :
    (addAll isParam {} A).Separate kind e.1 := by
  induction A using List.reverseRecOn generalizing e B with
  | nil => exact fun hne => absurd rfl hne
  | append_singleton A e₀ ih =>
      have hcut : M = A ++ e₀ :: e :: B := by simpa using hM
      intro hne
      have hkind : headKind kind e₀.1 = headKind kind e.1 := by
        by_contra hdiff
        exact hne (h A e₀ e B hcut hdiff)
      rw [addAll_concat] at hne ⊢
      rw [headKind_carry_add (ih hcut) hne, hkind]

/-! ## Two builds that agree on one kind -/

/-- Below the letters of the kind the two builds have the same subtrees, and the
second carries over what the first does, if that is of the kind. -/
structure Agree (kind : σ → Bool) (b b' : CarryTrie σ ι) : Prop where
  root : ∃ c, b.trie = lit none c
  root' : ∃ c, b'.trie = lit none c
  below : ∀ s, kind s = true → sub b.trie [s] = sub b'.trie [s]
  carry : b'.carry = if headKind kind b.carry then b.carry else []

omit [DecidableEq σ] in
theorem agree_empty (kind : σ → Bool) : Agree (ι := ι) kind {} {} :=
  ⟨⟨_, rfl⟩, ⟨_, rfl⟩, fun _ _ => rfl, rfl⟩

section Agree

variable {kind : σ → Bool} {b b' : CarryTrie σ ι} {e : List σ × ι}

omit [DecidableEq σ] in
/-- The word under which a letter is added starts with a letter of its kind. -/
theorem word_eq_cons (hsep : b.Separate kind e.1) (hne : e.1 ≠ []) :
    ∃ s x, b.carry ++ e.1 = s :: x ∧ kind s = headKind kind e.1 := by
  obtain ⟨s, x, hword⟩ :=
    List.exists_cons_of_ne_nil (List.append_ne_nil_of_right_ne_nil b.carry hne)
  refine ⟨s, x, hword, ?_⟩
  have hhead : kind s = headKind kind (b.carry ++ e.1) := by rw [hword]; rfl
  by_cases hb : b.carry = []
  · rw [hhead, hb, List.nil_append]
  · rw [hhead, headKind_append kind hb, hsep hb]

/-- A word of the kind does the same to both. -/
theorem Agree.add_same (h : Agree kind b b') (hsep : b.Separate kind e.1)
    (hkind : headKind kind e.1 = true) : Agree kind (b.add isParam e) (b'.add isParam e) := by
  have hne : e.1 ≠ [] := by
    intro hnil
    simp [hnil, headKind] at hkind
  have hcarry : b'.carry = b.carry := by
    rw [h.carry]
    by_cases hb : b.carry = []
    · simp [hb, headKind]
    · rw [hsep hb, hkind, if_pos rfl]
  obtain ⟨s, x, hword, hs⟩ := word_eq_cons hsep hne
  rw [hkind] at hs
  obtain ⟨c, hc⟩ := h.root
  obtain ⟨c', hc'⟩ := h.root'
  have hbelow : ∀ r, kind r = true → c r = c' r := by
    intro r hr
    simpa [hc, hc'] using h.below r hr
  refine ⟨⟨_, by rw [add, hword, hc]; rfl⟩, ⟨_, by rw [add, hcarry, hword, hc']; rfl⟩,
    fun r hr => ?_, ?_⟩
  · simp only [add, hcarry, hword, hc, hc', insert_lit_cons, sub_lit_cons, sub_nil, hbelow s hs]
    by_cases hrs : r = s
    · simp [hrs]
    · simp [hrs, hbelow r hr]
  · have hkept : headKind kind (s :: x) = true := hs
    simp only [add, hcarry, hword, hc, hc', sub_lit_cons, hbelow s hs]
    by_cases hwild : isWild (sub (c' s) x) = true
    · simp only [hwild, if_true, hkept]
    · simp only [hwild, if_false, Bool.false_eq_true, ite_self]

/-- A word of the other kind does nothing to the first build that the second
must follow. -/
theorem Agree.add_other (h : Agree kind b b') (hsep : b.Separate kind e.1) (hne : e.1 ≠ [])
    (hkind : headKind kind e.1 = false) : Agree kind (b.add isParam e) b' := by
  have hcarry : b'.carry = [] := by
    rw [h.carry]
    by_cases hb : b.carry = []
    · simp [hb]
    · rw [hsep hb, hkind, if_neg Bool.false_ne_true]
  obtain ⟨s, x, hword, hs⟩ := word_eq_cons hsep hne
  rw [hkind] at hs
  obtain ⟨c, hc⟩ := h.root
  refine ⟨⟨_, by rw [add, hword, hc]; rfl⟩, h.root', fun r hr => ?_, ?_⟩
  · have hrs : r ≠ s := by
      rintro rfl
      rw [hr] at hs
      cases hs
    rw [← h.below r hr]
    simp [add, hword, hc, hrs]
  · have hleft : headKind kind (b.add isParam e).carry = false := by
      rw [add, hword]
      split
      · exact hs
      · rfl
    rw [hcarry, hleft, if_neg Bool.false_ne_true]

/-- The words of one kind build the same alone. -/
theorem agree_filter {M : List (List σ × ι)} (hne : ∀ e ∈ M, e.1 ≠ [])
    (hsep : ∀ A e B, M = A ++ e :: B → (addAll isParam {} A).Separate kind e.1) :
    Agree kind (addAll isParam {} M)
      (addAll isParam {} (M.filter fun e => headKind kind e.1)) := by
  induction M using List.reverseRecOn with
  | nil => exact agree_empty kind
  | append_singleton M e ih =>
      have hM := ih (fun e' he' => hne e' (List.mem_append_left _ he'))
        fun A e' B hcut => hsep A e' (B ++ [e]) (by simp [hcut])
      have he := hsep M e [] rfl
      rw [addAll_concat, List.filter_append]
      by_cases hkind : headKind kind e.1 = true
      · rw [show List.filter (fun e => headKind kind e.1) [e] = [e] by simp [hkind], addAll_concat]
        exact hM.add_same he hkind
      · rw [Bool.not_eq_true] at hkind
        rw [show List.filter (fun e => headKind kind e.1) [e] = [] by simp [hkind],
          List.append_nil]
        exact hM.add_other he (hne e (by simp)) hkind

omit [DecidableEq σ] in
theorem Agree.find (h : Agree kind b b') {s : σ} (hs : kind s = true) (x : List σ) :
    find none b.trie (s :: x) = find none b'.trie (s :: x) := by
  obtain ⟨c, hc⟩ := h.root
  obtain ⟨c', hc'⟩ := h.root'
  have hbelow : c s = c' s := by simpa [hc, hc'] using h.below s hs
  rw [hc, hc', find_lit_cons, find_lit_cons, hbelow]

omit [DecidableEq σ] in
theorem Agree.captures (h : Agree kind b b') {s : σ} (hs : kind s = true) (x : List σ) :
    captures b.trie (s :: x) = captures b'.trie (s :: x) := by
  obtain ⟨c, hc⟩ := h.root
  obtain ⟨c', hc'⟩ := h.root'
  have hbelow : c s = c' s := by simpa [hc, hc'] using h.below s hs
  rw [hc, hc', PatternTrie.captures, PatternTrie.captures, hbelow]

end Agree

end CarryTrie

end PatternTrie
