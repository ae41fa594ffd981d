import Mathlib.Logic.Function.Basic
import Mathlib.Tactic

/-!
# Tries over words with wildcard nodes

A `PatternTrie σ ι` reads words over `σ`. A `lit` node branches on the next
letter and may be owned by the word that ends in it; a `wild` node reads any
letter and has one successor; `absent` is no node at all. Which kind a new node
gets is decided by the word that creates it: the node is `wild` exactly when the
next letter of that word is a parameter (`isParam`). A word that meets an
existing node follows it, whatever its own letter is, and a word that ends in a
`wild` node puts a new owned node behind it in place of what was there.

`sub t x` is the subtree reached by the word `x`, `find` the owner a reader ends
up with, and `captures` the letters read by `wild` nodes on the way. A reader
that stops in a `wild` node falls back on the owner of the last `lit` node it
passed.
-/

universe u v

/-- Tries over words in `σ`, whose nodes are owned by values of `ι`. -/
inductive PatternTrie (σ : Type u) (ι : Type v) : Type (max u v)
  | absent
  | lit (owner : Option ι) (child : σ → PatternTrie σ ι)
  | wild (name : σ) (next : PatternTrie σ ι)

namespace PatternTrie

variable {σ : Type u} {ι : Type v}

/-- A node without owner and without children. -/
def empty : PatternTrie σ ι := lit none fun _ => absent

/-- The owner of a node. -/
def owner : PatternTrie σ ι → Option ι
  | lit o _ => o
  | _ => none

/-- The node reads any letter. -/
def isWild : PatternTrie σ ι → Bool
  | wild _ _ => true
  | _ => false

/-- The subtree reached by a word. -/
def sub : PatternTrie σ ι → List σ → PatternTrie σ ι
  | t, [] => t
  | absent, _ :: _ => absent
  | lit _ c, s :: x => sub (c s) x
  | wild _ t, _ :: x => sub t x

/-- The owner a reader of the word ends up with; `last` is the owner of the last
`lit` node passed before. -/
def find (last : Option ι) : PatternTrie σ ι → List σ → Option ι
  | absent, _ => none
  | lit o _, [] => o
  | lit o c, s :: x => find o (c s) x
  | wild _ _, [] => last
  | wild _ t, _ :: x => find last t x

/-- The letters read by `wild` nodes, each with the name of its node. -/
def captures : PatternTrie σ ι → List σ → List (σ × σ)
  | lit _ c, s :: x => captures (c s) x
  | wild n t, s :: x => (n, s) :: captures t x
  | _, _ => []

section Insert

variable [DecidableEq σ] (isParam : σ → Bool)

/-- The first letter of the word is a parameter. -/
def startsParam : List σ → Bool
  | s :: _ => isParam s
  | [] => false

/-- The nodes of a word of which nothing exists yet. -/
def fresh : List σ → ι → PatternTrie σ ι
  | [], i => lit (some i) fun _ => absent
  | s :: x, i =>
      if isParam s then wild s (fresh x i)
      else lit none (Function.update (fun _ => absent) s (fresh x i))

/-- Insert a word: follow what exists, create the rest. -/
def insert : PatternTrie σ ι → List σ → ι → PatternTrie σ ι
  | absent, x, i => fresh isParam x i
  | lit o c, [], i => lit (o <|> some i) c
  | lit o c, s :: x, i => lit o (Function.update c s (insert (c s) x i))
  | wild n _, [], i => wild n (lit (some i) fun _ => absent)
  | wild n t, _ :: x, i => wild n (insert t x i)

end Insert

/-- Change the owners. -/
def map {κ : Type*} (f : ι → κ) : PatternTrie σ ι → PatternTrie σ κ
  | absent => absent
  | lit o c => lit (o.map f) fun s => map f (c s)
  | wild n t => wild n (map f t)

@[simp] theorem sub_nil (t : PatternTrie σ ι) : sub t [] = t := by
  cases t <;> rfl

@[simp] theorem sub_absent (x : List σ) : sub (absent : PatternTrie σ ι) x = absent := by
  cases x <;> rfl

@[simp] theorem sub_lit_cons (o : Option ι) (c : σ → PatternTrie σ ι) (s : σ) (x : List σ) :
    sub (lit o c) (s :: x) = sub (c s) x := rfl

@[simp] theorem sub_wild_cons (n s : σ) (t : PatternTrie σ ι) (x : List σ) :
    sub (wild n t) (s :: x) = sub t x := rfl

theorem sub_append (t : PatternTrie σ ι) (x y : List σ) : sub t (x ++ y) = sub (sub t x) y := by
  induction x generalizing t with
  | nil => simp
  | cons s x ih =>
      cases t with
      | absent => simp
      | lit o c => simpa using ih (c s)
      | wild n t => simpa using ih t

@[simp] theorem owner_absent : owner (absent : PatternTrie σ ι) = none := rfl

@[simp] theorem owner_lit (o : Option ι) (c : σ → PatternTrie σ ι) : owner (lit o c) = o := rfl

@[simp] theorem owner_wild (n : σ) (t : PatternTrie σ ι) : owner (wild n t) = none := rfl

@[simp] theorem isWild_absent : isWild (absent : PatternTrie σ ι) = false := rfl

@[simp] theorem isWild_lit (o : Option ι) (c : σ → PatternTrie σ ι) :
    isWild (lit o c) = false := rfl

@[simp] theorem isWild_wild (n : σ) (t : PatternTrie σ ι) : isWild (wild n t) = true := rfl

theorem isWild_iff {t : PatternTrie σ ι} : isWild t = true ↔ ∃ n t', t = wild n t' := by
  cases t <;> simp

theorem owner_eq_some_iff {t : PatternTrie σ ι} {i : ι} :
    owner t = some i ↔ ∃ c, t = lit (some i) c := by
  cases t <;> simp

@[simp] theorem find_absent (last : Option ι) (x : List σ) :
    find last (absent : PatternTrie σ ι) x = none := by
  cases x <;> rfl

@[simp] theorem find_lit_nil (last o : Option ι) (c : σ → PatternTrie σ ι) :
    find last (lit o c) [] = o := rfl

@[simp] theorem find_lit_cons (last o : Option ι) (c : σ → PatternTrie σ ι) (s : σ) (x : List σ) :
    find last (lit o c) (s :: x) = find o (c s) x := rfl

@[simp] theorem find_wild_nil (last : Option ι) (n : σ) (t : PatternTrie σ ι) :
    find last (wild n t) [] = last := rfl

@[simp] theorem find_wild_cons (last : Option ι) (n s : σ) (t : PatternTrie σ ι) (x : List σ) :
    find last (wild n t) (s :: x) = find last t x := rfl

/-! ## What a reader finds -/

@[simp] theorem find_none_nil (t : PatternTrie σ ι) : find none t [] = owner t := by
  cases t <;> rfl

/-- A reader that does not end in a `wild` node finds the owner of its node. -/
theorem find_of_not_wild (last : Option ι) {t : PatternTrie σ ι} {x : List σ}
    (h : isWild (sub t x) = false) : find last t x = owner (sub t x) := by
  induction x generalizing t last with
  | nil =>
      cases t with
      | absent => rfl
      | lit o c => rfl
      | wild n t => simp at h
  | cons s x ih =>
      cases t with
      | absent => simp
      | lit o c => exact ih o (t := c s) h
      | wild n t => exact ih last (t := t) h

/-- A reader that ends in an owned node finds its owner. -/
theorem find_of_owner (last : Option ι) {t : PatternTrie σ ι} {x : List σ} {i : ι}
    (h : owner (sub t x) = some i) : find last t x = some i := by
  obtain ⟨c, hc⟩ := owner_eq_some_iff.mp h
  rw [find_of_not_wild last (by rw [hc, isWild_lit]), h]

/-- A reader whose word leads nowhere finds nothing. -/
theorem find_of_absent (last : Option ι) {t : PatternTrie σ ι} {x : List σ}
    (h : sub t x = absent) : find last t x = none := by
  rw [find_of_not_wild last (by rw [h, isWild_absent]), h, owner_absent]

/-- One literal letter after an owned node, a reader that stops in a `wild` node
finds the owner it has just left behind. -/
theorem find_of_wild_after_owner (last : Option ι) {t : PatternTrie σ ι} {y : List σ} {s : σ}
    {i : ι} (hy : owner (sub t y) = some i) (hs : isWild (sub t (y ++ [s])) = true) :
    find last t (y ++ [s]) = some i := by
  induction y generalizing t last with
  | nil =>
      obtain ⟨c, rfl⟩ := owner_eq_some_iff.mp (by simpa using hy)
      obtain ⟨n, t', ht'⟩ := isWild_iff.mp hs
      have hcs : c s = wild n t' := by simpa using ht'
      simp [hcs]
  | cons r y ih =>
      cases t with
      | absent => simp at hy
      | lit o c => exact ih o (t := c r) (by simpa using hy) (by simpa using hs)
      | wild n t => exact ih last (t := t) (by simpa using hy) (by simpa using hs)

/-- Without `wild` nodes nothing is captured. -/
theorem captures_of_not_wild {t : PatternTrie σ ι} (h : ∀ x, isWild (sub t x) = false)
    (x : List σ) : captures t x = [] := by
  induction x generalizing t with
  | nil => cases t <;> rfl
  | cons s x ih =>
      cases t with
      | absent => rfl
      | lit o c => exact ih fun y => h (s :: y)
      | wild n t => exact absurd (h []) (by simp)

/-- What a reader finds is the owner of the node it ends in, or it stops in a
`wild` node and finds the owner of the last `lit` node before. -/
theorem find_cases {last : Option ι} {t : PatternTrie σ ι} {x : List σ} {i : ι}
    (h : find last t x = some i) :
    owner (sub t x) = some i ∨
      isWild (sub t x) = true ∧
        (last = some i ∧ isWild t = true ∨ ∃ y s z, x = y ++ s :: z ∧
          owner (sub t y) = some i ∧ isWild (sub t (y ++ [s])) = true) := by
  induction x generalizing t last with
  | nil =>
      cases t with
      | absent => simp at h
      | lit o c => exact .inl (by simpa using h)
      | wild n t => exact .inr ⟨rfl, .inl ⟨by simpa using h, rfl⟩⟩
  | cons s x ih =>
      cases t with
      | absent => simp at h
      | wild n t =>
          rcases ih (by simpa using h) with h' | ⟨hw, ⟨hlast, -⟩ | ⟨y, r, z, rfl, hy, hr⟩⟩
          · exact .inl (by simpa using h')
          · exact .inr ⟨by simpa using hw, .inl ⟨hlast, rfl⟩⟩
          · exact .inr ⟨by simpa using hw,
              .inr ⟨s :: y, r, z, rfl, by simpa using hy, by simpa using hr⟩⟩
      | lit o c =>
          rcases ih (by simpa using h) with h' | ⟨hw, ⟨hlast, hcs⟩ | ⟨y, r, z, rfl, hy, hr⟩⟩
          · exact .inl (by simpa using h')
          · exact .inr ⟨by simpa using hw, .inr ⟨[], s, x, rfl, hlast, by simpa using hcs⟩⟩
          · exact .inr ⟨by simpa using hw,
              .inr ⟨s :: y, r, z, rfl, by simpa using hy, by simpa using hr⟩⟩

/-! ## What an insertion changes -/

section Insert

variable [DecidableEq σ] {isParam : σ → Bool}

@[simp] theorem insert_absent (x : List σ) (i : ι) :
    insert isParam absent x i = fresh isParam x i := by
  cases x <;> rfl

@[simp] theorem insert_lit_nil (o : Option ι) (c : σ → PatternTrie σ ι) (i : ι) :
    insert isParam (lit o c) [] i = lit (o <|> some i) c := rfl

@[simp] theorem insert_lit_cons (o : Option ι) (c : σ → PatternTrie σ ι) (s : σ) (x : List σ)
    (i : ι) : insert isParam (lit o c) (s :: x) i =
      lit o (Function.update c s (insert isParam (c s) x i)) := rfl

@[simp] theorem insert_wild_nil (n : σ) (t : PatternTrie σ ι) (i : ι) :
    insert isParam (wild n t) [] i = wild n (lit (some i) fun _ => absent) := rfl

@[simp] theorem insert_wild_cons (n s : σ) (t : PatternTrie σ ι) (x : List σ) (i : ι) :
    insert isParam (wild n t) (s :: x) i = wild n (insert isParam t x i) := rfl

theorem fresh_of_startsParam {x : List σ} (h : startsParam isParam x = true) (i : ι) :
    ∃ s y, x = s :: y ∧ isParam s = true ∧ fresh isParam x i = wild s (fresh isParam y i) := by
  cases x with
  | nil => simp [startsParam] at h
  | cons s y => exact ⟨s, y, rfl, h, by simp [fresh, show isParam s = true from h]⟩

/-- A word that does not start with a parameter creates what it would add to an
empty node. -/
theorem fresh_eq_insert_empty {x : List σ} (h : startsParam isParam x = false) (i : ι) :
    fresh isParam x i = insert isParam empty x i := by
  cases x with
  | nil => rfl
  | cons s y => simp [fresh, empty, show isParam s = false from h]

@[simp] theorem isWild_fresh (x : List σ) (i : ι) :
    isWild (fresh isParam x i) = startsParam isParam x := by
  cases x with
  | nil => rfl
  | cons s y => by_cases h : isParam s = true <;> simp [fresh, startsParam, h]

theorem owner_sub_fresh {x y : List σ} {i k : ι}
    (h : owner (sub (fresh isParam y i) x) = some k) : k = i ∧ y.length ≤ x.length := by
  induction y generalizing x with
  | nil =>
      cases x with
      | nil => exact ⟨by simpa [fresh] using h.symm, le_rfl⟩
      | cons s x => simp [fresh] at h
  | cons r y ih =>
      by_cases hr : isParam r = true
      · cases x with
        | nil => simp [fresh, hr] at h
        | cons s x =>
            obtain ⟨hk, hlen⟩ := ih (x := x) (by simpa [fresh, hr] using h)
            exact ⟨hk, by simpa using hlen⟩
      · cases x with
        | nil => simp [fresh, hr] at h
        | cons s x =>
            by_cases hs : s = r
            · subst hs
              obtain ⟨hk, hlen⟩ := ih (x := x) (by simpa [fresh, hr] using h)
              exact ⟨hk, by simpa using hlen⟩
            · simp [fresh, hr, hs] at h

/-- An owner after the insertion was there before or is the new word's, and then
it sits no higher than the word is long. -/
theorem owner_sub_insert {t : PatternTrie σ ι} {x y : List σ} {i k : ι}
    (h : owner (sub (insert isParam t y i) x) = some k) :
    owner (sub t x) = some k ∨ k = i ∧ y.length ≤ x.length := by
  induction y generalizing t x with
  | nil =>
      cases t with
      | absent => exact .inr (owner_sub_fresh (by simpa using h))
      | lit o c =>
          cases x with
          | nil =>
              cases o with
              | none => exact .inr ⟨by simpa using h.symm, le_rfl⟩
              | some j => exact .inl (by simpa using h)
          | cons s x => exact .inl (by simpa using h)
      | wild n t =>
          cases x with
          | nil => simp at h
          | cons s x =>
              cases x with
              | nil => exact .inr ⟨by simpa using h.symm, by simp⟩
              | cons s' x => simp at h
  | cons r y ih =>
      cases t with
      | absent => exact .inr (owner_sub_fresh (by simpa using h))
      | lit o c =>
          cases x with
          | nil => exact .inl (by simpa using h)
          | cons s x =>
              by_cases hs : s = r
              · subst hs
                rcases ih (t := c s) (x := x) (by simpa using h) with h' | ⟨hk, hlen⟩
                · exact .inl (by simpa using h')
                · exact .inr ⟨hk, by simpa using hlen⟩
              · exact .inl (by simpa [hs] using h)
      | wild n t =>
          cases x with
          | nil => simp at h
          | cons s x =>
              rcases ih (t := t) (x := x) (by simpa using h) with h' | ⟨hk, hlen⟩
              · exact .inl (by simpa using h')
              · exact .inr ⟨hk, by simpa using hlen⟩

/-- The root of the second trie is of the kind and the name of the first, and has its
owner, if it has one. -/
def RootKept : PatternTrie σ ι → PatternTrie σ ι → Prop
  | absent, _ => True
  | lit o _, t => ∃ o' c', t = lit o' c' ∧ ∀ k, o = some k → o' = some k
  | wild n _, t => ∃ t', t = wild n t'

omit [DecidableEq σ] in
theorem rootKept_self (t : PatternTrie σ ι) : RootKept t t := by
  cases t with
  | absent => trivial
  | lit o c => exact ⟨o, c, rfl, fun _ h => h⟩
  | wild n t => exact ⟨t, rfl⟩

/-- A word that does not end in a `wild` node leaves every node in place. -/
theorem rootKept_sub_insert {t : PatternTrie σ ι} {x y : List σ} {i : ι}
    (hy : isWild (sub t y) = false) : RootKept (sub t x) (sub (insert isParam t y i) x) := by
  induction y generalizing t x with
  | nil =>
      cases t with
      | absent => simp [RootKept]
      | lit o c =>
          cases x with
          | nil => exact ⟨o <|> some i, c, rfl, fun k hk => by simp [hk]⟩
          | cons s x => exact rootKept_self _
      | wild n t => simp at hy
  | cons r y ih =>
      cases t with
      | absent => simp [RootKept]
      | lit o c =>
          cases x with
          | nil => exact ⟨o, _, rfl, fun _ h => h⟩
          | cons s x =>
              by_cases hs : s = r
              · subst hs
                simpa using ih (t := c s) (x := x) (by simpa using hy)
              · simpa [hs] using rootKept_self (sub (c s) x)
      | wild n t =>
          cases x with
          | nil => exact ⟨_, rfl⟩
          | cons s x => exact ih (t := t) (x := x) (by simpa using hy)

/-- A word that does not end in a `wild` node leaves every owner in place. -/
theorem owner_sub_insert_of_owner {t : PatternTrie σ ι} {x y : List σ} {i k : ι}
    (hy : isWild (sub t y) = false) (h : owner (sub t x) = some k) :
    owner (sub (insert isParam t y i) x) = some k := by
  obtain ⟨c, hc⟩ := owner_eq_some_iff.mp h
  have hkept := @rootKept_sub_insert _ _ _ isParam t x y i hy
  rw [hc] at hkept
  obtain ⟨o, c', heq, ho⟩ := hkept
  rw [heq, ← ho k rfl]
  rfl

/-- A word that does not end in a `wild` node leaves every `wild` node in place. -/
theorem isWild_sub_insert {t : PatternTrie σ ι} {x y : List σ} {i : ι}
    (hy : isWild (sub t y) = false) (h : isWild (sub t x) = true) :
    isWild (sub (insert isParam t y i) x) = true := by
  obtain ⟨n, t', ht⟩ := isWild_iff.mp h
  have hkept := @rootKept_sub_insert _ _ _ isParam t x y i hy
  rw [ht] at hkept
  obtain ⟨t'', heq⟩ := hkept
  rw [heq, isWild_wild]

/-- A word that ends in a `wild` node gets the place behind it, and nothing else
is left there. -/
theorem sub_insert_of_isWild {t : PatternTrie σ ι} {y : List σ} {n : σ} {t' : PatternTrie σ ι}
    (h : sub t y = wild n t') (i : ι) :
    sub (insert isParam t y i) y = wild n (lit (some i) fun _ => absent) := by
  induction y generalizing t with
  | nil =>
      rw [sub_nil] at h
      subst h
      simp
  | cons r y ih =>
      cases t with
      | absent => simp at h
      | lit o c => simpa using ih (t := c r) (by simpa using h)
      | wild m t => simpa using ih (t := t) (by simpa using h)

end Insert

/-! ## Changing the owners -/

section Map

variable {κ : Type*} (f : ι → κ)

theorem sub_map (t : PatternTrie σ ι) (x : List σ) : sub (map f t) x = map f (sub t x) := by
  induction x generalizing t with
  | nil => simp
  | cons s x ih =>
      cases t with
      | absent => rfl
      | lit o c => exact ih (c s)
      | wild n t => exact ih t

theorem isWild_map (t : PatternTrie σ ι) : isWild (map f t) = isWild t := by
  cases t <;> rfl

theorem find_map (last : Option ι) (t : PatternTrie σ ι) (x : List σ) :
    find (last.map f) (map f t) x = (find last t x).map f := by
  induction x generalizing t last with
  | nil => cases t <;> rfl
  | cons s x ih =>
      cases t with
      | absent => rfl
      | lit o c => exact ih o (c s)
      | wild n t => exact ih last t

theorem captures_map (t : PatternTrie σ ι) (x : List σ) : captures (map f t) x = captures t x := by
  induction x generalizing t with
  | nil => cases t <;> rfl
  | cons s x ih =>
      cases t with
      | absent => rfl
      | lit o c => exact ih (c s)
      | wild n t => exact congrArg ((n, s) :: ·) (ih t)

variable [DecidableEq σ] {isParam : σ → Bool}

theorem map_fresh (x : List σ) (i : ι) : map f (fresh isParam x i) = fresh isParam x (f i) := by
  induction x with
  | nil => rfl
  | cons s x ih =>
      by_cases hs : isParam s = true
      · simp [fresh, hs, map, ih]
      · simp only [fresh, hs, Bool.false_eq_true, if_false, map, Option.map_none, ← ih]
        congr 1
        funext r
        by_cases hr : r = s <;> simp [Function.update, hr, map]

theorem map_insert (t : PatternTrie σ ι) (x : List σ) (i : ι) :
    map f (insert isParam t x i) = insert isParam (map f t) x (f i) := by
  induction x generalizing t with
  | nil =>
      cases t with
      | absent => rfl
      | lit o c => cases o <;> rfl
      | wild n t => rfl
  | cons s x ih =>
      cases t with
      | absent => exact map_fresh f (s :: x) i
      | lit o c =>
          simp only [insert_lit_cons, map, ← ih]
          congr 1
          funext r
          by_cases hr : r = s <;> simp [Function.update, hr]
      | wild n t => simp only [insert_wild_cons, map, ih]

end Map

end PatternTrie
