import RePlace.Http.RouteLayout

/-!
# Routes that end in an open place

A route that ends where its stem takes any segment ends in a `wild` node. It
gets a node behind that place, and the next route is swallowed. Both leave a
trace in the layout that no later route takes away: an owner deeper than its
route is long (`DeepOwner`), and a route whose own segments end in a `wild` node
(`OpenRoute`).
-/

namespace RePlace.Http

open PatternTrie (insert insertAll sub owner isWild)
open PatternTrie.Table (NoOpenEnd)

namespace Layout

/-- Either no route ends in an open place, or what the first such route brings
about and every later route keeps holds of the whole table. -/
theorem noOpenEnd_or {K : List (List Bytes × UInt32) → Prop}
    (hopen : ∀ A r, isWild (sub (addRoutes {} A).trie r.1) = true → (addRoutes {} A).carry = [] →
      K (A ++ [r]))
    (hstep : ∀ A r, K A → K (A ++ [r])) (routes : List (List Bytes × UInt32)) :
    NoOpenEnd isParam (words routes) ∨ K routes := by
  induction routes using List.reverseRecOn with
  | nil => exact .inl fun e he => by simp [words] at he
  | append_singleton A r ih =>
      rcases ih with hA | hA
      · obtain ⟨htrie, hcarry⟩ := addRoutes_of_noOpenEnd hA
        by_cases hr : isWild (sub (addRoutes {} A).trie r.1) = true
        · exact .inr (hopen A r hr hcarry)
        · rw [htrie, PatternTrie.isWild_sub_insertAll hA, Bool.not_eq_true] at hr
          rw [words_append]
          exact .inl (hA.append_singleton hr)
      · exact .inr (hstep A r hA)

theorem addRoutes_concat (A : List (List Bytes × UInt32)) (r : List Bytes × UInt32) :
    addRoutes {} (A ++ [r]) = (addRoutes {} A).addRoute r.1 r.2 :=
  addRoutes_append {} A [r]

/-- What is carried over consists of segments of the routes. -/
theorem mem_carry {routes : List (List Bytes × UInt32)} {s : Bytes}
    (hs : s ∈ (addRoutes {} routes).carry) : ∃ r ∈ routes, s ∈ r.1 := by
  induction routes using List.reverseRecOn with
  | nil => cases hs
  | append_singleton A r ih =>
      rw [addRoutes_concat, addRoute] at hs
      simp only at hs
      split at hs
      · rcases List.mem_append.mp hs with hs | hs
        · obtain ⟨r', hr', hs'⟩ := ih hs
          exact ⟨r', List.mem_append_left _ hr', hs'⟩
        · exact ⟨r, by simp, hs⟩
      · cases hs

theorem length_le_word (l : Layout) (segs : List Bytes) : segs.length ≤ (l.word segs).length := by
  simp [word]

/-- An owner sits at least as deep as its route is long. -/
theorem length_le_of_owner {routes : List (List Bytes × UInt32)} {x : List Bytes} {i : ℕ}
    (h : owner (sub (addRoutes {} routes).trie x) = some i) :
    ∃ r, routes[i]? = some r ∧ r.1.length ≤ x.length := by
  induction routes using List.reverseRecOn with
  | nil => cases x <;> simp [addRoutes, PatternTrie.empty] at h
  | append_singleton A r ih =>
      rw [addRoutes_concat] at h
      rcases PatternTrie.owner_sub_insert h with hold | ⟨rfl, hlen⟩
      · obtain ⟨r', hr', hlen⟩ := ih hold
        have hlt := (List.getElem?_eq_some_iff.mp hr').1
        exact ⟨r', by rw [List.getElem?_append_left hlt, hr'], hlen⟩
      · exact ⟨r, by simp [length_endpoints], (length_le_word _ _).trans hlen⟩

/-- Some owner sits deeper than its route is long, at a place without slashes. -/
def DeepOwner (routes : List (List Bytes × UInt32)) : Prop :=
  ∃ x i r, (∀ s ∈ x, slash ∉ s) ∧ owner (sub (addRoutes {} routes).trie x) = some i ∧
    routes[i]? = some r ∧ r.1.length < x.length

/-- A word that ends in a `wild` node is owned one segment further down. -/
theorem deepOwner_of_isWild {A : List (List Bytes × UInt32)} {r : List Bytes × UInt32}
    (hfree : ∀ r' ∈ A ++ [r], ∀ s ∈ r'.1, slash ∉ s)
    (hwild : isWild (sub (addRoutes {} A).trie ((addRoutes {} A).word r.1)) = true) :
    DeepOwner (A ++ [r]) := by
  obtain ⟨n, t, ht⟩ := PatternTrie.isWild_iff.mp hwild
  refine ⟨(addRoutes {} A).word r.1 ++ [[]], A.length, r, ?_, ?_, by simp, ?_⟩
  · intro s hs
    simp only [word, List.append_assoc, List.mem_append, List.mem_singleton] at hs
    rcases hs with hs | hs | rfl
    · obtain ⟨r', hr', hs'⟩ := mem_carry hs
      exact hfree r' (List.mem_append_left _ hr') s hs'
    · exact hfree r (by simp) s hs
    · simp
  · rw [addRoutes_concat, addRoute, PatternTrie.sub_append,
      PatternTrie.sub_insert_of_isWild ht, length_endpoints]
    rfl
  · have := length_le_word (addRoutes {} A) r.1
    simp only [List.length_append, List.length_singleton]
    omega

theorem deepOwner_step {A : List (List Bytes × UInt32)} {r : List Bytes × UInt32}
    (hfree : ∀ r' ∈ A ++ [r], ∀ s ∈ r'.1, slash ∉ s) (h : DeepOwner A) : DeepOwner (A ++ [r]) := by
  by_cases hwild : isWild (sub (addRoutes {} A).trie ((addRoutes {} A).word r.1)) = true
  · exact deepOwner_of_isWild hfree hwild
  · obtain ⟨x, i, r', hx, howner, hr', hlen⟩ := h
    refine ⟨x, i, r', hx, ?_, ?_, hlen⟩
    · rw [addRoutes_concat]
      exact PatternTrie.owner_sub_insert_of_owner (by simpa using hwild) howner
    · rw [List.getElem?_append_left (List.getElem?_eq_some_iff.mp hr').1, hr']

theorem noOpenEnd_or_deepOwner {routes : List (List Bytes × UInt32)}
    (hfree : ∀ r ∈ routes, ∀ s ∈ r.1, slash ∉ s) :
    NoOpenEnd isParam (words routes) ∨ DeepOwner routes := by
  have main := noOpenEnd_or
    (K := fun routes => (∀ r ∈ routes, ∀ s ∈ r.1, slash ∉ s) → DeepOwner routes)
    (fun A r hwild hcarry hfree => ?_) (fun A r ih hfree => ?_) routes
  · exact main.imp_right fun h => h hfree
  · refine deepOwner_of_isWild hfree ?_
    rw [word, hcarry]
    exact hwild
  · exact deepOwner_step hfree (ih fun r' hr' => hfree r' (List.mem_append_left _ hr'))

/-- The segments of some route end in a `wild` node. -/
def OpenRoute (routes : List (List Bytes × UInt32)) : Prop :=
  ∃ r ∈ routes, isWild (sub (addRoutes {} routes).trie r.1) = true

/-- A route that is swallowed does not end in a `wild` node. -/
theorem not_isWild_word {l : Layout} (hl : l.Carried) (hne : l.carry ≠ []) {segs : List Bytes}
    (hsegs : segs ≠ []) : isWild (sub l.trie (l.word segs)) = false := by
  obtain ⟨n, i, hsub⟩ := hl hne
  obtain ⟨s, x, rfl⟩ := List.exists_cons_of_ne_nil hsegs
  rw [word, PatternTrie.sub_append, hsub, PatternTrie.sub_wild_cons]
  cases x <;> simp

theorem openRoute_of_isWild {A : List (List Bytes × UInt32)} {r : List Bytes × UInt32}
    (hcarry : (addRoutes {} A).carry = [])
    (hwild : isWild (sub (addRoutes {} A).trie r.1) = true) : OpenRoute (A ++ [r]) := by
  obtain ⟨n, t, ht⟩ := PatternTrie.isWild_iff.mp hwild
  refine ⟨r, by simp, ?_⟩
  rw [addRoutes_concat, addRoute, word, hcarry, List.nil_append,
    PatternTrie.sub_insert_of_isWild ht]
  rfl

theorem openRoute_step {A : List (List Bytes × UInt32)} {r : List Bytes × UInt32}
    (hr : r.1 ≠ []) (h : OpenRoute A) : OpenRoute (A ++ [r]) := by
  by_cases hwild : isWild (sub (addRoutes {} A).trie ((addRoutes {} A).word r.1)) = true
  · by_cases hcarry : (addRoutes {} A).carry = []
    · refine openRoute_of_isWild hcarry ?_
      rwa [word, hcarry] at hwild
    · rw [not_isWild_word (carried_addRoutes carried_empty A) hcarry hr] at hwild
      cases hwild
  · obtain ⟨r', hr', hwild'⟩ := h
    refine ⟨r', List.mem_append_left _ hr', ?_⟩
    rw [addRoutes_concat]
    exact PatternTrie.isWild_sub_insert (by simpa using hwild) hwild'

theorem noOpenEnd_or_openRoute {routes : List (List Bytes × UInt32)}
    (hne : ∀ r ∈ routes, r.1 ≠ []) : NoOpenEnd isParam (words routes) ∨ OpenRoute routes := by
  have main := noOpenEnd_or (K := fun routes => (∀ r ∈ routes, r.1 ≠ []) → OpenRoute routes)
    (fun A r hwild hcarry _ => ?_) (fun A r ih hne => ?_) routes
  · exact main.imp_right fun h => h hne
  · exact openRoute_of_isWild hcarry hwild
  · exact openRoute_step (hne r (by simp)) (ih fun r' hr' => hne r' (List.mem_append_left _ hr'))

end Layout

end RePlace.Http
