import RePlace.Data.Residual
import RePlace.Http.RequestHandler

/-!
# The layout of a table of routes

What `finalize` builds, without vectors and ids: a trie over path segments in
which a parameter makes a `wild` node, and the array of endpoints. The builder
does not leave a `wild` node in which a route has ended: the next route goes on
from there, as if its path were written behind that of the route before. That
path is the `carry` of a layout.
-/

namespace RePlace.Http

open PatternTrie (insert insertAll sub owner isWild)
open PatternTrie.Table (NoOpenEnd)

/-- A segment that starts with the dynamic prefix. -/
def isParam (s : Bytes) : Bool := s.head? = some dynamicPrefix

/-- A text without its trailing slash. -/
def dropTrailingSlash (s : Bytes) : Bytes :=
  if s.getLast? = some slash then s.dropLast else s

/-- The segments of a route: its path without a trailing and a leading slash. -/
def routeSegments (path : CString) : List Bytes :=
  let s := dropTrailingSlash path.bytes
  (if s[0]? = some slash then s.drop 1 else s).splitOn slash

/-- The segments of a URI: its text behind the first byte, without a trailing
slash. -/
def uriSegments (uri : Bytes) : List Bytes :=
  ((dropTrailingSlash uri).drop 1).splitOn slash

/-! ## Canonical paths -/

/-- A path that starts with a slash, does not end in one and is not the root. -/
structure Canonical (path : CString) : Prop where
  head : path.bytes.head? = some slash
  length : 2 ≤ path.bytes.length
  last : path.bytes.getLast? ≠ some slash

instance (path : CString) : Decidable (Canonical path) :=
  decidable_of_iff (path.bytes.head? = some slash ∧ 2 ≤ path.bytes.length ∧
      path.bytes.getLast? ≠ some slash)
    ⟨fun h => ⟨h.1, h.2.1, h.2.2⟩, fun h => ⟨h.head, h.length, h.last⟩⟩

theorem Canonical.segments_eq {path : CString} (hp : Canonical path) :
    routeSegments path = (path.bytes.drop 1).splitOn slash := by
  have hdrop : dropTrailingSlash path.bytes = path.bytes := by
    rw [dropTrailingSlash, if_neg hp.last]
  have hhead : path.bytes[0]? = some slash := by
    rw [← List.head?_eq_getElem?]
    exact hp.head
  simp [routeSegments, hdrop, hhead]

theorem eq_of_drop_one_eq {s t : Bytes} (hs : s.head? = some slash) (ht : t.head? = some slash)
    (h : s.drop 1 = t.drop 1) : s = t := by
  cases s with
  | nil => simp at hs
  | cons a s =>
      cases t with
      | nil => simp at ht
      | cons b t =>
          simp only [List.head?_cons, Option.some.injEq] at hs ht
          rw [hs, ht, show s = t from h]

/-- Canonical paths are told apart by their segments. -/
theorem Canonical.segments_inj {p q : CString} (hp : Canonical p) (hq : Canonical q) :
    routeSegments p = routeSegments q ↔ p = q := by
  refine ⟨fun h => ?_, fun h => by rw [h]⟩
  rw [hp.segments_eq, hq.segments_eq] at h
  exact CString.ext (eq_of_drop_one_eq hp.head hq.head (Scan.eq_of_splitOn_eq h))

/-- A URI has the segments of a canonical path when it is that path, with or
without a slash at its end. -/
theorem Canonical.segments_eq_uri {p : CString} (hp : Canonical p) {uri : Bytes}
    (huri : uri.head? = some slash) :
    routeSegments p = uriSegments uri ↔ p.bytes = dropTrailingSlash uri := by
  rw [hp.segments_eq, uriSegments]
  refine ⟨fun h => ?_, fun h => by rw [h]⟩
  have hdrop := Scan.eq_of_splitOn_eq h
  refine eq_of_drop_one_eq hp.head ?_ hdrop
  obtain ⟨rest, rfl⟩ : ∃ rest, uri = slash :: rest := by
    cases uri with
    | nil => simp at huri
    | cons a rest => exact ⟨rest, by simpa using huri⟩
  have hlen := hp.length
  unfold dropTrailingSlash at hdrop ⊢
  split
  · cases rest with
    | nil =>
        have := congrArg List.length hdrop
        simp at this
        omega
    | cons b rest => simp
  · rfl

/-! ## URIs of given segments -/

/-- The URI with these segments. -/
def uriOf (x : List Bytes) : Bytes := slash :: [slash].intercalate x

/-- A URI ends in a slash when its last segment is empty. -/
theorem getLast?_uriOf {x : List Bytes} (hx : x ≠ []) (hfree : ∀ s ∈ x, slash ∉ s) :
    (uriOf x).getLast? = some slash ↔ x.getLast? = some [] := by
  induction x with
  | nil => exact absurd rfl hx
  | cons s x ih =>
      cases x with
      | nil =>
          have hs : slash ∉ s := hfree s (List.mem_singleton_self s)
          rw [uriOf, List.intercalate_singleton, List.getLast?_cons]
          cases hl : s.getLast? with
          | none => simp [List.getLast?_eq_none_iff.mp hl]
          | some a =>
              have ha : a ≠ slash := fun heq => hs (heq ▸ List.mem_of_getLast? hl)
              have hne : s ≠ [] := by
                rintro rfl
                simp at hl
              simp [ha, hne]
      | cons s' x =>
          have hcut : uriOf (s :: s' :: x) = (slash :: s) ++ uriOf (s' :: x) := by
            simp [uriOf, List.intercalate_cons_cons]
          have hlast : (uriOf (s :: s' :: x)).getLast? = (uriOf (s' :: x)).getLast? := by
            rw [hcut, List.getLast?_append_of_ne_nil _ (by simp [uriOf])]
          rw [hlast, ih (by simp) fun p hp => hfree p (List.mem_cons_of_mem _ hp)]
          simp

theorem uriSegments_uriOf {x : List Bytes} (hx : x ≠ []) (hfree : ∀ s ∈ x, slash ∉ s)
    (hlast : x.getLast? ≠ some []) : uriSegments (uriOf x) = x := by
  rw [uriSegments, dropTrailingSlash, if_neg ((getLast?_uriOf hx hfree).not.mpr hlast), uriOf,
    List.drop_one, List.tail_cons, List.splitOn_intercalate slash hfree hx]

theorem uriSegments_uriOf_slash {x : List Bytes} (hx : x ≠ []) (hfree : ∀ s ∈ x, slash ∉ s) :
    uriSegments (uriOf x ++ [slash]) = x := by
  rw [uriSegments, dropTrailingSlash, if_pos (by simp), List.dropLast_concat, uriOf,
    List.drop_one, List.tail_cons, List.splitOn_intercalate slash hfree hx]

/-- A segment that none of the given texts is. -/
theorem exists_segment (L : List Bytes) : ∃ q : Bytes, q ≠ [] ∧ slash ∉ q ∧ q ∉ L := by
  refine ⟨List.replicate ((L.map List.length).sum + 1) 0x61, by simp, ?_, fun hmem => ?_⟩
  · intro hslash
    exact absurd (List.eq_of_mem_replicate hslash) (by decide)
  · have hle := List.le_sum_of_mem (List.mem_map_of_mem (f := List.length) hmem)
    simp only [List.length_replicate] at hle
    omega

/-! ## The layout -/

/-- The entry of a route in the endpoints; the first route of a node is marked. -/
def entryOf (o : Option ℕ) (method : UInt32) : UInt32 :=
  if o = none then method ||| 0x80000000 else method

structure Layout where
  trie : PatternTrie Bytes ℕ := PatternTrie.empty
  carry : List Bytes := []
  endpoints : List UInt32 := []

namespace Layout

/-- The word a route with these segments is inserted under. -/
def word (l : Layout) (segs : List Bytes) : List Bytes := l.carry ++ segs

/-- Add a route: its endpoint opens a group unless its node has an owner. -/
def addRoute (l : Layout) (segs : List Bytes) (method : UInt32) : Layout where
  trie := insert isParam l.trie (l.word segs) l.endpoints.length
  carry := if isWild (sub l.trie (l.word segs)) then l.word segs else []
  endpoints := l.endpoints ++ [entryOf (owner (sub l.trie (l.word segs))) method]

/-- Add the routes of a table in its order. -/
def addRoutes (l : Layout) (routes : List (List Bytes × UInt32)) : Layout :=
  routes.foldl (fun l r => l.addRoute r.1 r.2) l

theorem length_addRoutes (l : Layout) (routes : List (List Bytes × UInt32)) :
    (l.addRoutes routes).endpoints.length = l.endpoints.length + routes.length := by
  induction routes generalizing l with
  | nil => rfl
  | cons r routes ih =>
      have hstep := ih (l.addRoute r.1 r.2)
      simp only [Layout.addRoute, List.length_append, List.length_singleton] at hstep
      rw [List.length_cons, ← Nat.add_assoc, Nat.add_right_comm]
      exact hstep

/-- The layout of the routes with these keys, in their order. -/
def ofKeys (keys : List RouterKey) : Layout :=
  addRoutes {} (keys.map fun k => (routeSegments k.path, UInt32.ofInt k.method))

/-- The owner a request ends up with. -/
def find (l : Layout) (uri : Bytes) : Option ℕ :=
  if uri = [slash] then none else PatternTrie.find none l.trie (uriSegments uri)

/-- No route ends in the root. -/
theorem owner_addRoutes {l : Layout} (hl : owner l.trie = none)
    {routes : List (List Bytes × UInt32)} (hr : ∀ r ∈ routes, r.1 ≠ []) :
    owner (l.addRoutes routes).trie = none := by
  induction routes generalizing l with
  | nil => exact hl
  | cons r routes ih =>
      refine ih (l := l.addRoute r.1 r.2) ?_ fun r' hr' => hr r' (List.mem_cons_of_mem _ hr')
      rw [Option.eq_none_iff_forall_ne_some]
      intro k hk
      rw [← PatternTrie.sub_nil (l.addRoute r.1 r.2).trie] at hk
      rcases PatternTrie.owner_sub_insert hk with hk' | ⟨-, hlen⟩
      · simp [hl] at hk'
      · have := hr r (List.mem_cons_self ..)
        simp [Layout.word, this] at hlen

theorem owner_ofKeys (keys : List RouterKey) : owner (ofKeys keys).trie = none := by
  refine owner_addRoutes rfl fun r hr => ?_
  obtain ⟨k, -, rfl⟩ := List.mem_map.mp hr
  exact List.splitOn_ne_nil _ _

/-- A route that ended in a `wild` node has put an owned node behind it. -/
def Carried (l : Layout) : Prop :=
  l.carry ≠ [] → ∃ n i, sub l.trie l.carry = .wild n (.lit (some i) fun _ => .absent)

theorem carried_empty : Carried {} := fun h => absurd rfl h

theorem Carried.addRoute {l : Layout} (segs : List Bytes) (method : UInt32) :
    Carried (l.addRoute segs method) := by
  intro hne
  by_cases hw : isWild (sub l.trie (l.word segs)) = true
  · obtain ⟨n, t, ht⟩ := PatternTrie.isWild_iff.mp hw
    refine ⟨n, l.endpoints.length, ?_⟩
    simp only [Layout.addRoute, hw, if_true]
    exact PatternTrie.sub_insert_of_isWild ht _
  · simp [Layout.addRoute, hw] at hne

theorem carried_addRoutes {l : Layout} (hl : Carried l) (routes : List (List Bytes × UInt32)) :
    Carried (l.addRoutes routes) := by
  induction routes generalizing l with
  | nil => exact hl
  | cons r routes ih => exact ih (Carried.addRoute r.1 r.2)

/-! ## Tables that carry nothing over -/

theorem addRoutes_append (l : Layout) (A B : List (List Bytes × UInt32)) :
    l.addRoutes (A ++ B) = (l.addRoutes A).addRoutes B :=
  List.foldl_append

/-- The words of a table with their positions. -/
def words (routes : List (List Bytes × UInt32)) : PatternTrie.Table Bytes ℕ :=
  (routes.map Prod.fst).zipIdx

theorem words_append (A : List (List Bytes × UInt32)) (r : List Bytes × UInt32) :
    words (A ++ [r]) = words A ++ [(r.1, A.length)] := by
  simp [words, List.zipIdx_append]

theorem length_endpoints (routes : List (List Bytes × UInt32)) :
    (addRoutes {} routes).endpoints.length = routes.length := by
  simp [length_addRoutes]

/-- The entry of a route is decided by the routes before it. -/
theorem endpoints_addRoutes {routes : List (List Bytes × UInt32)} {i : ℕ}
    {r : List Bytes × UInt32} (hi : routes[i]? = some r) :
    (addRoutes {} routes).endpoints[i]? =
      some (entryOf (owner (sub (addRoutes {} (routes.take i)).trie
        ((addRoutes {} (routes.take i)).word r.1))) r.2) := by
  induction routes using List.reverseRecOn with
  | nil => simp at hi
  | append_singleton A r' ih =>
      have hstep : (addRoutes {} (A ++ [r'])).endpoints = (addRoutes {} A).endpoints ++
          [entryOf (owner (sub (addRoutes {} A).trie ((addRoutes {} A).word r'.1))) r'.2] := by
        rw [addRoutes_append]
        rfl
      rw [hstep]
      rcases Nat.lt_trichotomy i A.length with hlt | rfl | hgt
      · rw [List.getElem?_append_left (length_endpoints A ▸ hlt),
          List.take_append_of_le_length hlt.le]
        exact ih (by rwa [List.getElem?_append_left hlt] at hi)
      · obtain rfl : r' = r := by simpa using hi
        rw [List.getElem?_append_right (length_endpoints A).le, List.take_left]
        simp [length_endpoints]
      · have := (List.getElem?_eq_some_iff.mp hi).1
        simp only [List.length_append, List.length_singleton] at this
        omega

/-- When no route ends where its stem takes any segment, nothing is carried over
and the trie is the trie of the words. -/
theorem addRoutes_of_noOpenEnd {routes : List (List Bytes × UInt32)}
    (h : NoOpenEnd isParam (words routes)) :
    (addRoutes {} routes).trie = insertAll isParam PatternTrie.empty (words routes) ∧
      (addRoutes {} routes).carry = [] := by
  induction routes using List.reverseRecOn with
  | nil => exact ⟨rfl, rfl⟩
  | append_singleton A r ih =>
      rw [words_append] at h
      obtain ⟨hA, hr⟩ := h.of_append
      obtain ⟨htrie, hcarry⟩ := ih hA
      have hclosed : isWild (sub (addRoutes {} A).trie r.1) = false := by
        rw [htrie, PatternTrie.isWild_sub_insertAll hA]
        exact hr _ (List.mem_singleton_self _)
      have hstep : addRoutes {} (A ++ [r]) = (addRoutes {} A).addRoute r.1 r.2 :=
        addRoutes_append {} A [r]
      rw [hstep]
      refine ⟨?_, by simp [addRoute, word, hcarry, hclosed]⟩
      rw [words_append, PatternTrie.insertAll_append, ← htrie, addRoute, word, hcarry,
        length_endpoints]
      rfl

end Layout

end RePlace.Http
