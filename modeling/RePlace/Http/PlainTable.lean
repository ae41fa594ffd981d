import RePlace.Http.Dispatch

/-!
# Tables without parameters

In a table of canonical paths without parameters the node of a path is owned by
the first of its routes, and the routes of a path stand next to each other in
the endpoints, the first one marked. `exact_dispatch` says that a registered
route is found. When the method is not registered for the path, the loop over
the endpoints runs on behind the group of the path; `method_isolation_iff` says
exactly when it does not find a route there.
-/

namespace RePlace.Http

variable {δ ε : Type}

open PatternTrie (insert insertAll sub owner isWild find captures)
open PatternTrie.Table (NoOpenEnd Plain)

/-! ## The layout of a plain table -/

theorem findIdx?_take_ne_none {α : Type} {p : α → Bool} {l : List α} {j : ℕ} :
    (l.take j).findIdx? p ≠ none ↔ ∃ i < j, ∃ x, l[i]? = some x ∧ p x = true := by
  rw [ne_eq, List.findIdx?_eq_none_iff, not_forall]
  constructor
  · rintro ⟨x, hx⟩
    rw [Classical.not_imp, Bool.not_eq_false] at hx
    obtain ⟨i, hi⟩ := List.mem_iff_getElem?.mp hx.1
    rw [List.getElem?_take] at hi
    split at hi
    next hlt => exact ⟨i, hlt, x, hi, hx.2⟩
    next => cases hi
  · rintro ⟨i, hlt, x, hi, hx⟩
    refine ⟨x, ?_⟩
    rw [Classical.not_imp, Bool.not_eq_false]
    refine ⟨List.mem_iff_getElem?.mpr ⟨i, ?_⟩, hx⟩
    rw [List.getElem?_take, if_pos hlt, hi]

theorem findIdx?_congr {α : Type} {p q : α → Bool} {l : List α} (h : ∀ x ∈ l, p x = q x) :
    l.findIdx? p = l.findIdx? q := by
  rw [List.findIdx?_eq_fst_find?_zipIdx, List.findIdx?_eq_fst_find?_zipIdx,
    List.find?_congr fun e he => h e.1 (List.fst_mem_of_mem_zipIdx he)]

/-- Keys with paths without parameters. -/
def NoParams (ks : List RouterKey) : Prop :=
  ∀ k ∈ ks, ∀ s ∈ routeSegments k.path, isParam s = false

namespace NoParams

variable {ks : List RouterKey}

theorem take (hk : NoParams ks) (i : ℕ) : NoParams (ks.take i) :=
  fun k h => hk k (List.mem_of_mem_take h)

theorem words_plain (hk : NoParams ks) :
    Plain isParam
      (Layout.words (ks.map fun k => (routeSegments k.path, UInt32.ofInt k.method))) := by
  rintro ⟨w, i⟩ he s hs
  have hw := List.fst_mem_of_mem_zipIdx he
  obtain ⟨k, hmem, rfl⟩ : ∃ k ∈ ks, routeSegments k.path = w := by simpa using hw
  exact hk k hmem s hs

theorem not_wild (hk : NoParams ks) (x : List Bytes) :
    isWild (sub (Layout.ofKeys ks).trie x) = false := by
  have hno : NoOpenEnd isParam _ := fun e _ => hk.words_plain.takesAny e.1
  rw [Layout.ofKeys, (Layout.addRoutes_of_noOpenEnd hno).1, PatternTrie.isWild_sub_insertAll hno,
    hk.words_plain.takesAny]

/-- The node of a word is owned by the first route with that word. -/
theorem owner_sub (hk : NoParams ks) {x : List Bytes} (hx : x ≠ []) :
    owner (sub (Layout.ofKeys ks).trie x) =
      ks.findIdx? fun k => routeSegments k.path = x := by
  have hplain := hk.words_plain
  have hno : NoOpenEnd isParam _ := fun e _ => hplain.takesAny e.1
  have hwords : Layout.words (ks.map fun k => (routeSegments k.path, UInt32.ofInt k.method)) =
      (ks.map fun k => routeSegments k.path).zipIdx := by
    rw [Layout.words, List.map_map]
    rfl
  rw [Layout.ofKeys, (Layout.addRoutes_of_noOpenEnd hno).1,
    PatternTrie.owner_sub_insertAll hno hx, hplain.firstEnd_residual hx, hwords,
    ← List.findIdx?_eq_fst_find?_zipIdx (p := fun w => w = x), List.findIdx?_map]
  rfl

/-- The entry of a route is marked when no route before it has its segments. -/
theorem endpoints_eq (hk : NoParams ks) {i : ℕ} {k : RouterKey} (hi : ks[i]? = some k) :
    (Layout.ofKeys ks).endpoints[i]? = some
      (entryOf ((ks.take i).findIdx? fun k' => routeSegments k'.path = routeSegments k.path)
        (UInt32.ofInt k.method)) := by
  have hno : NoOpenEnd isParam _ := fun e _ => (hk.take i).words_plain.takesAny e.1
  have hcarry := (Layout.addRoutes_of_noOpenEnd hno).2
  have hsub := (hk.take i).owner_sub (routeSegments_ne_nil k.path)
  rw [Layout.ofKeys] at hsub
  rw [Layout.ofKeys, Layout.endpoints_addRoutes (by rw [List.getElem?_map, hi]; rfl)]
  rw [← List.map_take, Layout.word, hcarry, List.nil_append, hsub]

end NoParams

/-- Keys with canonical paths without parameters and methods that fit in a byte. -/
structure PlainKeys (ks : List RouterKey) : Prop where
  canonical : ∀ k ∈ ks, Canonical k.path
  plain : ∀ k ∈ ks, ∀ s ∈ routeSegments k.path, isParam s = false
  byte : ∀ k ∈ ks, 0 ≤ k.method ∧ k.method < 256

namespace PlainKeys

variable {ks : List RouterKey}

theorem noParams (hk : PlainKeys ks) : NoParams ks := hk.plain

/-- A request ends up with the first route of its path. -/
theorem find_eq (hk : PlainKeys ks) {uri : Bytes} (huri : uri.head? = some slash) :
    (Layout.ofKeys ks).find uri =
      ks.findIdx? fun k => k.path.bytes = dropTrailingSlash uri := by
  rw [Layout.find]
  split
  next hroot =>
      symm
      rw [List.findIdx?_eq_none_iff]
      intro k hmem
      have := (hk.canonical k hmem).length
      have hnil : dropTrailingSlash uri = [] := by rw [hroot]; rfl
      rw [hnil, decide_eq_false_iff_not]
      rintro heq
      simp [heq] at this
  next =>
      rw [PatternTrie.find_of_not_wild none (hk.noParams.not_wild _),
        hk.noParams.owner_sub (uriSegments_ne_nil uri)]
      refine findIdx?_congr fun k hmem => ?_
      rw [decide_eq_decide]
      exact (hk.canonical k hmem).segments_eq_uri huri

/-- The entry of a route is marked when no route before it has its path. -/
theorem endpoints_eq (hk : PlainKeys ks) {i : ℕ} {k : RouterKey} (hi : ks[i]? = some k) :
    (Layout.ofKeys ks).endpoints[i]? = some
      (entryOf ((ks.take i).findIdx? fun k' => k'.path = k.path) (UInt32.ofInt k.method)) := by
  have hsame : (ks.take i).findIdx? (fun k' => routeSegments k'.path = routeSegments k.path) =
      (ks.take i).findIdx? fun k' => k'.path = k.path := by
    refine findIdx?_congr fun k' hmem => ?_
    rw [decide_eq_decide]
    exact (hk.canonical k' (List.mem_of_mem_take hmem)).segments_inj
      (hk.canonical k (List.mem_of_getElem? hi))
  rw [hk.noParams.endpoints_eq hi, hsame]

end PlainKeys

/-! ## The order of the routes -/

section Order

variable {es : List (RouterKey × RouterCallback δ ε)}

theorem compare_of_lt (hinc : OrderedMap.Increasing RouterKey.compare es) {i j : ℕ}
    {e e' : RouterKey × RouterCallback δ ε} (hi : es[i]? = some e) (hj : es[j]? = some e')
    (hlt : i < j) : e.1.compare e'.1 < 0 := by
  obtain ⟨hi', rfl⟩ := List.getElem?_eq_some_iff.mp hi
  obtain ⟨hj', rfl⟩ := List.getElem?_eq_some_iff.mp hj
  exact List.pairwise_iff_getElem.mp hinc i j hi' hj' hlt

theorem index_lt_of_compare (hinc : OrderedMap.Increasing RouterKey.compare es) {i j : ℕ}
    {e e' : RouterKey × RouterCallback δ ε} (hi : es[i]? = some e) (hj : es[j]? = some e')
    (hcmp : e.1.compare e'.1 < 0) : i < j := by
  rcases Nat.lt_trichotomy i j with hlt | rfl | hgt
  · exact hlt
  · obtain rfl : e = e' := by simpa [hi] using hj
    have := (RouterKey.compare_lawful.eq_iff e.1 e.1).mpr rfl
    omega
  · have := (RouterKey.compare_lawful.swap e'.1 e.1).mp (compare_of_lt hinc hj hi hgt)
    omega

/-- Between two routes of one path stand only routes of that path. -/
theorem path_between (hinc : OrderedMap.Increasing RouterKey.compare es) {i j k : ℕ}
    {e e' e'' : RouterKey × RouterCallback δ ε} (hi : es[i]? = some e) (hj : es[j]? = some e')
    (hk : es[k]? = some e'') (hij : i < j) (hjk : j < k) (hpath : e.1.path = e''.1.path) :
    e'.1.path = e''.1.path := by
  rcases RouterKey.compare_lt_iff.mp (compare_of_lt hinc hi hj hij) with h₁ | ⟨h₁, -⟩
  · rcases RouterKey.compare_lt_iff.mp (compare_of_lt hinc hj hk hjk) with h₂ | ⟨h₂, -⟩
    · have hself := CString.strcmp_trans h₁ h₂
      rw [hpath, (CString.strcmp_eq_zero_iff _ _).mpr rfl] at hself
      omega
    · exact h₂
  · rw [← h₁, hpath]

end Order

/-! ## Requests to a plain table -/

/-- Routes with distinct keys, canonical paths without parameters and methods
that fit in a byte. -/
structure PlainTable (routes : List (Router δ ε)) : Prop where
  distinct : (routes.map Router.key).Nodup
  canonical : ∀ r ∈ routes, Canonical r.path
  plain : ∀ r ∈ routes, ∀ s ∈ routeSegments r.path, isParam s = false
  byte : ∀ r ∈ routes, 0 ≤ r.method ∧ r.method < 256

namespace RequestHandler

open Bytes (lit)

variable {routes : List (Router δ ε)} {cap : Capacity} {h : RequestHandler δ ε} {req : Request}

theorem plainKeys_entries (ht : PlainTable routes) :
    PlainKeys ((entries routes).map Prod.fst) := by
  have hmem : ∀ k ∈ (entries routes).map Prod.fst, ∃ r ∈ routes, r.key = k := by
    intro k hk
    obtain ⟨e, he, rfl⟩ := List.mem_map.mp hk
    obtain ⟨r, hr, rfl⟩ := (mem_entries ht.distinct).mp he
    exact ⟨r, hr, rfl⟩
  refine ⟨fun k hk => ?_, fun k hk => ?_, fun k hk => ?_⟩
  · obtain ⟨r, hr, rfl⟩ := hmem k hk
    exact ht.canonical r hr
  · obtain ⟨r, hr, rfl⟩ := hmem k hk
    exact ht.plain r hr
  · obtain ⟨r, hr, rfl⟩ := hmem k hk
    exact ht.byte r hr

/-- A request ends up with the first route of its path, and nothing is captured. -/
theorem handleRequest_plain (ht : PlainTable routes) (hf : Finalized h (entries routes))
    (huri : req.uri.head? = some slash) :
    h.handleRequest req = h.dispatch ((entries routes).findIdx? fun e =>
      e.1.path.bytes = dropTrailingSlash req.uri) req := by
  have hk := plainKeys_entries ht
  have hne : req.uri ≠ [] := List.ne_nil_of_mem (List.mem_of_head? huri)
  rw [handleRequest_eq hf hne, hk.find_eq huri, List.findIdx?_map,
    PatternTrie.captures_of_not_wild hk.noParams.not_wild, Request.withParams_nil]
  rfl

/-- The entry of a route. -/
theorem entry_of_plain (ht : PlainTable routes) (hf : Finalized h (entries routes)) {i : ℕ}
    {e : RouterKey × RouterCallback δ ε} (hi : (entries routes)[i]? = some e) :
    ∃ b : UInt8, e.1.method = b.toNat ∧ h.endpoints[i]? = some
      (entryOf (((entries routes).take i).findIdx? fun e' => e'.1.path = e.1.path) b.toUInt32) := by
  have hk := plainKeys_entries ht
  have hkey : ((entries routes).map Prod.fst)[i]? = some e.1 := by rw [List.getElem?_map, hi]; rfl
  obtain ⟨h₀, h₁⟩ := hk.byte e.1 (List.mem_of_getElem? hkey)
  obtain ⟨b, hb⟩ := exists_byte h₀ h₁
  refine ⟨b, hb, ?_⟩
  rw [hf.endpoints, hk.endpoints_eq hkey, hb, ofInt_toNat, ← List.map_take, List.findIdx?_map]
  rfl

theorem length_endpoints (hf : Finalized h (entries routes)) :
    h.endpoints.length = (entries routes).length := by
  rw [hf.endpoints, Layout.ofKeys, Layout.length_endpoints]
  simp

/-- An entry is equal to a method when its route has that method and is not the
first of its path. -/
theorem endpoints_eq_method_iff (ht : PlainTable routes) (hf : Finalized h (entries routes))
    {j : ℕ} {m : UInt8} : h.endpoints[j]? = some m.toUInt32 ↔
      ∃ e, (entries routes)[j]? = some e ∧ e.1.method = m.toNat ∧
        ∃ i < j, ∃ e', (entries routes)[i]? = some e' ∧ e'.1.path = e.1.path := by
  cases hj : (entries routes)[j]? with
  | none =>
      have hnone : h.endpoints[j]? = none := by
        rw [List.getElem?_eq_none_iff, length_endpoints hf]
        exact List.getElem?_eq_none_iff.mp hj
      simp [hnone]
  | some e =>
      obtain ⟨b, hb, hentry⟩ := entry_of_plain ht hf hj
      rw [hentry, Option.some.injEq, entryOf_eq_iff, findIdx?_take_ne_none]
      have hbyte : b = m ↔ e.1.method = m.toNat := by
        rw [hb, Nat.cast_inj, UInt8.toNat_inj]
      simp [hbyte, and_comm]

theorem execute_eq (hf : Finalized h (entries routes)) {i : ℕ}
    {e : RouterKey × RouterCallback δ ε} (hi : (entries routes)[i]? = some e) :
    h.execute i req = some (.executed e.2 req) := by
  rw [execute, hf.callbacks, List.getElem?_map, hi]
  rfl

/-- The first route of a path is marked. -/
theorem entry_of_first (ht : PlainTable routes) (hf : Finalized h (entries routes)) {i : ℕ}
    (hi : (entries routes).findIdx? (fun e => e.1.path.bytes = dropTrailingSlash req.uri) =
      some i) :
    ∃ e, (entries routes)[i]? = some e ∧ e.1.path.bytes = dropTrailingSlash req.uri ∧
      (∀ j e', j < i → (entries routes)[j]? = some e' →
        e'.1.path.bytes ≠ dropTrailingSlash req.uri) ∧
      ∃ endpoint, h.endpoints[i]? = some endpoint ∧
        (getMethod endpoint = req.method ↔ e.1.method = req.method.toNat) := by
  obtain ⟨hlt, hpath, hfirst⟩ := List.findIdx?_eq_some_iff_getElem.mp hi
  have hget := List.getElem?_eq_getElem hlt
  obtain ⟨b, hb, hentry⟩ := entry_of_plain ht hf hget
  refine ⟨_, hget, by simpa using hpath, fun j e' hj he' => ?_, _, hentry, ?_⟩
  · obtain ⟨hj', rfl⟩ := List.getElem?_eq_some_iff.mp he'
    simpa using hfirst j hj
  · rw [getMethod_entryOf, hb, Nat.cast_inj, UInt8.toNat_inj]

/-- A path that is registered has a first route. -/
theorem exists_first (ht : PlainTable routes) {r : Router δ ε} (hr : r ∈ routes)
    (hpath : r.path.bytes = dropTrailingSlash req.uri) :
    ∃ i, (entries routes).findIdx? (fun e => e.1.path.bytes = dropTrailingSlash req.uri) =
      some i := by
  have hmem : (r.key, r.callback) ∈ entries routes := (mem_entries ht.distinct).mpr ⟨r, hr, rfl⟩
  refine Option.ne_none_iff_exists'.mp fun hnone => ?_
  have := List.findIdx?_eq_none_iff.mp hnone _ hmem
  simp [Router.key, hpath] at this

/-- A table without parameters dispatches exactly: the registered route of the
path and the method is executed, and a path that is not registered is not found. -/
theorem exact_dispatch (ht : PlainTable routes) (hok : finalize cap (table routes) = .ok h)
    (huri : req.uri.head? = some slash) :
    (∀ r ∈ routes, r.path.bytes = dropTrailingSlash req.uri → r.method = req.method.toNat →
        h.handleRequest req = some (.executed r.callback req)) ∧
      ((∀ r ∈ routes, r.path.bytes ≠ dropTrailingSlash req.uri) →
        h.handleRequest req = some (.responded (stockResponse .notFound))) := by
  have hf := finalize_refines hok
  have hinc := entries_increasing routes
  rw [handleRequest_plain ht hf huri]
  refine ⟨fun r hr hpath hmethod => ?_, fun hfree => ?_⟩
  · have hmem : (r.key, r.callback) ∈ entries routes := (mem_entries ht.distinct).mpr ⟨r, hr, rfl⟩
    obtain ⟨k, hk⟩ := List.mem_iff_getElem?.mp hmem
    obtain ⟨i, hi⟩ := exists_first ht hr hpath
    rw [hi]
    obtain ⟨e, he, hepath, hfirst, endpoint, hend, hmark⟩ := entry_of_first ht hf hi
    have hsame : e.1.path = r.path := CString.ext (hepath.trans hpath.symm)
    rw [dispatch, ← execute_eq hf hk]
    have hik : i ≤ k := by
      by_contra hlt
      exact hfirst k _ (by omega) hk hpath
    rcases hik.eq_or_lt with rfl | hlt
    · obtain rfl : e = (r.key, r.callback) := by simpa [he] using hk
      exact selectEndpoint_head hf.small hend (hmark.mpr hmethod)
    · have hord := compare_of_lt hinc he hk hlt
      have hne : ¬ getMethod endpoint = req.method := by
        rw [hmark]
        intro hm
        rw [RouterKey.compare_of_path_eq hsame, hm, ← hmethod] at hord
        simp [Router.key] at hord
      refine selectEndpoint_found hf.small hend hne hlt ?_ fun j hij hjk hj => ?_
      · rw [endpoints_eq_method_iff ht hf]
        exact ⟨_, hk, hmethod, i, hlt, e, he, hsame⟩
      · -- between them stand routes of the same path with smaller methods
        obtain ⟨e', he', hm', -⟩ := (endpoints_eq_method_iff ht hf).mp hj
        have hpath' := path_between hinc he he' hk hij hjk hsame
        have hord' := compare_of_lt hinc he' hk hjk
        rw [RouterKey.compare_of_path_eq hpath', hm', ← hmethod] at hord'
        simp [Router.key] at hord'
  · have hnone : ((entries routes).findIdx? fun e =>
        e.1.path.bytes = dropTrailingSlash req.uri) = none := by
      rw [List.findIdx?_eq_none_iff]
      intro e he
      obtain ⟨r, hr, rfl⟩ := (mem_entries ht.distinct).mp he
      exact decide_eq_false (hfree r hr)
    rw [hnone]
    rfl

/-- A table with two methods for one of its paths. -/
def sampleTable : List (Router Unit ℕ) :=
  [{ method := 3, path := .lit "/b", data := (), endpoint := 2 },
    { method := 1, path := .lit "/a", data := (), endpoint := 0 },
    { method := 1, path := .lit "/b", data := (), endpoint := 1 }]

/-- The sample table after `finalize`. -/
def sampleHandler : RequestHandler Unit ℕ where
  staticRoutes := [{ map := [(lit "b", 2), (lit "a", 1)] }, { endpointPos := 0 },
    { endpointPos := 1 }]
  endpoints := [0x80000001, 0x80000001, 3]
  callbacks := [⟨(), 0⟩, ⟨(), 1⟩, ⟨(), 2⟩]

theorem plainTable_sample : PlainTable sampleTable where
  distinct := by decide
  canonical := by
    intro r hr
    simp only [sampleTable, List.mem_cons, List.not_mem_nil, or_false] at hr
    rcases hr with rfl | rfl | rfl <;> exact ⟨by decide, by decide, by decide⟩
  plain := by decide
  byte := by decide

theorem finalize_sample : finalize sampleCapacity (table sampleTable) = .ok sampleHandler := rfl

theorem exact_dispatch_sample :
    sampleHandler.handleRequest { uri := lit "/b/", method := 3 } =
        some (.executed ⟨(), 2⟩ { uri := lit "/b/", method := 3 }) ∧
      sampleHandler.handleRequest { uri := lit "/c", method := 3 } =
        some (.responded (stockResponse .notFound)) := by
  refine ⟨?_, ?_⟩
  · exact (exact_dispatch plainTable_sample finalize_sample rfl).1 _ (List.mem_cons_self ..) rfl rfl
  · exact (exact_dispatch plainTable_sample finalize_sample rfl).2 (by decide)

/-- When the method is not registered for the path of a request, the answer is
the stock 404 exactly when no later path has a route with that method that is
not its first. -/
theorem method_isolation_iff (ht : PlainTable routes) (hok : finalize cap (table routes) = .ok h)
    (huri : req.uri.head? = some slash) {r₀ : Router δ ε} (hr₀ : r₀ ∈ routes)
    (hpath : r₀.path.bytes = dropTrailingSlash req.uri)
    (hmethod : ∀ r ∈ routes, r.path = r₀.path → r.method ≠ req.method.toNat) :
    h.handleRequest req = some (.responded (stockResponse .notFound)) ↔
      ∀ r ∈ routes, ∀ r' ∈ routes, CString.strcmp r₀.path r.path < 0 →
        r.method = req.method.toNat → r'.path = r.path → ¬ r'.method < r.method := by
  have hf := finalize_refines hok
  have hinc := entries_increasing routes
  obtain ⟨i, hi⟩ := exists_first ht hr₀ hpath
  rw [handleRequest_plain ht hf huri, hi]
  obtain ⟨e, he, hepath, hfirst, endpoint, hend, hmark⟩ := entry_of_first ht hf hi
  have hsame : e.1.path = r₀.path := CString.ext (hepath.trans hpath.symm)
  obtain ⟨r₁, hr₁, rfl⟩ := (mem_entries ht.distinct).mp (List.mem_of_getElem? he)
  have hne : ¬ getMethod endpoint = req.method := by
    rw [hmark]
    exact hmethod r₁ hr₁ hsame
  refine (selectEndpoint_eq_notFound_iff hf.small hend hne).trans ⟨?_, ?_⟩
  · intro hfree r hr r' hr' hafter hm hpath' hlt
    obtain ⟨k, hk⟩ := List.mem_iff_getElem?.mp ((mem_entries ht.distinct).mpr ⟨r, hr, rfl⟩)
    obtain ⟨k', hk'⟩ := List.mem_iff_getElem?.mp ((mem_entries ht.distinct).mpr ⟨r', hr', rfl⟩)
    have hik : i < k := index_lt_of_compare hinc he hk
      (RouterKey.compare_lt_iff.mpr (.inl (by rwa [← hsame] at hafter)))
    have hk'k : k' < k := index_lt_of_compare hinc hk' hk
      (RouterKey.compare_lt_iff.mpr (.inr ⟨hpath', hlt⟩))
    exact hfree k hik ((endpoints_eq_method_iff ht hf).mpr
      ⟨_, hk, hm, k', hk'k, _, hk', hpath'⟩)
  · intro hfree j hij hj
    obtain ⟨e', he', hm, i', hi'j, e'', he'', hpath'⟩ := (endpoints_eq_method_iff ht hf).mp hj
    obtain ⟨r, hr, rfl⟩ := (mem_entries ht.distinct).mp (List.mem_of_getElem? he')
    obtain ⟨r', hr', rfl⟩ := (mem_entries ht.distinct).mp (List.mem_of_getElem? he'')
    have hlt : r'.method < r.method := by
      have hord := compare_of_lt hinc he'' he' hi'j
      rwa [RouterKey.compare_of_path_eq hpath', sub_neg] at hord
    rcases RouterKey.compare_lt_iff.mp (compare_of_lt hinc he he' hij) with hafter | ⟨hp, -⟩
    · exact hfree r hr r' hr' (by rwa [← hsame]) hm hpath' hlt
    · exact hmethod r hr (hp.symm.trans hsame) hm

theorem method_isolation_sample :
    sampleHandler.handleRequest { uri := lit "/b", method := 7 } =
      some (.responded (stockResponse .notFound)) :=
  (method_isolation_iff plainTable_sample finalize_sample rfl (List.mem_cons_self ..) rfl
    (by decide)).mpr (by decide)

/-- A request for the method 3 of `/a`, which has only the method 1, executes the
callback of `/b`. -/
theorem method_isolation_fails :
    PlainTable sampleTable ∧
      finalize sampleCapacity (table sampleTable) = .ok sampleHandler ∧
      (∃ r ∈ sampleTable, r.path.bytes = lit "/a") ∧
      (∀ r ∈ sampleTable, r.path.bytes = lit "/a" → r.method ≠ 3) ∧
      sampleHandler.handleRequest { uri := lit "/a", method := 3 } =
        some (.executed ⟨(), 2⟩ { uri := lit "/a", method := 3 }) :=
  ⟨plainTable_sample, finalize_sample, by decide, by decide, rfl⟩

/-! ## The root -/

/-- A request for the root executes the callback that is registered for `/` with
its method, and is not found when there is none. -/
def RootAgrees (h : RequestHandler δ ε) (routes : List (Router δ ε)) (req : Request) : Prop :=
  (∀ r ∈ routes, r.path = .lit "/" → r.method = req.method.toNat →
      h.handleRequest req = some (.executed r.callback req)) ∧
    ((∀ r ∈ routes, r.path = .lit "/" → r.method ≠ req.method.toNat) →
      h.handleRequest req = some notFound)

/-- The builder puts the endpoints of `/` at the node of an empty segment; the
node the walk reads for the root owns none. -/
theorem handleRequest_root (hok : finalize cap (table routes) = .ok h)
    (huri : req.uri = lit "/") : h.handleRequest req = some notFound := by
  have hne : req.uri ≠ [] := by simp [huri, lit]
  have hfind : (Layout.ofKeys ((entries routes).map Prod.fst)).find req.uri = none :=
    if_pos huri
  rw [handleRequest_eq (finalize_refines hok) hne, hfind, dispatch]

/-- The root of a table agrees with its routes exactly when `/` is not registered
with the method of the request. -/
theorem root_path_iff (hok : finalize cap (table routes) = .ok h) (huri : req.uri = lit "/") :
    RootAgrees h routes req ↔
      ∀ r ∈ routes, r.path = .lit "/" → r.method ≠ req.method.toNat := by
  have hroot := handleRequest_root hok huri
  refine ⟨fun ⟨hfound, _⟩ r hr hpath hmethod => ?_, fun hfree => ⟨fun r hr hpath hmethod => ?_,
    fun _ => hroot⟩⟩
  · have hexec := hfound r hr hpath hmethod
    rw [hroot] at hexec
    simp [notFound] at hexec
  · exact absurd hmethod (hfree r hr hpath)

/-- The root registered with one method, next to other paths. -/
def rootedTable : List (Router Unit ℕ) :=
  [{ method := 1, path := .lit "/", data := (), endpoint := 0 },
    { method := 2, path := .lit "/a", data := (), endpoint := 1 },
    { method := 1, path := .lit "/a/b", data := (), endpoint := 2 }]

/-- The table with the root after `finalize`. -/
def rootedHandler : RequestHandler Unit ℕ where
  staticRoutes := [{ map := [(lit "a", 2), ([], 1)] }, { endpointPos := 0 },
    { map := [(lit "b", 3)], endpointPos := 1 }, { endpointPos := 2 }]
  endpoints := [0x80000001, 0x80000002, 0x80000001]
  callbacks := [⟨(), 0⟩, ⟨(), 1⟩, ⟨(), 2⟩]

theorem root_path_sample :
    (∃ r ∈ rootedTable, r.path = .lit "/") ∧
      RootAgrees rootedHandler rootedTable { uri := lit "/", method := 2 } := by
  have hok : finalize sampleCapacity (table rootedTable) = .ok rootedHandler := rfl
  exact ⟨by decide, (root_path_iff hok rfl).mpr (by decide)⟩

/-- The root registered with one method. -/
def rootTable : List (Router Unit ℕ) :=
  [{ method := 1, path := .lit "/", data := (), endpoint := 0 }]

/-- The table of the root after `finalize`. -/
def rootHandler : RequestHandler Unit ℕ where
  staticRoutes := [{ map := [([], 1)] }, { endpointPos := 0 }]
  endpoints := [0x80000001]
  callbacks := [⟨(), 0⟩]

/-- A request for the registered root is answered by the stock 404. -/
theorem root_path_fails :
    (rootTable.map Router.key).Nodup ∧
      (∀ r ∈ rootTable, ∀ s ∈ routeSegments r.path, isParam s = false) ∧
      finalize sampleCapacity (table rootTable) = .ok rootHandler ∧
      (∃ r ∈ rootTable, r.path = .lit "/" ∧ r.method = 1) ∧
      rootHandler.handleRequest { uri := lit "/", method := 1 } = some notFound ∧
      ¬ RootAgrees rootHandler rootTable { uri := lit "/", method := 1 } := by
  refine ⟨by decide, by decide, rfl, ⟨_, List.mem_singleton_self _, rfl, rfl⟩, rfl, ?_⟩
  rintro ⟨hfound, -⟩
  have hexec := hfound _ (List.mem_singleton_self _) rfl rfl
  simp [handleRequest, rootHandler, lit] at hexec

end RequestHandler

end RePlace.Http
