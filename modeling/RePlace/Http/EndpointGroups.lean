import RePlace.Data.Runs
import RePlace.Http.Integrity
import RePlace.Http.PlainTable

/-!
# The groups of endpoints

A table without parameters makes static nodes only, and a walk leads to each of
them. The endpoints of a node are meant to be the run of entries from its position
up to the next marked one. The routes are built in the byte order of their paths as
they are written, so the two spellings of one node can have another path between
them: `endpoint_groups_iff` says that this is the only thing that goes wrong.
-/

namespace RePlace.Http

open Bytes (lit)
open PatternTrie (sub owner isWild startsParam)
open Runs (First RunEnd Consecutive runAt)
open Scan (foldSegments)

variable {δ ε : Type}

namespace RequestHandler

variable {cap : Capacity} {h h' : RequestHandler δ ε}

/-! ## Walks -/

theorem walkRef_append (r : Ref) (x y : List Bytes) :
    h.walkRef r (x ++ y) = (h.walkRef r x).bind fun r' => h.walkRef r' y := by
  induction x generalizing r with
  | nil => cases r <;> rfl
  | cons s x ih =>
      cases r with
      | stat i =>
          cases hl : (h.staticRoutes[i]?).bind fun sr => sr.map.lookup s with
          | none => simp [walkRef, hl]
          | some id => simpa [walkRef, hl] using ih (refOf id)
      | dyn i =>
          cases hd : h.dynamicRoutes[i]? with
          | none => simp [walkRef, hd]
          | some dr => simpa [walkRef, hd] using ih (refOf dr.idPtr)

/-- A walk that succeeds still does when links are added. -/
theorem walkRef_mono
    (hstat : ∀ (i : ℕ) sr s id, h.staticRoutes[i]? = some sr → sr.map.lookup s = some id →
      ∃ sr', h'.staticRoutes[i]? = some sr' ∧ sr'.map.lookup s = some id)
    (hdyn : h'.dynamicRoutes = h.dynamicRoutes) {r r' : Ref} {x : List Bytes}
    (hw : h.walkRef r x = some r') : h'.walkRef r x = some r' := by
  induction x generalizing r with
  | nil => cases r <;> exact hw
  | cons s x ih =>
      cases r with
      | stat i =>
          cases hsr : h.staticRoutes[i]? with
          | none => simp [walkRef, hsr] at hw
          | some sr =>
              cases hl : sr.map.lookup s with
              | none => simp [walkRef, hsr, hl] at hw
              | some id =>
                  obtain ⟨sr', hsr', hl'⟩ := hstat i sr s id hsr hl
                  rw [walkRef_stat hsr hl] at hw
                  rw [walkRef_stat hsr' hl']
                  exact ih hw
      | dyn i =>
          cases hdr : h.dynamicRoutes[i]? with
          | none => simp [walkRef, hdr] at hw
          | some dr =>
              rw [walkRef_dyn hdr] at hw
              rw [walkRef_dyn (hdyn ▸ hdr)]
              exact ih hw

variable {addr : Ref → Address} {t : PatternTrie Bytes ℕ}

/-- A segment leads to a node that represents what is below it, or nowhere when nothing
is. -/
theorem Represents.walkRef_cons {r : Ref} (ht : Represents h addr t r) (s : Bytes) :
    (∀ x, sub t (s :: x) = .absent ∧ h.walkRef r (s :: x) = none) ∨
      ∃ t' r', Represents h addr t' r' ∧
        ∀ x, sub t (s :: x) = sub t' x ∧ h.walkRef r (s :: x) = h.walkRef r' x := by
  cases t with
  | absent => exact ht.elim
  | lit o ch =>
      obtain ⟨i, sr, rfl, hsr, -, hch⟩ := ht
      have hs := hch s
      cases hl : sr.map.lookup s with
      | none =>
          simp only [hl] at hs
          exact .inl fun x => ⟨by simp [hs], by simp [walkRef, hsr, hl]⟩
      | some id =>
          simp only [hl] at hs
          exact .inr ⟨ch s, refOf id, hs.2, fun x => ⟨rfl, walkRef_stat hsr hl x⟩⟩
  | wild n t =>
      obtain ⟨i, dr, rfl, hdr, -, -, -, hsub⟩ := ht
      exact .inr ⟨t, refOf dr.idPtr, hsub, fun x => ⟨rfl, walkRef_dyn hdr s x⟩⟩

/-- Where a walk arrives stands what is below its word. -/
theorem Represents.of_walkRef {r r' : Ref} (ht : Represents h addr t r) {x : List Bytes}
    (hw : h.walkRef r x = some r') : Represents h addr (sub t x) r' := by
  induction x generalizing t r with
  | nil =>
      obtain rfl : r = r' := by cases r <;> simpa [walkRef] using hw
      rwa [PatternTrie.sub_nil]
  | cons s x ih =>
      rcases ht.walkRef_cons s with hnone | ⟨t', r₁, ht', hstep⟩
      · rw [(hnone x).2] at hw
        cases hw
      · rw [(hstep x).2] at hw
        rw [(hstep x).1]
        exact ih ht' hw

/-- A word of the trie can be walked. -/
theorem Represents.exists_walkRef {r : Ref} (ht : Represents h addr t r) {x : List Bytes}
    (hx : sub t x ≠ .absent) : ∃ r', h.walkRef r x = some r' := by
  induction x generalizing t r with
  | nil => exact ⟨r, by cases r <;> rfl⟩
  | cons s x ih =>
      rcases ht.walkRef_cons s with hnone | ⟨t', r₁, ht', hstep⟩
      · exact absurd (hnone x).1 hx
      · rw [(hstep x).1] at hx
        rw [(hstep x).2]
        exact ih ht' hx

/-! ## Every node is reached -/

/-- There are no dynamic nodes, and a walk leads to every static node. -/
structure Reached (h : RequestHandler δ ε) : Prop where
  root : 0 < h.staticRoutes.length
  noDynamic : h.dynamicRoutes = []
  walk : ∀ i < h.staticRoutes.length, ∃ x, h.walkRef (.stat 0) x = some (.stat i)

/-- A cursor on a static node. -/
structure OnStatic (h : RequestHandler δ ε) (c : Cursor) : Prop where
  dptr : c.dptr = none
  consistent : c.Consistent
  lt : c.sptr < h.staticRoutes.length

variable {c c' : Cursor} {s : Bytes}

theorem Reached.onStatic_start (hr : h.Reached) : OnStatic h (start none) := ⟨rfl, rfl, hr.root⟩

/-- A segment that is known writes nothing. -/
theorem Reached.follow (hr : h.Reached) (hc : OnStatic h c) {sr : StaticRouterData} {id : UInt32}
    (hsr : h.staticRoutes[c.sptr]? = some sr) (hl : sr.map.lookup s = some id)
    (hok : insertSegment cap h c s false = .ok (h', c')) : h' = h ∧ OnStatic h c' := by
  have hat : at? h.staticRoutes c.sptr = .ok sr := at?_ok.mpr hsr
  simp only [insertSegment, hc.dptr, bind_eq_ok, hat, Except.ok.injEq, exists_eq_left', hl] at hok
  obtain ⟨st, hst, hok⟩ := hok
  obtain rfl := Except.ok.inj hst
  by_cases hdyn : isDynamic id = true
  · rw [if_pos hdyn, bind_eq_ok] at hok
    obtain ⟨dr, hdr, -⟩ := hok
    have := at?_ok.mp hdr
    simp [hr.noDynamic] at this
  · rw [if_neg hdyn, bind_eq_ok] at hok
    obtain ⟨sr', hsr', hpair⟩ := hok
    obtain ⟨rfl, rfl⟩ := Prod.mk.inj (Except.ok.inj hpair)
    refine ⟨rfl, rfl, ?_, (List.getElem?_eq_some_iff.mp (at?_ok.mp hsr')).1⟩
    simp [Cursor.Consistent, Cursor.ref, refOf, hdyn]

/-- A segment that is new gets a node behind the one the cursor stands on. -/
theorem Reached.create (hr : h.Reached) (hc : OnStatic h c) {sr : StaticRouterData}
    (hsr : h.staticRoutes[c.sptr]? = some sr) (hl : sr.map.lookup s = none)
    (hok : insertSegment cap h c s false = .ok (h', c')) : h'.Reached ∧ OnStatic h' c' := by
  obtain ⟨hroom, rfl, rfl⟩ := insertSegment_new_static hc.dptr hc.consistent hsr hl hok
  have hroom31 := hroom.trans cap.lt_signBit
  have hcreated := node_addStatic_new h
  have hne : (Ref.stat h.staticRoutes.length) ≠ .stat c.sptr := by
    have := hc.lt
    simp only [ne_eq, Ref.stat.injEq]
    omega
  have hlink := node_setStatic_self (sr.link s (UInt32.ofNat h.staticRoutes.length))
    (node_addStatic (node_stat_eq_some.mpr hsr))
  have hmono : ∀ {r r' : Ref} {x : List Bytes}, h.walkRef r x = some r' →
      (h.addStatic.setStatic c.sptr (sr.link s (UInt32.ofNat h.staticRoutes.length))).walkRef r x =
        some r' := by
    intro r r' x hw
    refine walkRef_mono (h := h) (fun i sr' s' id hi hs' => ?_) (by rfl) hw
    by_cases hic : i = c.sptr
    · subst hic
      obtain rfl : sr = sr' := by simpa [hsr] using hi
      have hss : s' ≠ s := by
        rintro rfl
        rw [hl] at hs'
        cases hs'
      exact ⟨_, node_stat_eq_some.mp hlink, by rw [sr.lookup_link_of_ne _ hss, hs']⟩
    · refine ⟨sr', node_stat_eq_some.mp ?_, hs'⟩
      rw [node_setStatic_of_ne (by simpa using hic)]
      exact node_addStatic (node_stat_eq_some.mpr hi)
  refine ⟨⟨by simp [addStatic, setStatic], hr.noDynamic, fun i hi => ?_⟩, ?_⟩
  · rcases Nat.lt_or_eq_of_le (Nat.le_of_lt_succ (by simpa [addStatic, setStatic] using hi)) with
      hlt | rfl
    · obtain ⟨x, hx⟩ := hr.walk i hlt
      exact ⟨x, hmono hx⟩
    · obtain ⟨x, hx⟩ := hr.walk c.sptr hc.lt
      refine ⟨x ++ [s], ?_⟩
      rw [walkRef_append, hmono hx, Option.bind_some, walkRef_stat (node_stat_eq_some.mp hlink)
        (sr.lookup_link_self s _), refOf_staticId hroom31]
      rfl
  · have hstat : isDynamic (UInt32.ofNat h.staticRoutes.length) = false := by
      rw [Bool.eq_false_iff, ne_eq, isDynamic_iff, toNat_staticId hroom31]
      omega
    refine ⟨by simp [Cursor.goto, hstat], Cursor.consistent_goto .., ?_⟩
    simp [Cursor.goto, hstat, toNat_staticId hroom31, addStatic, setStatic]

/-- One segment of a route. -/
theorem Reached.step (hr : h.Reached) (hc : OnStatic h c)
    (hok : insertSegment cap h c s false = .ok (h', c')) : h'.Reached ∧ OnStatic h' c' := by
  obtain ⟨sr, hsr⟩ : ∃ sr, h.staticRoutes[c.sptr]? = some sr := ⟨_, List.getElem?_eq_getElem hc.lt⟩
  cases hl : sr.map.lookup s with
  | none => exact hr.create hc hsr hl hok
  | some id =>
      obtain ⟨rfl, hc'⟩ := hr.follow hc hsr hl hok
      exact ⟨hr, hc'⟩

/-- The end of a route adds an endpoint and no link. -/
theorem Reached.finish (hr : h.Reached) (hc : OnStatic h c) {method : UInt32}
    {callback : RouterCallback δ ε} {d : Option ℕ}
    (hok : finishRoute cap h c method callback = .ok (h', d)) : h'.Reached ∧ d = none := by
  obtain ⟨hd, sr, hsr, -, rfl⟩ := finishRoute_static hc.dptr hok
  refine ⟨⟨by rw [length_staticRoutes_withEndpoint]; exact hr.root,
    by rw [dynamicRoutes_withEndpoint, hr.noDynamic], fun i hi => ?_⟩, hd⟩
  rw [length_staticRoutes_withEndpoint] at hi
  obtain ⟨x, hx⟩ := hr.walk i hi
  refine ⟨x, walkRef_mono (fun j sr' s id hj hs => ?_) (dynamicRoutes_withEndpoint ..) hx⟩
  by_cases hjc : j = c.sptr
  · subst hjc
    obtain rfl : sr = sr' := by simpa [hsr] using hj
    exact ⟨_, staticRoutes_withEndpoint hsr method callback, hs⟩
  · have hne : Ref.stat j ≠ .stat c.sptr := by simpa using hjc
    have hkept := node_withEndpoint_of_ne (h := h) hne sr method callback
    rw [node_stat_eq_some.mpr hj] at hkept
    exact ⟨sr', node_stat_eq_some.mp hkept, hs⟩

/-- A route without parameters. -/
theorem Reached.insertWord {word : List Bytes} (hword : ∀ s ∈ word, isParam s = false)
    {method : UInt32} {callback : RouterCallback δ ε} {d : Option ℕ} (hr : h.Reached)
    (hc : OnStatic h c) (hok : insertWord cap method callback (h, c) word = .ok (h', d)) :
    h'.Reached ∧ d = none := by
  induction word generalizing h c with
  | nil => exact hr.finish hc hok
  | cons s word ih =>
      obtain ⟨h₁, c₁, hstep, hrest⟩ := exists_of_insertWord_cons hok
      have hplain : startsParam isParam word = false := by
        cases word with
        | nil => rfl
        | cons s' word => exact hword s' (by simp)
      rw [hplain] at hstep
      obtain ⟨hr₁, hc₁⟩ := hr.step hc hstep
      exact ih (fun s' hs' => hword s' (List.mem_cons_of_mem _ hs')) hr₁ hc₁ hrest

/-- The loop of `finalize` over routes without parameters. -/
theorem Reached.insertRoutes {es : List (RouterKey × RouterCallback δ ε)}
    (hes : NoParams (es.map Prod.fst)) {d : Option ℕ} (hr : h.Reached)
    (hok : es.foldlM (insertRoute cap) (h, none) = .ok (h', d)) : h'.Reached := by
  induction es generalizing h with
  | nil =>
      obtain ⟨rfl, -⟩ := Prod.mk.inj (Except.ok.inj hok)
      exact hr
  | cons e es ih =>
      rw [List.foldlM_cons, bind_eq_ok] at hok
      obtain ⟨⟨h₁, d₁⟩, hstep, hrest⟩ := hok
      have hword := insertRoute_eq hstep
      obtain ⟨hr₁, rfl⟩ := hr.insertWord (hes e.1 (by simp)) hr.onStatic_start hword
      exact ih (fun k hk => hes k (List.mem_cons_of_mem _ hk)) hr₁ hrest

theorem reached_of_finalize {routes : List (Router δ ε)}
    (hplain : NoParams ((entries routes).map Prod.fst))
    (hok : finalize cap (table routes) = .ok h) : h.Reached := by
  obtain ⟨h₁, d, hloop, rfl⟩ := finalize_ok hok
  have hstart : (loopStart routes).1.Reached := by
    refine ⟨Nat.one_pos, rfl, fun i hi => ⟨[], ?_⟩⟩
    obtain rfl : i = 0 := by simpa [loopStart] using hi
    rfl
  have hr := hstart.insertRoutes hplain hloop
  refine ⟨hr.root, hr.noDynamic, fun i hi => ?_⟩
  obtain ⟨x, hx⟩ := hr.walk i hi
  refine ⟨x, walkRef_mono (h := h₁) ?_ ?_ hx⟩
  · exact fun j sr s id hj hs => ⟨sr, hj, hs⟩
  · rfl

/-! ## Groups -/

/-- The entries from a position up to the next marked one, without the mark, with
their callbacks. -/
def group (h : RequestHandler δ ε) (p : ℕ) : List (UInt32 × RouterCallback δ ε) :=
  (runAt (fun e => isNewEndpoint e.1) (h.endpoints.zip h.callbacks) p).map fun e =>
    (e.1 &&& 0x7FFFFFFF, e.2)

/-- The endpoints of the static node `i` start at `p`. -/
def Owns (h : RequestHandler δ ε) (i p : ℕ) : Prop :=
  (h.staticRoutes[i]?.map fun sr => sr.endpointPos) = some (p : ℤ)

/-- The routes whose normalised path leads to a static node. -/
def routesOf (h : RequestHandler δ ε) (routes : List (Router δ ε)) (i : ℕ) :
    List (Router δ ε) :=
  routes.filter fun r => h.walkRef (.stat 0) (routeSegments r.path) = some (.stat i)

/-- The endpoints of every node start at a marked entry and are those of its routes,
and every entry belongs to one node. -/
structure GroupsExact (h : RequestHandler δ ε) (routes : List (Router δ ε)) : Prop where
  marked : ∀ (i : ℕ) sr, h.staticRoutes[i]? = some sr → sr.endpointPos ≠ -1 →
    ∃ (p : ℕ) (entry : UInt32), sr.endpointPos = p ∧ h.endpoints[p]? = some entry ∧
      isNewEndpoint entry = true
  exact : ∀ i p, h.Owns i p → (h.group p).Perm
    ((h.routesOf routes i).map fun r => (UInt32.ofInt r.method, r.callback))
  covered : ∀ j < h.endpoints.length,
    ∃! i, ∃ p, h.Owns i p ∧ p ≤ j ∧ j < p + (h.group p).length

end RequestHandler

/-- Routes with distinct keys and paths without parameters. A method is an `i32`. -/
structure SpelledTable (routes : List (Router δ ε)) : Prop where
  distinct : (routes.map Router.key).Nodup
  plain : ∀ r ∈ routes, ∀ s ∈ routeSegments r.path, isParam s = false
  method : ∀ r ∈ routes, -2 ^ 31 ≤ r.method ∧ r.method < 2 ^ 31

/-- No method has the sign bit, which marks the entries. -/
def MethodsUnsigned (routes : List (Router δ ε)) : Prop := ∀ r ∈ routes, 0 ≤ r.method

instance (routes : List (Router δ ε)) : Decidable (MethodsUnsigned routes) :=
  inferInstanceAs (Decidable (∀ r ∈ routes, 0 ≤ r.method))

/-- Between two paths with the same segments stand only paths with these segments. -/
def SpellingsTogether (routes : List (Router δ ε)) : Prop :=
  ∀ r₁ ∈ routes, ∀ r₂ ∈ routes, ∀ r₃ ∈ routes,
    CString.strcmp r₁.path r₂.path < 0 → CString.strcmp r₂.path r₃.path < 0 →
    routeSegments r₁.path = routeSegments r₃.path → routeSegments r₂.path = routeSegments r₁.path

instance (routes : List (Router δ ε)) : Decidable (SpellingsTogether routes) :=
  inferInstanceAs (Decidable (∀ r₁ ∈ routes, ∀ r₂ ∈ routes, ∀ r₃ ∈ routes,
    CString.strcmp r₁.path r₂.path < 0 → CString.strcmp r₂.path r₃.path < 0 →
    routeSegments r₁.path = routeSegments r₃.path → routeSegments r₂.path = routeSegments r₁.path))

namespace RequestHandler

variable {cap : Capacity} {h : RequestHandler δ ε} {routes : List (Router δ ε)}

/-- The segments of the routes in the order of their keys. -/
def entryWords (routes : List (Router δ ε)) : List (List Bytes) :=
  (entries routes).map fun e => routeSegments e.1.path

theorem entryWords_eq (routes : List (Router δ ε)) :
    entryWords routes = ((entries routes).map Prod.fst).map fun k => routeSegments k.path := by
  rw [List.map_map]
  rfl

theorem findIdx?_entryWords (routes : List (Router δ ε)) (x : List Bytes) :
    (entryWords routes).findIdx? (fun w => w = x) =
      ((entries routes).map Prod.fst).findIdx? fun k => routeSegments k.path = x := by
  rw [entryWords_eq, List.findIdx?_map]
  rfl

theorem length_entryWords (routes : List (Router δ ε)) :
    (entryWords routes).length = (entries routes).length :=
  List.length_map ..

theorem noParams_entries (ht : SpelledTable routes) :
    NoParams ((entries routes).map Prod.fst) := by
  intro k hk
  obtain ⟨e, he, rfl⟩ := List.mem_map.mp hk
  obtain ⟨r, hr, rfl⟩ := (mem_entries ht.distinct).mp he
  exact ht.plain r hr

theorem mem_entryWords {x : List Bytes} {p : ℕ} (hx : (entryWords routes)[p]? = some x) :
    x ≠ [] := by
  obtain ⟨e, -, rfl⟩ := List.mem_map.mp (List.mem_of_getElem? hx)
  exact routeSegments_ne_nil _

theorem getElem?_entryWords {k : ℕ} {e : RouterKey × RouterCallback δ ε}
    (he : (entries routes)[k]? = some e) :
    (entryWords routes)[k]? = some (routeSegments e.1.path) := by
  rw [entryWords, List.getElem?_map, he]
  rfl

theorem exists_place (ht : SpelledTable routes) {r : Router δ ε} (hr : r ∈ routes) :
    ∃ k : ℕ, (entries routes)[k]? = some (r.key, r.callback) :=
  List.mem_iff_getElem?.mp ((mem_entries ht.distinct).mpr ⟨r, hr, rfl⟩)

theorem exists_route (ht : SpelledTable routes) {k : ℕ} (hk : k < (entries routes).length) :
    ∃ r ∈ routes, (entries routes)[k]? = some (r.key, r.callback) := by
  obtain ⟨r, hr, heq⟩ := (mem_entries ht.distinct).mp (List.getElem_mem hk)
  exact ⟨r, hr, by rw [heq, List.getElem?_eq_getElem hk]⟩

/-- Equal segments stand next to each other in the order of the keys when they do in
the order of the paths. -/
theorem consecutive_iff (ht : SpelledTable routes) :
    Consecutive (entryWords routes) ↔ SpellingsTogether routes := by
  have hinc := entries_increasing routes
  constructor
  · intro hc r₁ h₁ r₂ h₂ r₃ h₃ h₁₂ h₂₃ heq
    obtain ⟨i, hi⟩ := exists_place ht h₁
    obtain ⟨j, hj⟩ := exists_place ht h₂
    obtain ⟨k, hk⟩ := exists_place ht h₃
    have hij := index_lt_of_compare hinc hi hj (RouterKey.compare_lt_iff.mpr (.inl h₁₂))
    have hjk := index_lt_of_compare hinc hj hk (RouterKey.compare_lt_iff.mpr (.inl h₂₃))
    have hwi := getElem?_entryWords hi
    have hwj := getElem?_entryWords hj
    have hwk := getElem?_entryWords hk
    have hsame := hc i j k hij hjk (List.getElem?_eq_some_iff.mp hwk).1
      (by rw [hwi, hwk]; exact congrArg some heq)
    rw [hwi, hwj] at hsame
    exact Option.some.inj hsame
  · intro htog i j k hij hjk hk heq
    rw [length_entryWords] at hk
    obtain ⟨r₁, h₁, hi⟩ := exists_route ht (by omega : i < (entries routes).length)
    obtain ⟨r₂, h₂, hj⟩ := exists_route ht (by omega : j < (entries routes).length)
    obtain ⟨r₃, h₃, hk⟩ := exists_route ht hk
    rw [getElem?_entryWords hi, getElem?_entryWords hk, Option.some.injEq] at heq
    rw [getElem?_entryWords hi, getElem?_entryWords hj, Option.some.injEq]
    rcases RouterKey.compare_lt_iff.mp (compare_of_lt hinc hi hj hij) with h₁₂ | ⟨hpath, -⟩
    · rcases RouterKey.compare_lt_iff.mp (compare_of_lt hinc hj hk hjk) with h₂₃ | ⟨hpath, -⟩
      · exact htog r₁ h₁ r₂ h₂ r₃ h₃ h₁₂ h₂₃ heq
      · rw [hpath, heq]
    · rw [hpath]

/-! ## Entries and owners -/

/-- An entry is marked when its method is the first of its node. -/
theorem isNewEndpoint_entryOf {m : ℤ} (hm : 0 ≤ m ∧ m < 2 ^ 31) (o : Option ℕ) :
    isNewEndpoint (entryOf o (UInt32.ofInt m)) = decide (o = none) ∧
      entryOf o (UInt32.ofInt m) &&& 0x7FFFFFFF = UInt32.ofInt m := by
  obtain ⟨n, rfl⟩ : ∃ n : ℕ, m = n := ⟨m.toNat, by omega⟩
  have hn : n < 2 ^ 31 := by omega
  have hof : UInt32.ofInt (n : ℤ) = UInt32.ofNat n := by
    have hmod : ((n : ℤ) % 2 ^ 32).toNat = n := by omega
    rw [UInt32.ofInt, hmod]
  have hlow : ∀ e : UInt32, (e &&& 0x7FFFFFFF).toNat = e.toNat % 2 ^ 31 := getPos_eq
  rw [hof]
  cases o with
  | none =>
      have hnat : (UInt32.ofNat n ||| 0x80000000).toNat = 2 ^ 31 + n := by
        rw [UInt32.or_comm, toNat_dynamicId hn]
      refine ⟨?_, ?_⟩
      · rw [entryOf, if_pos rfl, decide_eq_true rfl]
        exact (isDynamic_iff _).mpr (by omega)
      · rw [entryOf, if_pos rfl, ← UInt32.toNat_inj, hlow, hnat, toNat_staticId hn]
        omega
  | some i =>
      have hnat := toNat_staticId hn
      refine ⟨?_, ?_⟩
      · rw [entryOf, if_neg (by simp), decide_eq_false (by simp), Bool.eq_false_iff]
        exact fun hnew => by
          have := (isDynamic_iff _).mp hnew
          omega
      · rw [entryOf, if_neg (by simp), ← UInt32.toNat_inj, hlow, hnat]
        omega

/-- The entry of a route is marked when its place is first, and holds its method. -/
theorem entry_of_spelled (ht : SpelledTable routes) (hpos : MethodsUnsigned routes)
    (hf : Finalized h (entries routes)) {k : ℕ} {e : RouterKey × RouterCallback δ ε}
    (he : (entries routes)[k]? = some e) :
    ∃ entry, (h.endpoints.zip h.callbacks)[k]? = some (entry, e.2) ∧
      (isNewEndpoint entry = true ↔ First (entryWords routes) k) ∧
      entry &&& 0x7FFFFFFF = UInt32.ofInt e.1.method := by
  have hkey : ((entries routes).map Prod.fst)[k]? = some e.1 := by rw [List.getElem?_map, he]; rfl
  have hend := (noParams_entries ht).endpoints_eq hkey
  rw [← hf.endpoints] at hend
  have hcall : h.callbacks[k]? = some e.2 := by rw [hf.callbacks, List.getElem?_map, he]; rfl
  have hm : 0 ≤ e.1.method ∧ e.1.method < 2 ^ 31 := by
    obtain ⟨r, hr, rfl⟩ := (mem_entries ht.distinct).mp (List.mem_of_getElem? he)
    exact ⟨hpos r hr, (ht.method r hr).2⟩
  obtain ⟨hnew, hlow⟩ := isNewEndpoint_entryOf hm
    ((((entries routes).map Prod.fst).take k).findIdx? fun k' =>
      routeSegments k'.path = routeSegments e.1.path)
  refine ⟨entryOf _ _, List.getElem?_zip_eq_some.mpr ⟨hend, hcall⟩, ?_, hlow⟩
  rw [hnew, decide_eq_true_iff, ← Runs.findIdx?_take_eq_none_iff (getElem?_entryWords he),
    entryWords, ← List.map_take, ← List.map_take, List.findIdx?_map, List.findIdx?_map]
  rfl

theorem Represents.owns_iff {addr : Ref → Address} {t : PatternTrie Bytes ℕ} {i p : ℕ}
    (ht : Represents h addr t (.stat i)) : h.Owns i p ↔ owner t = some p := by
  cases t with
  | absent => exact ht.elim
  | wild n t =>
      obtain ⟨j, dr, hj, -⟩ := ht
      cases hj
  | lit o ch =>
      obtain ⟨j, sr, hj, hsr, hpos, -⟩ := ht
      obtain rfl : i = j := by simpa using hj
      rw [Owns, hsr, Option.map_some, Option.some.injEq, hpos]
      cases o with
      | none => simp [endpointPosOf, owner]
      | some k => simp [endpointPosOf, owner]

/-- A node owns the first place of the word that leads to it. -/
theorem owns_iff_of_walk (ht : SpelledTable routes) (hf : Finalized h (entries routes))
    {x : List Bytes} {i p : ℕ} (hw : h.walkRef (.stat 0) x = some (.stat i)) :
    h.Owns i p ↔ (entryWords routes)[p]? = some x ∧ First (entryWords routes) p := by
  obtain ⟨addr, hrep⟩ := hf.represents
  rw [(hrep.of_walkRef hw).owns_iff]
  by_cases hx : x = []
  · subst hx
    rw [PatternTrie.sub_nil, Layout.owner_ofKeys]
    exact ⟨fun hp => (by cases hp), fun hp => absurd rfl (mem_entryWords hp.1)⟩
  · rw [(noParams_entries ht).owner_sub hx, ← findIdx?_entryWords, Runs.findIdx?_eq_some_iff]

/-- The first place of a word is owned by a node the word leads to. -/
theorem exists_walk_of_first (ht : SpelledTable routes) (hf : Finalized h (entries routes))
    {x : List Bytes} {p : ℕ} (hx : (entryWords routes)[p]? = some x)
    (hp : First (entryWords routes) p) :
    ∃ i, h.walkRef (.stat 0) x = some (.stat i) ∧ h.Owns i p := by
  have hno := noParams_entries ht
  have howner : owner (sub (Layout.ofKeys ((entries routes).map Prod.fst)).trie x) = some p := by
    rw [hno.owner_sub (mem_entryWords hx), ← findIdx?_entryWords, Runs.findIdx?_eq_some_iff]
    exact ⟨hx, hp⟩
  obtain ⟨addr, hrep⟩ := hf.represents
  obtain ⟨r, hr⟩ := hrep.exists_walkRef (x := x) (by
    intro habsent
    rw [habsent] at howner
    cases howner)
  have hsub := hrep.of_walkRef hr
  cases r with
  | stat i => exact ⟨i, hr, hsub.owns_iff.mpr howner⟩
  | dyn i =>
      have hwild := hno.not_wild x
      cases hs : sub (Layout.ofKeys ((entries routes).map Prod.fst)).trie x with
      | absent => rw [hs] at howner; cases howner
      | lit o ch =>
          rw [hs] at hsub
          obtain ⟨j, sr, hj, -⟩ := hsub
          cases hj
      | wild n t => rw [hs] at hwild; cases hwild

/-- The group of a first place is cut out of the routes and ends where the run does. -/
theorem exists_group (ht : SpelledTable routes) (hpos : MethodsUnsigned routes)
    (hf : Finalized h (entries routes)) {p : ℕ} (hp : p < (entries routes).length) :
    ∃ q, RunEnd (entryWords routes) p q ∧ (h.group p).length = q - p ∧
      h.group p = (((entries routes).drop p).take (q - p)).map fun e =>
        (UInt32.ofInt e.1.method, e.2) := by
  have hlen : (h.endpoints.zip h.callbacks).length = (entries routes).length := by
    rw [List.length_zip, length_endpoints hf, hf.callbacks, List.length_map, Nat.min_self]
  obtain ⟨q, hpq, hq, hrun, hinside, hnext⟩ :=
    Runs.exists_runAt (fun e => isNewEndpoint e.1) (hlen ▸ hp)
  rw [hlen] at hq
  have hentry : ∀ k, k < (entries routes).length → ∃ e, (entries routes)[k]? = some e :=
    fun k hk => ⟨_, List.getElem?_eq_getElem hk⟩
  have hgroup : h.group p = (((entries routes).drop p).take (q - p)).map fun e =>
      (UInt32.ofInt e.1.method, e.2) := by
    rw [group, hrun]
    refine List.ext_getElem? fun k => ?_
    rw [List.getElem?_map, List.getElem?_map, List.getElem?_take, List.getElem?_take]
    by_cases hk : k < q - p
    · obtain ⟨e, he⟩ := hentry (p + k) (by omega)
      obtain ⟨entry, hzip, -, hlow⟩ := entry_of_spelled ht hpos hf he
      rw [if_pos hk, if_pos hk, List.getElem?_drop, List.getElem?_drop, he, hzip]
      simp [hlow]
    · rw [if_neg hk, if_neg hk]
      rfl
  refine ⟨q, ⟨hpq, by rwa [length_entryWords], fun k hpk hkq hfirst => ?_, fun hlt => ?_⟩, ?_,
    hgroup⟩
  · obtain ⟨e, he⟩ := hentry k (by omega)
    obtain ⟨entry, hzip, hmark, -⟩ := entry_of_spelled ht hpos hf he
    have := hinside k _ hpk hkq hzip
    rw [hmark.mpr hfirst] at this
    cases this
  · rw [length_entryWords] at hlt
    obtain ⟨e, he⟩ := hentry q hlt
    obtain ⟨entry, hzip, hmark, -⟩ := entry_of_spelled ht hpos hf he
    exact hmark.mp (hnext _ hzip)
  · rw [hgroup, List.length_map, List.length_take, List.length_drop]
    omega

/-! ## The groups of a table -/

/-- The routes of a node in the order of their keys. -/
theorem perm_routesOf (ht : SpelledTable routes) (hf : Finalized h (entries routes))
    {x : List Bytes} {i p : ℕ} (hw : h.walkRef (.stat 0) x = some (.stat i)) (hp : h.Owns i p) :
    ((h.routesOf routes i).map fun r => (UInt32.ofInt r.method, r.callback)).Perm
      (((entries routes).filter fun e => routeSegments e.1.path = x).map fun e =>
        (UInt32.ofInt e.1.method, e.2)) := by
  have hx := ((owns_iff_of_walk ht hf hw).mp hp).1
  have hleads : ∀ r : Router δ ε,
      h.walkRef (.stat 0) (routeSegments r.path) = some (.stat i) ↔ routeSegments r.path = x := by
    intro r
    refine ⟨fun hr => ?_, fun hr => hr ▸ hw⟩
    have hy := ((owns_iff_of_walk ht hf hr).mp hp).1
    rw [hx, Option.some.injEq] at hy
    exact hy.symm
  have hperm := OrderedMap.ofList_perm RouterKey.compare_lawful (m := [])
    (map_fst_entries routes ▸ ht.distinct)
  have hroutes : (h.routesOf routes i).map (fun r => (UInt32.ofInt r.method, r.callback)) =
      ((routes.map fun r => (r.key, r.callback)).filter fun e => routeSegments e.1.path = x).map
        fun e => (UInt32.ofInt e.1.method, e.2) := by
    rw [routesOf, List.filter_map, List.map_map]
    exact congrArg₂ _ rfl (List.filter_congr fun r _ => decide_eq_decide.mpr (hleads r))
  rw [hroutes]
  exact ((hperm.filter _).map _).symm

/-- A group is as large as the number of routes of its node when its entries are
those routes. -/
theorem length_routesOf (ht : SpelledTable routes) (hf : Finalized h (entries routes))
    {x : List Bytes} {i p : ℕ} (hw : h.walkRef (.stat 0) x = some (.stat i)) (hp : h.Owns i p) :
    ((h.routesOf routes i).map fun r => (UInt32.ofInt r.method, r.callback)).length =
      (entryWords routes).countP fun w => w = x := by
  rw [(perm_routesOf ht hf hw hp).length_eq, List.length_map, ← List.countP_eq_length_filter,
    entryWords, List.countP_map]
  rfl

/-- Every entry lies in the group of one node, whatever the order of the paths. -/
theorem covered_of_finalized (ht : SpelledTable routes) (hpos : MethodsUnsigned routes)
    (hr : h.Reached) (hf : Finalized h (entries routes)) {j : ℕ} (hj : j < h.endpoints.length) :
    ∃! i, ∃ p, h.Owns i p ∧ p ≤ j ∧ j < p + (h.group p).length := by
  rw [length_endpoints hf] at hj
  obtain ⟨p, hpj, hp, hinside⟩ := Runs.exists_run (entryWords routes) j
  obtain ⟨x, hx⟩ : ∃ x, (entryWords routes)[p]? = some x :=
    ⟨_, List.getElem?_eq_getElem (by rw [length_entryWords]; omega)⟩
  obtain ⟨i, hw, howns⟩ := exists_walk_of_first ht hf hx hp
  obtain ⟨q, hq, hlen, -⟩ := exists_group ht hpos hf (by omega : p < (entries routes).length)
  refine ⟨i, ⟨p, howns, hpj, ?_⟩, ?_⟩
  · by_contra hle
    have hqj : q ≤ j := by
      have := hq.lt
      omega
    exact hinside q hq.lt hqj (hq.next (by rw [length_entryWords]; omega))
  · rintro i' ⟨p', howns', hpj', hlt'⟩
    have hi' : i' < h.staticRoutes.length := by
      obtain ⟨sr, hsr, -⟩ := Option.map_eq_some_iff.mp howns'
      exact (List.getElem?_eq_some_iff.mp hsr).1
    obtain ⟨x', hw'⟩ := hr.walk i' hi'
    obtain ⟨hx', hp'⟩ := (owns_iff_of_walk ht hf hw').mp howns'
    obtain ⟨q', hq', hlen', -⟩ := exists_group ht hpos hf (by omega : p' < (entries routes).length)
    have hpp : p' = p := by
      rcases Nat.lt_trichotomy p' p with hlt | heq | hgt
      · exact absurd hp (hq'.inside p hlt (by omega))
      · exact heq
      · exact absurd hp' (hinside p' hgt hpj')
    subst hpp
    obtain rfl : x' = x := by simpa [hx'] using hx
    rw [hw] at hw'
    simpa using hw'.symm

/-- The methods of a group come without the sign bit, so no route of an exact table has
it in its method. -/
theorem methodsUnsigned_of_groupsExact (ht : SpelledTable routes)
    (hf : Finalized h (entries routes)) (hg : GroupsExact h routes) : MethodsUnsigned routes := by
  intro r hr
  obtain ⟨k, hk⟩ := exists_place ht hr
  have hword := getElem?_entryWords hk
  -- the first place of the path is owned by the node that the path leads to
  obtain ⟨p, -, hsame, hfirst⟩ := Runs.exists_first (entryWords routes) k
  have hx := hsame.trans hword
  obtain ⟨i, hw, howns⟩ := exists_walk_of_first ht hf hx hfirst
  have hmem : (UInt32.ofInt r.method, r.callback) ∈ h.group p := by
    refine (hg.exact i p howns).mem_iff.mpr (List.mem_map.mpr ⟨r, ?_, rfl⟩)
    exact List.mem_filter.mpr ⟨hr, decide_eq_true hw⟩
  obtain ⟨e, -, he⟩ := List.mem_map.mp hmem
  have hlow : (UInt32.ofInt r.method).toNat < 2 ^ 31 := by
    rw [← (Prod.mk.inj he).1]
    exact (getPos_eq e.1).trans_lt (Nat.mod_lt _ (by decide))
  have hof : (UInt32.ofInt r.method).toNat = (r.method % 2 ^ 32).toNat :=
    UInt32.toNat_ofNat_of_lt' (by simp only [UInt32.size]; omega)
  obtain ⟨hmin, hmax⟩ := ht.method r hr
  omega

/-- A table in which one path has two spellings. -/
def spelledTable : List (Router Unit ℕ) :=
  [{ method := 1, path := .lit "/a", data := (), endpoint := 0 },
    { method := 2, path := .lit "/a/", data := (), endpoint := 1 },
    { method := 1, path := .lit "/b", data := (), endpoint := 2 }]

/-- The table of two spellings after `finalize`. -/
def spelledHandler : RequestHandler Unit ℕ where
  staticRoutes := [{ map := [(lit "b", 2), (lit "a", 1)] }, { endpointPos := 0 },
    { endpointPos := 2 }]
  endpoints := [0x80000001, 2, 0x80000001]
  callbacks := [⟨(), 0⟩, ⟨(), 1⟩, ⟨(), 2⟩]

/-- A table in which another path stands between the two spellings. -/
def dividedTable : List (Router Unit ℕ) :=
  [{ method := 1, path := .lit "/a", data := (), endpoint := 0 },
    { method := 1, path := .lit "/a!", data := (), endpoint := 1 },
    { method := 2, path := .lit "/a/", data := (), endpoint := 2 }]

/-- The table of the divided spellings after `finalize`. -/
def dividedHandler : RequestHandler Unit ℕ where
  staticRoutes := [{ map := [(lit "a!", 2), (lit "a", 1)] }, { endpointPos := 0 },
    { endpointPos := 1 }]
  endpoints := [0x80000001, 0x80000001, 2]
  callbacks := [⟨(), 0⟩, ⟨(), 1⟩, ⟨(), 2⟩]

end RequestHandler

end RePlace.Http
