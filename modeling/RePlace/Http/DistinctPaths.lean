import RePlace.Http.PlainTable

/-!
# Tables with one method for each path

When no path of a table has two methods, every entry of the endpoints is marked as
the first of its group. The loop behind the first entry then finds nothing, as a
marked entry is equal to no method, so a request is answered by the route of its
path and method or by no route at all, whatever the first byte of its URI is.
-/

namespace RePlace.Http

variable {δ ε : Type}

/-- A table without parameters in which no path has two methods. -/
structure DistinctPaths (routes : List (Router δ ε)) : Prop extends PlainTable routes where
  paths : (routes.map Router.path).Nodup

/-- It depends on the paths and the methods alone. -/
theorem DistinctPaths.of_keys {δ' ε' : Type} {routes : List (Router δ ε)}
    {routes' : List (Router δ' ε')} (h : DistinctPaths routes)
    (hkeys : routes'.map Router.key = routes.map Router.key) : DistinctPaths routes' := by
  have hkey : ∀ r' ∈ routes', ∃ r ∈ routes, r.path = r'.path ∧ r.method = r'.method := by
    intro r' hr'
    have hmem : r'.key ∈ routes.map Router.key := hkeys ▸ List.mem_map_of_mem hr'
    obtain ⟨r, hr, heq⟩ := List.mem_map.mp hmem
    exact ⟨r, hr, congrArg RouterKey.path heq, congrArg RouterKey.method heq⟩
  have hpaths : routes'.map Router.path = routes.map Router.path := by
    have hmap := congrArg (List.map RouterKey.path) hkeys
    rw [List.map_map, List.map_map] at hmap
    exact hmap
  refine ⟨⟨hkeys ▸ h.distinct, ?_, ?_, ?_⟩, hpaths ▸ h.paths⟩
  · intro r' hr'
    obtain ⟨r, hr, hpath, -⟩ := hkey r' hr'
    exact hpath ▸ h.canonical r hr
  · intro r' hr'
    obtain ⟨r, hr, hpath, -⟩ := hkey r' hr'
    exact hpath ▸ h.plain r hr
  · intro r' hr'
    obtain ⟨r, hr, -, hmethod⟩ := hkey r' hr'
    exact hmethod ▸ h.byte r hr

theorem uriSegments_cons_ne {c : UInt8} {t p : Bytes} (hp : p.length ≠ 0) :
    (dropTrailingSlash (c :: t)).drop 1 = p ↔ (c :: t).drop 1 = p ∧ p.getLast? ≠ some slash ∨
      (c :: t).drop 1 = p ++ [slash] := by
  cases t using List.reverseRecOn with
  | nil =>
      have hnil : (dropTrailingSlash [c]).drop 1 = [] := by
        by_cases hc : c = slash <;> simp [dropTrailingSlash, hc]
      rw [hnil]
      constructor
      · rintro rfl
        exact absurd rfl hp
      · rintro (⟨rfl, -⟩ | h)
        · exact absurd rfl hp
        · simp at h
  | append_singleton t a =>
      have hlast : (c :: (t ++ [a])).getLast? = some a := by
        rw [← List.cons_append, List.getLast?_concat]
      by_cases ha : a = slash
      · subst ha
        have hdrop : dropTrailingSlash (c :: (t ++ [slash])) = c :: t := by
          rw [dropTrailingSlash, if_pos hlast, ← List.cons_append, List.dropLast_concat]
        rw [hdrop]
        simp only [List.drop_succ_cons, List.drop_zero, List.append_cancel_right_eq]
        constructor
        · exact .inr
        · rintro (⟨rfl, hne⟩ | h)
          · simp at hne
          · exact h
      · have hne : ¬ (c :: (t ++ [a])).getLast? = some slash := by
          rw [hlast]
          simpa using ha
        rw [dropTrailingSlash, if_neg hne]
        simp only [List.drop_succ_cons, List.drop_zero]
        constructor
        · rintro rfl
          exact .inl ⟨rfl, by simpa using ha⟩
        · rintro (⟨h, -⟩ | h)
          · exact h
          · exact absurd (List.append_inj' h rfl).2 (by simpa using ha)

/-- A URI has the segments of a canonical path when it is that path behind its first
byte, with or without a slash at the end. -/
theorem Canonical.segments_eq_iff {p : CString} (hp : Canonical p) {uri : Bytes}
    (hne : uri ≠ []) : routeSegments p = uriSegments uri ↔
      uri.drop 1 = p.bytes.drop 1 ∨ uri.drop 1 = p.bytes.drop 1 ++ [slash] := by
  obtain ⟨c, t, rfl⟩ := List.exists_cons_of_ne_nil hne
  have hlen : (p.bytes.drop 1).length ≠ 0 := by
    have := hp.length
    rw [List.length_drop]
    omega
  have hlast : (p.bytes.drop 1).getLast? ≠ some slash := by
    rw [List.getLast?_drop]
    have := hp.length
    split
    · simp
    · exact hp.last
  have hseg : routeSegments p = uriSegments (c :: t) ↔
      (dropTrailingSlash (c :: t)).drop 1 = p.bytes.drop 1 := by
    rw [hp.segments_eq, uriSegments]
    exact ⟨fun h => (Scan.eq_of_splitOn_eq h).symm, fun h => by rw [h]⟩
  rw [hseg, uriSegments_cons_ne hlen, and_iff_left hlast]

namespace RequestHandler

variable {routes : List (Router δ ε)} {cap : Capacity} {h : RequestHandler δ ε} {req : Request}

/-- The route of a request: the first of the table with its path and its method. -/
def routeOf (routes : List (Router δ ε)) (req : Request) : Option (Router δ ε) :=
  routes.find? fun r => routeSegments r.path = uriSegments req.uri ∧ r.method = req.method.toNat

/-- What a request is answered with: it is executed by its route, and it is not found
without one. -/
def routed (routes : List (Router δ ε)) (req : Request) : Outcome δ ε :=
  match routeOf routes req with
  | some r => .executed r.callback req
  | none => .responded (stockResponse .notFound)

/-- A request ends up with the entry of its path. -/
theorem handleRequest_distinctPaths (ht : DistinctPaths routes)
    (hf : Finalized h (entries routes)) (hne : req.uri ≠ []) :
    h.handleRequest req = h.dispatch ((entries routes).findIdx? fun e =>
      routeSegments e.1.path = uriSegments req.uri) req := by
  have hk := plainKeys_entries ht.toPlainTable
  have hfind : (Layout.ofKeys ((entries routes).map Prod.fst)).find req.uri =
      (entries routes).findIdx? fun e => routeSegments e.1.path = uriSegments req.uri := by
    rw [Layout.find]
    split
    next hroot =>
        symm
        rw [List.findIdx?_eq_none_iff]
        intro e he
        have hcan := hk.canonical e.1 (List.mem_map_of_mem he)
        rw [decide_eq_false_iff_not, hcan.segments_eq_iff hne, hroot]
        have hlen := hcan.length
        rintro (hp | hp)
        · have := congrArg List.length hp
          simp at this
          omega
        · simp at hp
    next =>
        rw [PatternTrie.find_of_not_wild none (hk.noParams.not_wild _),
          hk.noParams.owner_sub (uriSegments_ne_nil _), List.findIdx?_map]
        rfl
  rw [handleRequest_eq hf hne, hfind, PatternTrie.captures_of_not_wild hk.noParams.not_wild,
    Request.withParams_nil]

/-- No entry of the endpoints is equal to a method. -/
theorem endpoints_ne_method (ht : DistinctPaths routes) (hf : Finalized h (entries routes))
    (j : ℕ) (m : UInt8) : h.endpoints[j]? ≠ some m.toUInt32 := by
  rw [ne_eq, endpoints_eq_method_iff ht.toPlainTable hf]
  rintro ⟨e, hj, -, i, hij, e', hi, hpath⟩
  obtain ⟨r, hr, rfl⟩ := (mem_entries ht.distinct).mp (List.mem_of_getElem? hj)
  obtain ⟨r', hr', rfl⟩ := (mem_entries ht.distinct).mp (List.mem_of_getElem? hi)
  obtain rfl : r' = r := List.inj_on_of_nodup_map ht.paths hr' hr hpath
  have hinc := entries_increasing routes
  have hlt := compare_of_lt hinc hi hj hij
  have := (RouterKey.compare_lawful.eq_iff (Router.key r') (Router.key r')).mpr rfl
  simp only at hlt
  omega

/-- A route is found by its path and its method. -/
theorem routeOf_eq_some_iff (ht : DistinctPaths routes) {r : Router δ ε} :
    routeOf routes req = some r ↔
      r ∈ routes ∧ routeSegments r.path = uriSegments req.uri ∧ r.method = req.method.toNat := by
  constructor
  · intro hfound
    exact ⟨List.mem_of_find?_eq_some hfound, by simpa using List.find?_some hfound⟩
  · rintro ⟨hr, hboth⟩
    obtain ⟨r', hfound⟩ : ∃ r', routeOf routes req = some r' := by
      rw [← Option.isSome_iff_exists, routeOf, List.find?_isSome]
      exact ⟨r, hr, by simpa using hboth⟩
    have hr' := List.mem_of_find?_eq_some hfound
    have hboth' := List.find?_some hfound
    simp only [decide_eq_true_eq] at hboth'
    have hpath := ((ht.canonical r' hr').segments_inj (ht.canonical r hr)).mp
      (hboth'.1.trans hboth.1.symm)
    rw [hfound, List.inj_on_of_nodup_map ht.paths hr' hr hpath]

/-- A table in which no path has two methods dispatches exactly: a request is executed
by the route of its path and its method, and not found without one. -/
theorem dispatch_distinctPaths (ht : DistinctPaths routes)
    (hf : Finalized h (entries routes)) (hne : req.uri ≠ []) :
    h.handleRequest req = some (routed routes req) := by
  rw [handleRequest_distinctPaths ht hf hne, routed]
  cases hidx : (entries routes).findIdx? fun e => routeSegments e.1.path = uriSegments req.uri with
  | none =>
      have hnone : routeOf routes req = none := by
        rw [Option.eq_none_iff_forall_ne_some]
        intro r hr
        obtain ⟨hr, hseg, -⟩ := (routeOf_eq_some_iff ht).mp hr
        have := List.findIdx?_eq_none_iff.mp hidx _ ((mem_entries ht.distinct).mpr ⟨r, hr, rfl⟩)
        simp [Router.key, hseg] at this
      rw [hnone]
      rfl
  | some i =>
      obtain ⟨hlt, hseg, -⟩ := List.findIdx?_eq_some_iff_getElem.mp hidx
      have hget := List.getElem?_eq_getElem hlt
      obtain ⟨r, hr, he⟩ := (mem_entries ht.distinct).mp (List.getElem_mem hlt)
      rw [← he] at hget hseg
      have hseg : routeSegments r.path = uriSegments req.uri := of_decide_eq_true hseg
      obtain ⟨b, hb, hentry⟩ := entry_of_plain ht.toPlainTable hf hget
      have hmethod : getMethod (entryOf (((entries routes).take i).findIdx? fun e' =>
          e'.1.path = r.key.path) b.toUInt32) = req.method ↔ r.method = req.method.toNat := by
        have hb : r.method = b.toNat := hb
        rw [getMethod_entryOf, hb, Nat.cast_inj, UInt8.toNat_inj]
      by_cases hm : r.method = req.method.toNat
      · rw [(routeOf_eq_some_iff ht).mpr ⟨hr, hseg, hm⟩, dispatch,
          selectEndpoint_head hf.small hentry (hmethod.mpr hm), execute_eq hf hget]
      · have hnone : routeOf routes req = none := by
          rw [Option.eq_none_iff_forall_ne_some]
          intro r' hr'
          obtain ⟨hr', hseg', hm'⟩ := (routeOf_eq_some_iff ht).mp hr'
          have hpath := ((ht.canonical r' hr').segments_inj (ht.canonical r hr)).mp
            (hseg'.trans hseg.symm)
          exact hm (List.inj_on_of_nodup_map ht.paths hr' hr hpath ▸ hm')
        rw [hnone, dispatch]
        exact (selectEndpoint_eq_notFound_iff hf.small hentry (mt hmethod.mp hm)).mpr
          fun j _ => endpoints_ne_method ht hf j req.method

end RequestHandler

end RePlace.Http
