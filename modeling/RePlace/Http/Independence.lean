import RePlace.Data.CarryTrie
import RePlace.Http.ParamTable

/-!
# Tables of unrelated routes

Two sets of paths without a common first segment, in one table with one method.
`pathBuild` is the build of a table whose owners are the paths themselves, so the
builds of the whole table and of one of its sets can be compared. They agree
below the first segments of the set as long as the builder does not stand in a
dynamic node when it goes from a path of one set to a path of the other
(`independent_of_nothingLeft`). Whether it does can be told from the paths
(`nothingLeft_iff`).
-/

namespace RePlace.Http

open PatternTrie (CarryTrie insert sub owner isWild find captures)
open PatternTrie.CarryTrie (addAll headKind Separate)
open Bytes (lit)

variable {δ ε : Type}

/-- The build of a layout is the build of its words. -/
theorem Layout.addRoutes_eq_addAll (routes : List (List Bytes × UInt32)) :
    (addRoutes {} routes).trie = (addAll isParam {} (words routes)).trie ∧
      (addRoutes {} routes).carry = (addAll isParam {} (words routes)).carry := by
  induction routes using List.reverseRecOn with
  | nil => exact ⟨rfl, rfl⟩
  | append_singleton A r ih =>
      obtain ⟨htrie, hcarry⟩ := ih
      rw [addRoutes_concat, words_append, CarryTrie.addAll_concat]
      simp only [addRoute, word, CarryTrie.add, htrie, hcarry, length_endpoints, and_self]

/-- The paths under their segments, in the order of `finalize`. -/
def pathWords (paths : List CString) : List (List Bytes × CString) :=
  (inByteOrder paths).map fun p => (routeSegments p, p)

/-- The build of the paths, each the owner of its node. -/
def pathBuild (paths : List CString) : CarryTrie Bytes CString :=
  addAll isParam {} (pathWords paths)

/-- Positions read as the paths that stand there. -/
theorem map_zipIdx {α β : Type*} (f : α → β) (l : List α) :
    ((l.map f).zipIdx.map fun e => (e.1, l[e.2]?)) = l.map fun a => (f a, some a) := by
  refine List.ext_getElem? fun i => ?_
  cases hi : l[i]? with
  | none => simp [hi]
  | some a => simp [hi]

namespace RequestHandler

/-- The build of a table with one method, its positions read as paths, is the
build of the paths. -/
theorem addAll_methodRoutes (m : UInt8) (paths : List CString) :
    (addAll isParam {} (Layout.words (methodRoutes m paths))).map
        (fun i => (inByteOrder paths)[i]?) =
      (pathBuild paths).map some := by
  have hwords : (Layout.words (methodRoutes m paths)).map
      (fun e => (e.1, (inByteOrder paths)[e.2]?)) =
        (pathWords paths).map fun e => (e.1, some e.2) := by
    rw [words_methodRoutes, pathTable, map_zipIdx, pathWords, List.map_map]
    rfl
  rw [CarryTrie.map_addAll, hwords, pathBuild, CarryTrie.map_addAll]
  rfl

/-- The path that a request ends up with. -/
def foundPath (paths : List CString) (uri : Bytes) : Option CString :=
  if uri = [slash] then none else find none (pathBuild paths).trie (uriSegments uri)

/-- A request with the method of the table executes the path it ends up with. -/
theorem handleRequest_foundPath {cap : Capacity} {m : UInt8} {cb : CString → RouterCallback δ ε}
    {paths : List CString} {h : RequestHandler δ ε}
    (hok : finalize cap (table (oneMethod m cb paths)) = .ok h) {req : Request}
    (hm : req.method = m) (hne : req.uri ≠ []) :
    h.handleRequest req =
      match foundPath paths req.uri with
      | none => some notFound
      | some p => some (.executed (cb p)
          (req.withParams (captures (pathBuild paths).trie (uriSegments req.uri)))) := by
  obtain ⟨htrie, -⟩ := Layout.addRoutes_eq_addAll (methodRoutes m paths)
  have hmap := congrArg CarryTrie.trie (addAll_methodRoutes m paths)
  simp only [CarryTrie.map, ← htrie] at hmap
  have hfound : ((Layout.addRoutes {} (methodRoutes m paths)).find req.uri).map
      (fun i => (inByteOrder paths)[i]?) = (foundPath paths req.uri).map some := by
    rw [Layout.find, foundPath]
    split
    · rfl
    · rw [← PatternTrie.find_map, ← PatternTrie.find_map, hmap]
      rfl
  have hcap : captures (Layout.addRoutes {} (methodRoutes m paths)).trie (uriSegments req.uri) =
      captures (pathBuild paths).trie (uriSegments req.uri) := by
    rw [← PatternTrie.captures_map (fun i => (inByteOrder paths)[i]?), hmap,
      PatternTrie.captures_map]
  rw [handleRequest_oneMethod hok hm hne, hcap]
  cases hp : foundPath paths req.uri with
  | none =>
      rw [hp, Option.map_none, Option.map_eq_none_iff] at hfound
      rw [hfound]
  | some p =>
      rw [hp, Option.map_some, Option.map_eq_some_iff] at hfound
      obtain ⟨i, hi, hget⟩ := hfound
      rw [hi]
      simp [hget]

/-! ## What the builder keeps from one route to the next -/

/-- When the loop goes from a path of `S` to a path outside `S` or back, it has
no dynamic node left. -/
def NothingLeft (cap : Capacity) (S : List CString) (routes : List (Router δ ε)) : Prop :=
  ∀ A e e' B h d, entries routes = A ++ e :: e' :: B → ¬ (e.1.path ∈ S ↔ e'.1.path ∈ S) →
    (A ++ [e]).foldlM (insertRoute cap) (loopStart routes) = .ok (h, d) → d = none

/-- The loop gets as far as any part of a table that it gets through. -/
theorem foldlM_loopStart {cap : Capacity} {routes : List (Router δ ε)} {h : RequestHandler δ ε}
    (hok : finalize cap (table routes) = .ok h) {A B : List (RouterKey × RouterCallback δ ε)}
    (hcut : entries routes = A ++ B) :
    ∃ h' d, A.foldlM (insertRoute cap) (loopStart routes) = .ok (h', d) ∧
      Stands h' d (Layout.ofKeys (A.map Prod.fst)) := by
  obtain ⟨h₁, d₁, hloop, -⟩ := finalize_ok hok
  rw [hcut, List.foldlM_append] at hloop
  obtain ⟨⟨h', d⟩, hA, -⟩ := bind_eq_ok.mp hloop
  exact ⟨h', d, hA, (foldlM_insertRoute (stands_loopStart routes) Layout.carried_empty
    (Nat.zero_le _) hA).1⟩

/-! ## Two sets without a common first segment -/

section Independence

variable {cap : Capacity} {m : UInt8} {cb : CString → RouterCallback δ ε} {S T U : List CString}

/-- The segment is the first segment of a path of the set. -/
def startsIn (S : List CString) (s : Bytes) : Bool :=
  S.any fun p => (routeSegments p).head? = some s

theorem headKind_startsIn {p : CString} :
    headKind (startsIn S) (routeSegments p) = true ↔
      ∃ q ∈ S, (routeSegments q).head? = (routeSegments p).head? := by
  obtain ⟨s, x, hp⟩ := List.exists_cons_of_ne_nil (routeSegments_ne_nil p)
  simp [hp, headKind, startsIn]

/-- The paths of the set are those that start as a path of the set does. -/
theorem headKind_iff_mem
    (hsep : ∀ p ∈ S, ∀ q ∈ T, (routeSegments p).head? ≠ (routeSegments q).head?)
    {p : CString} (hp : p ∈ S ++ T) :
    headKind (startsIn S) (routeSegments p) = true ↔ p ∈ S := by
  rw [headKind_startsIn]
  constructor
  · rintro ⟨q, hq, hhead⟩
    refine (List.mem_append.mp hp).resolve_right fun hT => ?_
    exact hsep q hq p hT hhead
  · exact fun hS => ⟨p, hS, rfl⟩

theorem filter_inByteOrder (hU : U.Perm (S ++ T)) (hnd : (S ++ T).Nodup) :
    (inByteOrder U).filter (· ∈ S) = inByteOrder S := by
  have hkeys : ∀ paths : List CString, (paths.map fun p => (p, ())).map Prod.fst = paths :=
    fun paths => (List.map_map ..).trans (List.map_id paths)
  have hall : OrderedMap.ofList CString.strcmp [] (U.map fun p => (p, ())) =
      OrderedMap.ofList CString.strcmp [] ((S ++ T).map fun p => (p, ())) :=
    OrderedMap.ofList_eq_of_perm strcmp_lawful (hU.map _) (by rwa [hkeys, hU.nodup_iff])
  have hkept : ((S ++ T).map fun p => (p, ())).filter (fun e => decide (e.1 ∈ S)) =
      S.map fun p => (p, ()) := by
    have hS : (S ++ T).filter (fun p => decide (p ∈ S)) = S := by
      rw [List.filter_append, List.filter_eq_self.mpr (by simp),
        List.filter_eq_nil_iff.mpr, List.append_nil]
      intro p hp
      simpa using fun hS => (List.nodup_append.mp hnd).2.2 p hS p hp rfl
    rw [List.filter_map]
    exact congrArg _ hS
  rw [inByteOrder, inByteOrder, List.filter_map, hall, ← hkept,
    ← OrderedMap.filter_ofList strcmp_lawful _ (by rwa [hkeys])]
  rfl

/-- The loop has no dynamic node left behind the first paths exactly when the build of
these paths carries nothing over. -/
theorem foldlM_carry_iff {h : RequestHandler δ ε}
    (hok : finalize cap (table (oneMethod m cb U)) = .ok h) {A B : List CString}
    (hcut : inByteOrder U = A ++ B) :
    ∃ h' d, (A.map fun p => (⟨p, m.toNat⟩, cb p)).foldlM (insertRoute cap)
        (loopStart (oneMethod m cb U)) = .ok (h', d) ∧
      (d = none ↔ (addAll isParam {} (A.map fun p => (routeSegments p, p))).carry = []) := by
  have hentries := entries_oneMethod m cb U
  rw [hcut, List.map_append] at hentries
  obtain ⟨h', d, hrun, hst⟩ := foldlM_loopStart hok hentries
  refine ⟨h', d, hrun, ?_⟩
  rw [← hst.carry_eq_nil_iff, Layout.ofKeys, (Layout.addRoutes_eq_addAll _).2]
  refine iff_of_eq (congrArg (· = []) (CarryTrie.carry_eq_of_words_eq ?_))
  simp [Layout.words, List.zipIdx_map_fst]

/-- In byte order, no path of the table that stands next to one on the other side of `S`
is carried over to it. -/
def NothingCarried (S U : List CString) : Prop :=
  ∀ A p q B, inByteOrder U = A ++ p :: q :: B → ¬ (p ∈ S ↔ q ∈ S) →
    (addAll isParam {} ((A ++ [p]).map fun p => (routeSegments p, p))).carry = []

/-- What the loop has left can be told from the paths. -/
theorem nothingLeft_iff {h : RequestHandler δ ε}
    (hok : finalize cap (table (oneMethod m cb U)) = .ok h) :
    NothingLeft cap S (oneMethod m cb U) ↔ NothingCarried S U := by
  constructor
  · intro hleft A p q B hcut hpq
    have hentries := entries_oneMethod m cb U
    rw [hcut, List.map_append, List.map_cons, List.map_cons] at hentries
    obtain ⟨h', d, hrun, hiff⟩ := foldlM_carry_iff hok (hcut.trans (List.append_cons ..))
    rw [List.map_append] at hrun
    exact hiff.mp (hleft _ _ _ _ h' d hentries hpq hrun)
  · intro hcarried A e e' B h' d hcut hdiff hrun
    rw [entries_oneMethod] at hcut
    obtain ⟨A', rest, hA, rfl, hrest⟩ := List.map_eq_append_iff.mp hcut
    obtain ⟨p, rest', rfl, rfl, hrest'⟩ := List.map_eq_cons_iff.mp hrest
    obtain ⟨q, B', rfl, rfl, rfl⟩ := List.map_eq_cons_iff.mp hrest'
    obtain ⟨h'', d', hrun', hiff⟩ := foldlM_carry_iff hok (hA.trans (List.append_cons ..))
    rw [List.map_append] at hrun'
    obtain ⟨-, rfl⟩ := Prod.mk.inj (Except.ok.inj (hrun'.symm.trans hrun))
    exact hiff.mpr (hcarried _ _ _ _ hA hdiff)

theorem filter_pathWords
    (hsep : ∀ p ∈ S, ∀ q ∈ T, (routeSegments p).head? ≠ (routeSegments q).head?)
    (hU : U.Perm (S ++ T)) (hnd : (S ++ T).Nodup) :
    (pathWords U).filter (fun e => headKind (startsIn S) e.1) = pathWords S := by
  rw [pathWords, pathWords, List.filter_map, ← filter_inByteOrder hU hnd]
  congr 1
  refine List.filter_congr fun p hp => ?_
  have hmem : p ∈ S ++ T :=
    hU.mem_iff.mp ((mem_inByteOrder (hU.nodup_iff.mpr hnd)).mp hp)
  rw [Bool.eq_iff_iff, decide_eq_true_iff]
  exact headKind_iff_mem hsep hmem

/-- The builds of the whole table and of the set agree below the set. -/
theorem agree_pathBuild {h : RequestHandler δ ε}
    (hsep : ∀ p ∈ S, ∀ q ∈ T, (routeSegments p).head? ≠ (routeSegments q).head?)
    (hU : U.Perm (S ++ T)) (hnd : (S ++ T).Nodup)
    (hok : finalize cap (table (oneMethod m cb U)) = .ok h)
    (hleft : NothingLeft cap S (oneMethod m cb U)) :
    CarryTrie.Agree (startsIn S) (pathBuild U) (pathBuild S) := by
  rw [pathBuild, pathBuild, ← filter_pathWords hsep hU hnd]
  refine CarryTrie.agree_filter ?_ fun A e B hcut => CarryTrie.separate_of_neighbours ?_ hcut
  · intro e he
    obtain ⟨p, -, rfl⟩ := List.mem_map.mp he
    exact routeSegments_ne_nil p
  · intro A e e' B hcut hkind
    obtain ⟨A', rest, hA, rfl, hrest⟩ := List.map_eq_append_iff.mp hcut
    obtain ⟨p, rest', rfl, rfl, hrest'⟩ := List.map_eq_cons_iff.mp hrest
    obtain ⟨q, B', rfl, rfl, rfl⟩ := List.map_eq_cons_iff.mp hrest'
    have hmem : ∀ r ∈ A' ++ p :: q :: B', r ∈ S ++ T := by
      intro r hr
      rw [← hA] at hr
      exact hU.mem_iff.mp ((mem_inByteOrder (hU.nodup_iff.mpr hnd)).mp hr)
    have hpq : ¬ (p ∈ S ↔ q ∈ S) := by
      rw [← headKind_iff_mem hsep (hmem p (by simp)), ← headKind_iff_mem hsep (hmem q (by simp)),
        ← Bool.eq_iff_iff]
      exact hkind
    have hcarry := (nothingLeft_iff hok).mp hleft _ _ _ _ hA hpq
    rwa [List.map_append] at hcarry

/-- Every request for a first segment of the set is treated alike. -/
def Independent (m : UInt8) (S : List CString) (h hS : RequestHandler δ ε) : Prop :=
  ∀ req : Request, req.method = m → req.uri.head? = some slash →
    (∃ p ∈ S, (routeSegments p).head? = (uriSegments req.uri).head?) →
    h.handleRequest req = hS.handleRequest req

/-- Routes with other first segments make no difference when nothing is left in
the builder between the two sets. -/
theorem independent_of_nothingLeft {h hS : RequestHandler δ ε} (hnd : (S ++ T).Nodup)
    (hsep : ∀ p ∈ S, ∀ q ∈ T, (routeSegments p).head? ≠ (routeSegments q).head?)
    (hU : U.Perm (S ++ T)) (hok : finalize cap (table (oneMethod m cb U)) = .ok h)
    (hokS : finalize cap (table (oneMethod m cb S)) = .ok hS)
    (hleft : NothingLeft cap S (oneMethod m cb U)) : Independent m S h hS := by
  intro req hm huri hfirst
  have hagree := agree_pathBuild hsep hU hnd hok hleft
  obtain ⟨s, x, hx⟩ := List.exists_cons_of_ne_nil (uriSegments_ne_nil req.uri)
  have hs : startsIn S s = true := by
    obtain ⟨p, hp, hhead⟩ := hfirst
    rw [hx, List.head?_cons] at hhead
    exact List.any_eq_true.mpr ⟨p, hp, by simpa using hhead⟩
  have hfound : foundPath U req.uri = foundPath S req.uri := by
    rw [foundPath, foundPath, hx, hagree.find hs]
  have hne : req.uri ≠ [] := List.ne_nil_of_mem (List.mem_of_head? huri)
  rw [handleRequest_foundPath hok hm hne, handleRequest_foundPath hokS hm hne, hfound, hx,
    hagree.captures hs]

/-- The handler of the sample paths `/b` and `/a/:x`. -/
def sampleUnionHandler : RequestHandler Unit CString where
  staticRoutes := [{ map := [(lit "b", 2), (lit "a", 0x80000000)] }, { endpointPos := 0 },
    { endpointPos := 1 }]
  dynamicRoutes := [{ name := lit "x", idPtr := 1 }]
  endpoints := [0x80000001, 0x80000001]
  callbacks := [tag (.lit "/a/:x"), tag (.lit "/b")]

/-- The handler of the sample path `/b`. -/
def sampleSetHandler : RequestHandler Unit CString where
  staticRoutes := [{ map := [(lit "b", 1)] }, { endpointPos := 0 }]
  endpoints := [0x80000001]
  callbacks := [tag (.lit "/b")]

theorem independence_sample : Independent 1 [.lit "/b"] sampleUnionHandler sampleSetHandler := by
  have hleft : NothingLeft sampleCapacity [.lit "/b"]
      (oneMethod 1 tag [.lit "/b", .lit "/a/:x"]) := by
    intro A e e' B h d hcut hdiff hrun
    have hentries : entries (oneMethod 1 tag [.lit "/b", .lit "/a/:x"]) =
      [(⟨.lit "/a/:x", 1⟩, tag (.lit "/a/:x")), (⟨.lit "/b", 1⟩, tag (.lit "/b"))] := rfl
    rw [hentries] at hcut
    cases A with
    | nil =>
        obtain ⟨rfl, -⟩ := List.cons.inj hcut
        obtain ⟨-, rfl⟩ := Prod.mk.inj (Except.ok.inj hrun)
        rfl
    | cons e₀ A =>
        have := congrArg List.length hcut
        simp at this
        omega
  exact independent_of_nothingLeft (T := [.lit "/a/:x"]) (by decide) (by decide) (.refl _)
    (show finalize sampleCapacity (table (oneMethod 1 tag [.lit "/b", .lit "/a/:x"])) =
      .ok sampleUnionHandler from rfl)
    (show finalize sampleCapacity (table (oneMethod 1 tag [.lit "/b"])) = .ok sampleSetHandler
      from rfl) hleft

/-- `/a/:z` ends in the dynamic node of `/a/:x/:y` and swallows `/b/c`, which the
table of `/b/c` alone executes. -/
theorem independence_fails :
    ([.lit "/b/c"] ++ [.lit "/a/:x/:y", .lit "/a/:z"] : List CString).Nodup ∧
    (∀ p ∈ [CString.lit "/b/c"], ∀ q ∈ [CString.lit "/a/:x/:y", .lit "/a/:z"],
      (routeSegments p).head? ≠ (routeSegments q).head?) ∧
    ∃ h hS, finalize sampleCapacity
        (table (oneMethod 1 tag ([.lit "/b/c"] ++ [.lit "/a/:x/:y", .lit "/a/:z"]))) = .ok h ∧
      finalize sampleCapacity (table (oneMethod 1 tag [.lit "/b/c"])) = .ok hS ∧
      ¬ Independent 1 [.lit "/b/c"] h hS := by
  refine ⟨by decide, by decide, ?_⟩
  have hrun : ∃ h hS req', finalize sampleCapacity
        (table (oneMethod 1 tag ([.lit "/b/c"] ++ [.lit "/a/:x/:y", .lit "/a/:z"]))) = .ok h ∧
      finalize sampleCapacity (table (oneMethod 1 tag [.lit "/b/c"])) = .ok hS ∧
      h.handleRequest { uri := lit "/b/c", method := 1 } = some notFound ∧
      hS.handleRequest { uri := lit "/b/c", method := 1 } =
        some (.executed (tag (.lit "/b/c")) req') := ⟨_, _, _, rfl, rfl, rfl, rfl⟩
  obtain ⟨h, hS, req', hok, hokS, hall, hset⟩ := hrun
  refine ⟨h, hS, hok, hokS, fun hind => ?_⟩
  have hsame := hind { uri := lit "/b/c", method := 1 } rfl rfl ⟨.lit "/b/c", by simp, by decide⟩
  rw [hall, hset] at hsame
  simp [notFound] at hsame

end Independence

end RequestHandler

end RePlace.Http
