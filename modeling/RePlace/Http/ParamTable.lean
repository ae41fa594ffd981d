import RePlace.Data.PatternMatch
import RePlace.Http.Dispatch
import RePlace.Http.OpenEnd

/-!
# Tables with parameters and one method

All routes of the tables of this file have one method, so a request executes the
route it ends up with (`handleRequest_oneMethod`). `path_soundness_iff` says for
which paths only matching routes are executed, `path_completeness_iff` for which
paths every registered route is reachable. The paths count in the order in which
`finalize` adds them; `pathTable` is the table of their segments in that order.
-/

namespace RePlace.Http

open PatternTrie (insert insertAll sub owner isWild find captures Matches)
open PatternTrie.Table (NoOpenEnd takesAny residual firstEnd Sound Complete)

variable {δ ε : Type}

open Bytes (lit)

/-! ## Tables with one method -/

/-- The paths in the order of their bytes. -/
def inByteOrder (paths : List CString) : List CString :=
  (OrderedMap.ofList CString.strcmp [] (paths.map fun p => (p, ()))).map Prod.fst

/-- The table that registers every path with the method. -/
def oneMethod (m : UInt8) (cb : CString → RouterCallback δ ε) (paths : List CString) :
    List (Router δ ε) :=
  paths.map fun p =>
    { method := m.toNat, path := p, data := (cb p).data, endpoint := (cb p).endpoint }

/-- The segments of the paths, with their positions in the order of `finalize`. -/
def pathTable (paths : List CString) : PatternTrie.Table Bytes ℕ :=
  ((inByteOrder paths).map routeSegments).zipIdx

theorem strcmp_lawful : OrderedMap.LawfulComparator CString.strcmp where
  swap a b := by
    have := CString.strcmp_swap a b
    omega
  eq_iff := CString.strcmp_eq_zero_iff
  trans := CString.strcmp_trans

theorem mem_of_mem_inByteOrder {paths : List CString} {p : CString} (hp : p ∈ inByteOrder paths) :
    p ∈ paths := by
  obtain ⟨e, he, rfl⟩ := List.mem_map.mp hp
  obtain ⟨q, hq, rfl⟩ := List.mem_map.mp ((OrderedMap.mem_ofList he).resolve_left (by simp))
  exact hq

theorem nodup_inByteOrder (paths : List CString) : (inByteOrder paths).Nodup :=
  (OrderedMap.ofList_increasing strcmp_lawful List.Pairwise.nil _).nodup_keys strcmp_lawful

theorem mem_inByteOrder {paths : List CString} (hnd : paths.Nodup) {p : CString} :
    p ∈ inByteOrder paths ↔ p ∈ paths := by
  have hkeys : (paths.map fun p => (p, ())).map Prod.fst = paths :=
    (List.map_map ..).trans (List.map_id paths)
  have hperm : (OrderedMap.ofList CString.strcmp [] (paths.map fun p => (p, ()))).Perm
      ([] ++ paths.map fun p => (p, ())) :=
    OrderedMap.ofList_perm strcmp_lawful (by rwa [List.nil_append, hkeys])
  rw [inByteOrder, (hperm.map Prod.fst).mem_iff, List.nil_append, hkeys]

namespace RequestHandler

theorem entries_oneMethod (m : UInt8) (cb : CString → RouterCallback δ ε) (paths : List CString) :
    entries (oneMethod m cb paths) =
      (inByteOrder paths).map fun p => (⟨p, m.toNat⟩, cb p) := by
  have hcmp : ∀ p q : CString, RouterKey.compare ⟨p, m.toNat⟩ ⟨q, m.toNat⟩ = p.strcmp q := by
    intro p q
    simp only [RouterKey.compare, sub_self]
    split <;> simp_all
  have hmap := OrderedMap.map_ofList (ν := Unit) (g := fun p _ => cb p) hcmp []
    (paths.map fun p => (p, ()))
  simp only [List.map_map, List.map_nil] at hmap
  rw [inByteOrder, List.map_map, entries, oneMethod, List.map_map]
  exact hmap.symm

/-- The routes a table with one method adds to the layout. -/
def methodRoutes (m : UInt8) (paths : List CString) : List (List Bytes × UInt32) :=
  (inByteOrder paths).map fun p => (routeSegments p, m.toUInt32)

theorem words_methodRoutes (m : UInt8) (paths : List CString) :
    Layout.words (methodRoutes m paths) = pathTable paths := by
  rw [Layout.words, methodRoutes, List.map_map]
  rfl

theorem ofKeys_oneMethod (m : UInt8) (cb : CString → RouterCallback δ ε) (paths : List CString) :
    Layout.ofKeys ((entries (oneMethod m cb paths)).map Prod.fst) =
      Layout.addRoutes {} (methodRoutes m paths) := by
  rw [Layout.ofKeys, entries_oneMethod, List.map_map, List.map_map, methodRoutes]
  congr 1
  refine List.map_congr_left fun p _ => ?_
  simp [ofInt_toNat]

/-- A request with the method of the table executes the route it ends up with. -/
theorem handleRequest_oneMethod {cap : Capacity} {m : UInt8} {cb : CString → RouterCallback δ ε}
    {paths : List CString} {h : RequestHandler δ ε}
    (hok : finalize cap (table (oneMethod m cb paths)) = .ok h) {req : Request}
    (hm : req.method = m) (hne : req.uri ≠ []) :
    h.handleRequest req =
      match (Layout.addRoutes {} (methodRoutes m paths)).find req.uri with
      | none => some notFound
      | some i => (inByteOrder paths)[i]?.map fun p => .executed (cb p)
          (req.withParams (captures (Layout.addRoutes {} (methodRoutes m paths)).trie
            (uriSegments req.uri))) := by
  have hf := finalize_refines hok
  rw [handleRequest_eq hf hne, ofKeys_oneMethod]
  cases hi : (Layout.addRoutes {} (methodRoutes m paths)).find req.uri with
  | none => rfl
  | some i =>
      have hcb : h.callbacks = (inByteOrder paths).map cb := by
        rw [hf.callbacks, entries_oneMethod, List.map_map]
        rfl
      have hget : (methodRoutes m paths)[i]? =
          (inByteOrder paths)[i]?.map fun p => (routeSegments p, m.toUInt32) := by
        rw [methodRoutes, List.getElem?_map]
      cases hp : (inByteOrder paths)[i]? with
      | none =>
          have hnone : h.endpoints[i]? = none := by
            rw [hf.endpoints, ofKeys_oneMethod, List.getElem?_eq_none_iff, Layout.length_endpoints,
              ← List.getElem?_eq_none_iff, hget, hp]
            rfl
          show h.dispatch (some i) _ = (inByteOrder paths)[i]?.map _
          rw [hp, dispatch, selectEndpoint, hnone]
          rfl
      | some p =>
          rw [hp] at hget
          have hentry := Layout.endpoints_addRoutes hget
          rw [← ofKeys_oneMethod m cb, ← hf.endpoints] at hentry
          show h.dispatch (some i) _ = (inByteOrder paths)[i]?.map _
          rw [dispatch,
            selectEndpoint_head hf.small hentry (by rw [getMethod_entryOf]; exact hm.symm),
            execute, hcb, List.getElem?_map, hp]
          rfl

/-! ## The words of the table -/

section Words

variable {m : UInt8} {paths : List CString}

theorem mem_pathTable {w : List Bytes} {i : ℕ} :
    (w, i) ∈ pathTable paths ↔ ∃ p, (inByteOrder paths)[i]? = some p ∧ routeSegments p = w := by
  rw [pathTable, List.mem_zipIdx_iff_getElem?, List.getElem?_map, Option.map_eq_some_iff]

theorem ne_nil_of_mem_pathTable {e : List Bytes × ℕ} (he : e ∈ pathTable paths) : e.1 ≠ [] := by
  obtain ⟨p, -, hp⟩ := mem_pathTable.mp he
  exact hp ▸ routeSegments_ne_nil p

theorem slash_not_mem_routeSegments {p : CString} {s : Bytes} (hs : s ∈ routeSegments p) :
    slash ∉ s := Scan.not_mem_of_mem_splitOn hs

theorem slash_not_mem_of_mem_pathTable {e : List Bytes × ℕ} (he : e ∈ pathTable paths) {s : Bytes}
    (hs : s ∈ e.1) : slash ∉ s := by
  obtain ⟨p, -, hp⟩ := mem_pathTable.mp he
  rw [← hp] at hs
  exact slash_not_mem_routeSegments hs

theorem slash_not_mem_methodRoutes {r : List Bytes × UInt32} (hr : r ∈ methodRoutes m paths)
    {s : Bytes} (hs : s ∈ r.1) : slash ∉ s := by
  obtain ⟨p, -, rfl⟩ := List.mem_map.mp hr
  exact slash_not_mem_routeSegments hs

theorem ne_nil_of_mem_methodRoutes {r : List Bytes × UInt32} (hr : r ∈ methodRoutes m paths) :
    r.1 ≠ [] := by
  obtain ⟨p, -, rfl⟩ := List.mem_map.mp hr
  exact routeSegments_ne_nil p

/-- The trie of a table in which no route ends in an open place. -/
theorem trie_methodRoutes (hno : NoOpenEnd isParam (pathTable paths)) :
    (Layout.addRoutes {} (methodRoutes m paths)).trie =
      insertAll isParam PatternTrie.empty (pathTable paths) := by
  rw [← words_methodRoutes m] at hno
  rw [(Layout.addRoutes_of_noOpenEnd hno).1, words_methodRoutes]

end Words

/-! ## Soundness -/

section Soundness

variable {cap : Capacity} {m : UInt8} {paths : List CString}

/-- Whatever the callbacks are, a request with the method `m` executes only
callbacks of paths that match it. -/
def PathSound (cap : Capacity) (m : UInt8) (paths : List CString) : Prop :=
  ∀ (δ ε : Type) (cb : CString → RouterCallback δ ε) (h : RequestHandler δ ε),
    finalize cap (table (oneMethod m cb paths)) = .ok h →
    ∀ req callback req', req.method = m → req.uri.head? = some slash →
      h.handleRequest req = some (.executed callback req') →
      ∃ p ∈ paths, Matches isParam (routeSegments p) (uriSegments req.uri) ∧ callback = cb p

/-- Every path is its own callback. -/
def tag (p : CString) : RouterCallback Unit CString := ⟨(), p⟩

/-- In a sound table what a place finds matches it. -/
theorem PathSound.matches_of_find (hsound : PathSound cap m paths)
    {h : RequestHandler Unit CString} (hok : finalize cap (table (oneMethod m tag paths)) = .ok h)
    {x : List Bytes} (hx : x ≠ []) (hfree : ∀ s ∈ x, slash ∉ s) {i : ℕ} {w : List Bytes}
    (hfind : find none (Layout.addRoutes {} (methodRoutes m paths)).trie x = some i)
    (hw : (w, i) ∈ pathTable paths) : Matches isParam w x := by
  have huri := uriSegments_uriOf_slash hx hfree
  have hroot : uriOf x ++ [slash] ≠ [slash] := by simp [uriOf]
  obtain ⟨p, hp, rfl⟩ := mem_pathTable.mp hw
  have hrun := @handleRequest_oneMethod _ _ _ m _ _ _ hok
    { uri := uriOf x ++ [slash], method := m } rfl (by simp)
  rw [Layout.find, if_neg hroot, huri, hfind] at hrun
  simp only [hp, Option.map_some] at hrun
  obtain ⟨q, -, hmatch, hcb⟩ := hsound _ _ tag h hok _ _ _ rfl rfl hrun
  obtain rfl : p = q := by simpa [tag] using hcb
  rwa [huri] at hmatch

theorem PathSound.noOpenEnd (hsound : PathSound cap m paths) {h : RequestHandler Unit CString}
    (hok : finalize cap (table (oneMethod m tag paths)) = .ok h) :
    NoOpenEnd isParam (pathTable paths) := by
  have hdeep : ¬ Layout.DeepOwner (methodRoutes m paths) := by
    rintro ⟨x, i, r, hfree, howner, hr, hlen⟩
    have hx : x ≠ [] := by
      rintro rfl
      simp at hlen
    have hw : (r.1, i) ∈ pathTable paths := by
      rw [← words_methodRoutes m, Layout.words, List.mem_zipIdx_iff_getElem?, List.getElem?_map, hr]
      rfl
    have hmatch := hsound.matches_of_find hok hx hfree (PatternTrie.find_of_owner none howner) hw
    have := hmatch.length_eq
    omega
  rw [← words_methodRoutes m]
  exact (Layout.noOpenEnd_or_deepOwner fun r hr s hs =>
    slash_not_mem_methodRoutes hr hs).resolve_right hdeep

theorem PathSound.sound (hsound : PathSound cap m paths) {h : RequestHandler Unit CString}
    (hok : finalize cap (table (oneMethod m tag paths)) = .ok h) :
    (pathTable paths).Sound isParam := by
  have hno := hsound.noOpenEnd hok
  have hfound : ∀ {x : List Bytes} {i : ℕ} {w : List Bytes}, x ≠ [] → (∀ s ∈ x, slash ∉ s) →
      find none (insertAll isParam PatternTrie.empty (pathTable paths)) x = some i →
      (w, i) ∈ pathTable paths → Matches isParam w x := by
    intro x i w hx hfree hfind hw
    rw [← trie_methodRoutes (m := m) hno] at hfind
    exact hsound.matches_of_find hok hx hfree hfind hw
  refine ⟨hno, fun e he s => ?_, fun e he hfirst a p b hcut ha => ?_⟩
  · -- the request that goes on with `s` behind the route finds a shorter route
    rw [← Bool.not_eq_true]
    intro hopen
    have hne := ne_nil_of_mem_pathTable he
    obtain ⟨i, w, hw, hlen, hfind⟩ := PatternTrie.exists_find_of_openNext hno he hne hopen
    have hs : ∃ e' ∈ pathTable paths, s ∈ e'.1 := by
      by_contra hmissing
      rw [PatternTrie.find_eq_none_of_missing hno (hno e he)
        (fun e' he' hs' => hmissing ⟨e', he', hs'⟩) []] at hfind
      cases hfind
    obtain ⟨e', he', hs'⟩ := hs
    have hmatch := hfound (by simp) (fun s' hs'' => by
      rcases List.mem_append.mp hs'' with hmem | hmem
      · exact slash_not_mem_of_mem_pathTable he hmem
      · obtain rfl := List.mem_singleton.mp hmem
        exact slash_not_mem_of_mem_pathTable he' hs') hfind hw
    have := hmatch.length_eq
    simp [hlen] at this
  · -- the request with another segment in place of `p` finds the route
    by_contra hp
    rw [Bool.not_eq_true] at hp
    obtain ⟨w, i⟩ := e
    simp only at hcut hfirst
    subst hcut
    have hfind := PatternTrie.find_of_literal hno hfirst ha (p ++ [0x61])
    have hmatch := hfound (by simp) (fun s hs => by
      have hmem : ∀ s' ∈ a ++ p :: b, slash ∉ s' := fun s' => slash_not_mem_of_mem_pathTable he
      rcases List.mem_append.mp hs with hs | hs
      · exact hmem s (List.mem_append_left _ hs)
      · rcases List.mem_cons.mp hs with rfl | hs
        · have := hmem p (by simp)
          simpa [this] using show slash ≠ 0x61 by decide
        · exact hmem s (List.mem_append_right _ (List.mem_cons_of_mem _ hs))) hfind he
    have := hmatch.literal hp
    simp at this

theorem pathSound_of_sound (hnd : paths.Nodup) (hP : (pathTable paths).Sound isParam) :
    PathSound cap m paths := by
  intro δ ε cb h hok req callback req' hm huri hrun
  rw [handleRequest_oneMethod hok hm (List.ne_nil_of_mem (List.mem_of_head? huri))] at hrun
  cases hfind : (Layout.addRoutes {} (methodRoutes m paths)).find req.uri with
  | none => simp [hfind, notFound] at hrun
  | some i =>
      simp only [hfind] at hrun
      obtain ⟨p, hp, hcb⟩ := Option.map_eq_some_iff.mp hrun
      simp only [Outcome.executed.injEq] at hcb
      rw [Layout.find, trie_methodRoutes hP.noOpenEnd] at hfind
      split at hfind
      next => cases hfind
      next =>
          obtain ⟨w, hw, hmatch⟩ :=
            hP.matches_of_find (fun e he => ne_nil_of_mem_pathTable he) hfind
          obtain ⟨q, hq, rfl⟩ := mem_pathTable.mp hw
          obtain rfl : p = q := by simpa [hp] using hq
          exact ⟨p, (mem_inByteOrder hnd).mp (List.mem_of_getElem? hp), hmatch, hcb.1.symm⟩

/-- Only matching routes are executed exactly when the table of the paths is
sound. -/
theorem path_soundness_iff (hnd : paths.Nodup) {h : RequestHandler Unit CString}
    (hok : finalize cap (table (oneMethod m tag paths)) = .ok h) :
    PathSound cap m paths ↔ (pathTable paths).Sound isParam :=
  ⟨fun hsound => hsound.sound hok, pathSound_of_sound hnd⟩

/-- The sample paths with a parameter. -/
def samplePaths : List CString := [.lit "/a/:x", .lit "/a/:x/b", .lit "/c", .lit "/c/d"]

def samplePathHandler : RequestHandler Unit CString where
  staticRoutes := [{ map := [(lit "c", 3), (lit "a", 0x80000000)] },
    { map := [(lit "b", 2)], endpointPos := 0 }, { endpointPos := 1 },
    { map := [(lit "d", 4)], endpointPos := 2 }, { endpointPos := 3 }]
  dynamicRoutes := [{ name := lit "x", idPtr := 1 }]
  endpoints := [0x80000001, 0x80000001, 0x80000001, 0x80000001]
  callbacks := samplePaths.map tag

theorem finalize_samplePaths :
    finalize sampleCapacity (table (oneMethod 1 tag samplePaths)) = .ok samplePathHandler := rfl

theorem path_soundness_sample : PathSound sampleCapacity 1 samplePaths :=
  (path_soundness_iff (by decide) finalize_samplePaths).mpr (by decide)

/-- The request for `/a/b` ends where a parameter is expected and executes the
callback of the shorter `/a`. -/
theorem path_soundness_fails :
    [CString.lit "/a", .lit "/a/b/:x"].Nodup ∧
      ¬ PathSound sampleCapacity 1 [.lit "/a", .lit "/a/b/:x"] := by
  refine ⟨by decide, fun hsound => ?_⟩
  have hrun : ∃ h req', finalize sampleCapacity
      (table (oneMethod 1 tag [.lit "/a", .lit "/a/b/:x"])) = .ok h ∧
      h.handleRequest { uri := lit "/a/b", method := 1 } =
        some (.executed (tag (.lit "/a")) req') := ⟨_, _, rfl, rfl⟩
  obtain ⟨h, req', hok, hrun⟩ := hrun
  obtain ⟨p, hp, hmatch, hcb⟩ := hsound _ _ tag h hok _ _ _ rfl rfl hrun
  obtain rfl : .lit "/a" = p := by simpa [tag] using hcb
  have := hmatch.length_eq
  revert this
  decide

end Soundness

/-! ## Completeness -/

section Completeness

variable {cap : Capacity} {m : UInt8} {paths : List CString}

/-- The segments that the pattern becomes when every parameter is replaced by
some text. -/
def Instance (w x : List Bytes) : Prop :=
  List.Forall₂ (fun p s =>
    isParam p = true ∧ s ≠ [] ∧ slash ∉ s ∨ isParam p = false ∧ s = p) w x

theorem Instance.matches {w x : List Bytes} (h : Instance w x) : Matches isParam w x :=
  List.Forall₂.imp (fun _ _ hps => hps.imp And.left fun hp => hp.2.symm) h

theorem Instance.slash_not_mem {w x : List Bytes} (h : Instance w x) (hw : ∀ s ∈ w, slash ∉ s) :
    ∀ s ∈ x, slash ∉ s := by
  induction h with
  | nil => simp
  | @cons p s w x hps _ ih =>
      have hs : slash ∉ s := by
        rcases hps with ⟨-, -, hs⟩ | ⟨-, rfl⟩
        · exact hs
        · exact hw s (List.mem_cons_self ..)
      exact List.forall_mem_cons.mpr ⟨hs, ih fun r hr => hw r (List.mem_cons_of_mem _ hr)⟩

/-- An instance ends in an empty segment only if the pattern does. -/
theorem Instance.getLast? {w x : List Bytes} (h : Instance w x) (hx : x.getLast? = some []) :
    w.getLast? = some [] := by
  induction h with
  | nil => simp at hx
  | @cons p s w x hps hrest ih =>
      cases hrest with
      | nil =>
          obtain rfl : s = [] := by simpa using hx
          rcases hps with ⟨-, hne, -⟩ | ⟨-, rfl⟩
          · exact absurd rfl hne
          · rfl
      | cons hps' hrest' =>
          rw [List.getLast?_cons_cons] at hx ⊢
          exact ih hx

theorem instance_self {w : List Bytes} (hw : ∀ s ∈ w, slash ∉ s) : Instance w w := by
  induction w with
  | nil => exact .nil
  | cons p w ih =>
      refine .cons ?_ (ih fun s hs => hw s (List.mem_cons_of_mem _ hs))
      by_cases hp : isParam p = true
      · refine .inl ⟨hp, ?_, hw p (List.mem_cons_self ..)⟩
        rintro rfl
        simp at hp
      · exact .inr ⟨by simpa using hp, rfl⟩

/-- One parameter may be replaced by any text. -/
theorem instance_replace {a b : List Bytes} {p q : Bytes} (hw : ∀ s ∈ a ++ p :: b, slash ∉ s)
    (hp : isParam p = true) (hq : q ≠ []) (hq' : slash ∉ q) :
    Instance (a ++ p :: b) (a ++ q :: b) := by
  refine List.rel_append (instance_self fun s hs => hw s (List.mem_append_left _ hs)) ?_
  refine .cons (.inl ⟨hp, hq, hq'⟩) (instance_self fun s hs => ?_)
  exact hw s (List.mem_append_right _ (List.mem_cons_of_mem _ hs))

theorem last_routeSegments {p : CString} (hp : Canonical p) :
    (routeSegments p).getLast? ≠ some [] := by
  have huri : uriOf (routeSegments p) = p.bytes := by
    refine eq_of_drop_one_eq rfl hp.head ?_
    rw [hp.segments_eq, uriOf, List.intercalate_splitOn]
    rfl
  rw [ne_eq, ← getLast?_uriOf (routeSegments_ne_nil p) fun s => slash_not_mem_routeSegments, huri]
  exact hp.last

/-- Whatever the callbacks are, a request for an instance of a registered path
executes the callback of a registered path that matches it. -/
def PathComplete (cap : Capacity) (m : UInt8) (paths : List CString) : Prop :=
  ∀ (δ ε : Type) (cb : CString → RouterCallback δ ε) (h : RequestHandler δ ε),
    finalize cap (table (oneMethod m cb paths)) = .ok h →
    ∀ p ∈ paths, ∀ x, Instance (routeSegments p) x →
    ∀ req, req.method = m → req.uri = uriOf x →
      ∃ q ∈ paths, Matches isParam (routeSegments q) x ∧
        ∃ req', h.handleRequest req = some (.executed (cb q) req')

/-- The request for an instance of a path is a request for its segments. -/
theorem find_uriOf {l : Layout} {p : CString} (hp : Canonical p) {x : List Bytes}
    (hx : Instance (routeSegments p) x) : l.find (uriOf x) = find none l.trie x := by
  have hfree := hx.slash_not_mem fun s => slash_not_mem_routeSegments
  have hlast : x.getLast? ≠ some [] := fun h => last_routeSegments hp (hx.getLast? h)
  have hne : x ≠ [] := by
    rintro rfl
    exact routeSegments_ne_nil p (List.length_eq_zero_iff.mp hx.matches.length_eq)
  have hroot : uriOf x ≠ [slash] := by
    intro heq
    refine hlast ((getLast?_uriOf hne hfree).mp ?_)
    rw [heq]
    rfl
  rw [Layout.find, if_neg hroot, uriSegments_uriOf hne hfree hlast]

theorem PathComplete.exists_find (hcomplete : PathComplete cap m paths)
    {h : RequestHandler Unit CString} (hok : finalize cap (table (oneMethod m tag paths)) = .ok h)
    (hcanon : ∀ p ∈ paths, Canonical p) {p : CString} (hp : p ∈ paths) {x : List Bytes}
    (hx : Instance (routeSegments p) x) :
    ∃ i w, (w, i) ∈ pathTable paths ∧ Matches isParam w x ∧
      find none (Layout.addRoutes {} (methodRoutes m paths)).trie x = some i := by
  obtain ⟨q, hq, hmatch, req', hrun⟩ :=
    hcomplete _ _ tag h hok p hp x hx { uri := uriOf x, method := m } rfl rfl
  rw [handleRequest_oneMethod hok rfl (by simp [uriOf]), find_uriOf (hcanon p hp) hx] at hrun
  cases hfind : find none (Layout.addRoutes {} (methodRoutes m paths)).trie x with
  | none => simp [hfind, notFound] at hrun
  | some i =>
      simp only [hfind] at hrun
      obtain ⟨q', hq', hcb⟩ := Option.map_eq_some_iff.mp hrun
      simp only [Outcome.executed.injEq] at hcb
      obtain rfl : q' = q := by simpa [tag] using hcb.1
      exact ⟨i, _, mem_pathTable.mpr ⟨q', hq', rfl⟩, hmatch, rfl⟩

theorem PathComplete.noOpenEnd (hnd : paths.Nodup) (hcomplete : PathComplete cap m paths)
    {h : RequestHandler Unit CString} (hok : finalize cap (table (oneMethod m tag paths)) = .ok h)
    (hcanon : ∀ p ∈ paths, Canonical p) : NoOpenEnd isParam (pathTable paths) := by
  have hopen : ¬ Layout.OpenRoute (methodRoutes m paths) := by
    rintro ⟨r, hr, hwild⟩
    obtain ⟨p, hp, rfl⟩ := List.mem_map.mp hr
    obtain ⟨i, w, hw, hmatch, hfind⟩ := hcomplete.exists_find hok hcanon
      ((mem_inByteOrder hnd).mp hp) (instance_self fun s => slash_not_mem_routeSegments)
    -- the reader stops in a node without owner, so what it finds sits higher up
    rcases PatternTrie.find_cases hfind with howner | ⟨-, ⟨hlast, -⟩ | ⟨y, s, z, hx, howner, -⟩⟩
    · obtain ⟨n, t, ht⟩ := PatternTrie.isWild_iff.mp hwild
      rw [ht] at howner
      cases howner
    · cases hlast
    · obtain ⟨r', hr', hlen⟩ := Layout.length_le_of_owner howner
      obtain ⟨q, hq, rfl⟩ := mem_pathTable.mp hw
      have hseg : r'.1 = routeSegments q := by
        rw [methodRoutes, List.getElem?_map, hq] at hr'
        rw [← Option.some.inj hr']
      have hshort := hmatch.length_eq
      rw [hx] at hshort
      simp only [List.length_append, List.length_cons, hseg] at hshort hlen
      omega
  rw [← words_methodRoutes m]
  exact (Layout.noOpenEnd_or_openRoute fun r => ne_nil_of_mem_methodRoutes).resolve_right hopen

theorem PathComplete.complete (hnd : paths.Nodup) (hcomplete : PathComplete cap m paths)
    {h : RequestHandler Unit CString} (hok : finalize cap (table (oneMethod m tag paths)) = .ok h)
    (hcanon : ∀ p ∈ paths, Canonical p) : (pathTable paths).Complete isParam := by
  have hno := hcomplete.noOpenEnd hnd hok hcanon
  have hfound : ∀ {e : List Bytes × ℕ} {x : List Bytes}, e ∈ pathTable paths → Instance e.1 x →
      ∃ i w, (w, i) ∈ pathTable paths ∧ Matches isParam w x ∧
        find none (insertAll isParam PatternTrie.empty (pathTable paths)) x = some i := by
    intro e x he hx
    obtain ⟨p, hp, hw⟩ := mem_pathTable.mp he
    rw [← trie_methodRoutes (m := m) hno]
    exact hcomplete.exists_find hok hcanon
      ((mem_inByteOrder hnd).mp (List.mem_of_getElem? hp)) (hw ▸ hx)
  refine ⟨hno, fun e he a p b hcut hp => ?_, fun e he i w hfirst hw => ?_⟩
  · -- a parameter read as a literal misses a text that no route has
    by_contra ha
    rw [Bool.not_eq_true] at ha
    obtain ⟨q, hq, hq', hmissing⟩ := exists_segment ((pathTable paths).flatMap Prod.fst)
    have hfree : ∀ s ∈ a ++ p :: b, slash ∉ s := fun s hs =>
      slash_not_mem_of_mem_pathTable he (hcut ▸ hs)
    obtain ⟨i, w, -, -, hfind⟩ := hfound he (hcut ▸ instance_replace hfree hp hq hq')
    rw [PatternTrie.find_eq_none_of_missing hno ha fun e' he' hmem =>
      hmissing (List.mem_flatMap.mpr ⟨e', he', hmem⟩)] at hfind
    cases hfind
  · -- the request for the path itself finds the first route of its place
    obtain ⟨k, w', hw', hmatch, hfind⟩ :=
      hfound he (instance_self fun s => slash_not_mem_of_mem_pathTable he)
    rw [PatternTrie.find_self hno (ne_nil_of_mem_pathTable he) hfirst] at hfind
    obtain rfl := Option.some.inj hfind
    obtain ⟨q, hq, rfl⟩ := mem_pathTable.mp hw
    obtain ⟨q', hq', rfl⟩ := mem_pathTable.mp hw'
    obtain rfl : q = q' := by simpa [hq] using hq'
    exact hmatch

theorem pathComplete_of_complete (hnd : paths.Nodup) (hcanon : ∀ p ∈ paths, Canonical p)
    (hP : (pathTable paths).Complete isParam) : PathComplete cap m paths := by
  intro δ ε cb h hok p hp x hx req hm huri
  obtain ⟨i, hi⟩ := List.mem_iff_getElem?.mp ((mem_inByteOrder hnd).mpr hp)
  have he : (routeSegments p, i) ∈ pathTable paths := mem_pathTable.mpr ⟨p, hi, rfl⟩
  obtain ⟨k, w, hw, hmatch, hfind⟩ := hP.exists_find he (routeSegments_ne_nil p) hx.matches
  obtain ⟨q, hq, rfl⟩ := mem_pathTable.mp hw
  have hrun := handleRequest_oneMethod hok hm (by rw [huri]; simp [uriOf])
  rw [huri, find_uriOf (hcanon p hp) hx, trie_methodRoutes hP.noOpenEnd, hfind] at hrun
  simp only [hq, Option.map_some] at hrun
  exact ⟨q, (mem_inByteOrder hnd).mp (List.mem_of_getElem? hq), hmatch, _, hrun⟩

/-- Every registered route is reachable exactly when the table of the paths is
complete. -/
theorem path_completeness_iff (hnd : paths.Nodup) (hcanon : ∀ p ∈ paths, Canonical p)
    {h : RequestHandler Unit CString} (hok : finalize cap (table (oneMethod m tag paths)) = .ok h) :
    PathComplete cap m paths ↔ (pathTable paths).Complete isParam :=
  ⟨fun hcomplete => hcomplete.complete hnd hok hcanon, pathComplete_of_complete hnd hcanon⟩

theorem path_completeness_sample : PathComplete sampleCapacity 1 samplePaths :=
  (path_completeness_iff (by decide) (by decide) finalize_samplePaths).mpr (by decide)

/-- Behind `/a/1` the parameter of `/a/:x` is read as a literal, so the request
for `/a/2` is not found. -/
theorem path_completeness_fails :
    [CString.lit "/a/1", .lit "/a/:x"].Nodup ∧
      ¬ PathComplete sampleCapacity 1 [.lit "/a/1", .lit "/a/:x"] := by
  refine ⟨by decide, fun hcomplete => ?_⟩
  have hrun : ∃ h, finalize sampleCapacity
      (table (oneMethod 1 tag [.lit "/a/1", .lit "/a/:x"])) = .ok h ∧
      h.handleRequest { uri := uriOf [lit "a", lit "2"], method := 1 } = some notFound :=
    ⟨_, rfl, rfl⟩
  obtain ⟨h, hok, hrun⟩ := hrun
  have hinst : Instance (routeSegments (.lit "/a/:x")) [lit "a", lit "2"] :=
    .cons (by decide) (.cons (by decide) .nil)
  obtain ⟨q, -, -, req', hexec⟩ := hcomplete _ _ tag h hok (.lit "/a/:x") (by simp) _ hinst
    { uri := uriOf [lit "a", lit "2"], method := 1 } rfl rfl
  rw [hrun] at hexec
  simp [notFound] at hexec

end Completeness

end RequestHandler

end RePlace.Http
