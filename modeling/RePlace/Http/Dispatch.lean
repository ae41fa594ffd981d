import RePlace.Http.Finalize

/-!
# What a request meets

The walk of `handle_request` reads the URI off the trie of the layout: it stops
in the node that `PatternTrie.find` describes, with the segments read by `wild`
nodes as path parameters. `handleRequest_eq` is the whole function; the loop
over the endpoints is `selectEndpoint_eq`.
-/

namespace RePlace.Http

open PatternTrie (insert sub owner isWild find captures)
open Scan (scan slice foldSegments segmentsAfter)

/-- The request with path parameters added: the name of a node is its segment
without the dynamic prefix. -/
def Request.withParams (req : Request) (cs : List (Bytes × Bytes)) : Request :=
  { req with pathParams := req.pathParams ++ cs.map fun c => ⟨c.1.drop 1, c.2⟩ }

@[simp] theorem Request.withParams_nil (req : Request) : req.withParams [] = req := by
  simp [withParams]

theorem uriSegments_ne_nil (uri : Bytes) : uriSegments uri ≠ [] := List.splitOn_ne_nil _ _

namespace RequestHandler

variable {δ ε : Type} {h : RequestHandler δ ε} {addr : Ref → Address}

/-- The response when no route matches. -/
def notFound : Outcome δ ε := .responded (stockResponse .notFound)

/-! ## The walk -/

/-- The walk stands on a node for the trie `t`; `last` is the owner of the static
node it has come from. -/
def StandsAt (h : RequestHandler δ ε) (addr : Ref → Address) (st : WalkState) (last : Option ℕ)
    (t : PatternTrie Bytes ℕ) : Prop :=
  match st.droute with
  | none => Represents h addr t (.stat st.sroute)
  | some d => Represents h addr t (.dyn d) ∧
      (h.staticRoutes[st.sroute]?.map fun sr => sr.endpointPos) = some (endpointPosOf last)

/-- Where the walk stops is what `find` finds. -/
theorem StandsAt.endpointPos {st : WalkState} {last : Option ℕ} {t : PatternTrie Bytes ℕ}
    (hst : StandsAt h addr st last t) :
    (h.staticRoutes[st.sroute]?.map fun sr => sr.endpointPos) =
      some (endpointPosOf (find last t [])) := by
  unfold StandsAt at hst
  cases hd : st.droute with
  | none =>
      simp only [hd] at hst
      cases t with
      | absent => exact hst.elim
      | lit o c =>
          obtain ⟨i, sr, hi, hsr, hpos, -⟩ := hst
          obtain rfl : st.sroute = i := by simpa using hi
          simp [hsr, hpos]
      | wild n t =>
          obtain ⟨i, dr, hi, -⟩ := hst
          simp at hi
  | some d =>
      simp only [hd] at hst
      cases t with
      | absent => exact hst.1.elim
      | lit o c =>
          obtain ⟨i, sr, hi, -⟩ := hst.1
          simp at hi
      | wild n t => exact hst.2

/-- The walk arrives at the node of an id, coming from a static node with owner
`last`. -/
theorem standsAt_arrive {t : PatternTrie Bytes ℕ} {id : UInt32}
    (ht : Represents h addr t (refOf id)) {req : Request} {sroute : ℕ} {last : Option ℕ}
    (hlast : (h.staticRoutes[sroute]?.map fun sr => sr.endpointPos) =
      some (endpointPosOf last)) :
    (isDynamic id = true ∧ getPos id < h.dynamicRoutes.length ∧
        StandsAt h addr { req := req, sroute := sroute, droute := some (getPos id) } last t) ∨
      (isDynamic id = false ∧ id.toNat < h.staticRoutes.length ∧
        StandsAt h addr { req := req, sroute := id.toNat, droute := none } last t) := by
  obtain ⟨v, hv⟩ := ht.exists_node
  rw [refOf] at ht hv
  by_cases hdyn : isDynamic id = true
  · rw [if_pos hdyn] at ht hv
    obtain ⟨dr, hdr, -⟩ := Option.map_eq_some_iff.mp hv
    exact .inl ⟨hdyn, (List.getElem?_eq_some_iff.mp hdr).1, ht, hlast⟩
  · rw [if_neg hdyn] at ht hv
    obtain ⟨sr, hsr, -⟩ := Option.map_eq_some_iff.mp hv
    exact .inr ⟨by simpa using hdyn, (List.getElem?_eq_some_iff.mp hsr).1, ht⟩

/-- One segment of the walk: it falls off the trie, or stands one node further. -/
theorem walkSegment_spec {st : WalkState} {last : Option ℕ} {t : PatternTrie Bytes ℕ}
    (hst : StandsAt h addr st last t) (s : Bytes) :
    sub t [s] = .absent ∧ h.walkSegment st s = .error (some notFound) ∨
      ∃ st' last', h.walkSegment st s = .ok st' ∧ StandsAt h addr st' last' (sub t [s]) ∧
        (∀ x, find last t (s :: x) = find last' (sub t [s]) x) ∧
        ∀ x, st'.req.withParams (captures (sub t [s]) x) =
          st.req.withParams (captures t (s :: x)) := by
  obtain ⟨req, sroute, droute⟩ := st
  cases droute with
  | none =>
      cases t with
      | absent => exact hst.elim
      | wild n t =>
          obtain ⟨i, dr, hi, -⟩ := hst
          simp at hi
      | lit o ch =>
          obtain ⟨i, sr, hi, hsr, hpos, hch⟩ := hst
          obtain rfl : sroute = i := by simpa using hi
          have hs := hch s
          cases hl : sr.map.lookup s with
          | none =>
              simp only [hl] at hs
              exact .inl ⟨by simpa using hs, by simp [walkSegment, hsr, hl, notFound]⟩
          | some id =>
              simp only [hl] at hs
              have hlast : (h.staticRoutes[sroute]?.map fun sr => sr.endpointPos) =
                  some (endpointPosOf o) := by simp [hsr, hpos]
              refine .inr ?_
              rcases @standsAt_arrive _ _ _ _ _ _ hs.2 req _ _ hlast with
                ⟨hdyn, hlt, hat⟩ | ⟨hdyn, hlt, hat⟩
              all_goals
                rw [← PatternTrie.sub_nil (ch s), ← PatternTrie.sub_lit_cons o ch] at hat
                exact ⟨_, o, by simp [walkSegment, hsr, hl, hdyn, hlt], hat,
                  fun x => by simp, fun x => by simp [captures]⟩
  | some d =>
      cases t with
      | absent => exact hst.1.elim
      | lit o ch =>
          obtain ⟨i, sr, hi, -⟩ := hst.1
          simp at hi
      | wild n t =>
          obtain ⟨⟨i, dr, hi, hdr, hname, -, -, hsub⟩, hlast⟩ := hst
          obtain rfl : d = i := by simpa using hi
          refine .inr ?_
          rcases @standsAt_arrive _ _ _ _ _ _ hsub
              { req with pathParams := req.pathParams ++ [⟨dr.name, s⟩] } _ _ hlast with
            ⟨hdyn, hlt, hat⟩ | ⟨hdyn, hlt, hat⟩
          all_goals
            rw [← PatternTrie.sub_nil t, ← PatternTrie.sub_wild_cons n s t] at hat
            exact ⟨_, last, by simp [walkSegment, hdr, hdyn, hlt], hat,
              fun x => by simp, fun x => by simp [captures, Request.withParams, hname]⟩

/-- The end of the walk, from the static node reached last. -/
def arrive (h : RequestHandler δ ε) (st : WalkState) : Option (Outcome δ ε) := do
  let sroute ← h.staticRoutes[st.sroute]?
  if sroute.endpointPos = -1 then some notFound
  else h.selectEndpoint sroute.endpointPos.toNat st.req

/-- What a walk that finds the owner `o` ends with. -/
def dispatch (h : RequestHandler δ ε) (o : Option ℕ) (req : Request) : Option (Outcome δ ε) :=
  match o with
  | none => some notFound
  | some i => h.selectEndpoint i req

theorem arrive_eq {st : WalkState} {o : Option ℕ}
    (hpos : (h.staticRoutes[st.sroute]?.map fun sr => sr.endpointPos) = some (endpointPosOf o)) :
    h.arrive st = h.dispatch o st.req := by
  obtain ⟨sr, hsr, hpos⟩ := Option.map_eq_some_iff.mp hpos
  cases o with
  | none => simp [arrive, hsr, hpos, endpointPosOf, dispatch]
  | some i => simp [arrive, hsr, hpos, endpointPosOf, dispatch]

/-- The whole walk. -/
theorem walk_spec {st : WalkState} {last : Option ℕ} {t : PatternTrie Bytes ℕ}
    (hst : StandsAt h addr st last t) (x : List Bytes) :
    (match foldSegments (fun st s _ => h.walkSegment st s) st x with
      | .error outcome => outcome
      | .ok st' => h.arrive st') =
      h.dispatch (find last t x) (st.req.withParams (captures t x)) := by
  induction x generalizing st last t with
  | nil =>
      have hcap : captures t [] = [] := by cases t <;> rfl
      rw [Scan.foldSegments_nil, hcap, Request.withParams_nil]
      exact arrive_eq hst.endpointPos
  | cons s x ih =>
      rw [Scan.foldSegments_cons]
      rcases walkSegment_spec hst s with ⟨habsent, herr⟩ | ⟨st', last', hok, hst', hfind, hreq⟩
      · have hfind : find last t (s :: x) = none := by
          refine PatternTrie.find_of_absent last ?_
          rw [← List.singleton_append, PatternTrie.sub_append, habsent, PatternTrie.sub_absent]
        simp [herr, hfind, dispatch, bind, Except.bind]
      · rw [hok, hfind x, ← hreq x, ← ih hst']
        rfl

/-! ## The whole function -/

theorem dropTrailingSlash_eq_take (s : Bytes) :
    dropTrailingSlash s = s.take (s.length - if s.getLast? = some slash then 1 else 0) := by
  by_cases hl : s.getLast? = some slash
  · simp [dropTrailingSlash, hl, List.dropLast_eq_take]
  · simp [dropTrailingSlash, hl]

theorem foldSegments_walkPiece (uri : Bytes) {size : ℕ} (hpos : 1 ≤ size)
    (hsize : size ≤ uri.length) (st : WalkState) :
    scan slash uri size (h.walkPiece uri) size 1 1 st =
      foldSegments (fun st s _ => h.walkSegment st s) st
        (((uri.take size).drop 1).splitOn slash) := by
  have hbody : ∀ (st : WalkState) start stop, start ≤ stop → stop ≤ size →
      h.walkPiece uri st start stop = (fun st s _ => h.walkSegment st s) st
        (slice uri start stop) (segmentsAfter slash uri size stop) := by
    intro st start stop hle hstop
    have : stop ≤ uri.length := hstop.trans hsize
    simp [walkPiece, substring, hle, this]
  exact Scan.scan_eq_foldSegments hsize hbody 1 hpos st

/-- A request that takes the segments of its URI one after the other. -/
def onePass (h : RequestHandler δ ε) (req : Request) : Option (Outcome δ ε) :=
  match foldSegments (fun st s _ => h.walkSegment st s)
      { req := req, sroute := 0, droute := none } (uriSegments req.uri) with
  | .error outcome => outcome
  | .ok st => h.arrive st

/-- `handle_request` is one pass over its URI. -/
theorem handleRequest_eq_onePass (h : RequestHandler δ ε) {req : Request} (hne : req.uri ≠ [])
    (hroot : req.uri ≠ [slash]) : h.handleRequest req = h.onePass req := by
  have hlit : ¬ req.uri = Bytes.lit "/" := hroot
  obtain ⟨last, hlast⟩ : ∃ last, req.uri.getLast? = some last := by
    rwa [← Option.isSome_iff_exists, List.getLast?_isSome]
  have hpos : 1 ≤ req.uri.length - if last = slash then 1 else 0 := by
    have hlen := List.length_pos_iff.mpr hne
    split
    · rename_i hslash
      by_contra hshort
      obtain ⟨a, ha⟩ := List.length_eq_one_iff.mp (show req.uri.length = 1 by omega)
      rw [ha, List.getLast?_singleton, Option.some.injEq] at hlast
      exact hroot (by rw [ha, hlast, hslash])
    · exact hlen
  rw [handleRequest, if_neg hlit, hlast, onePass, uriSegments, dropTrailingSlash_eq_take, hlast]
  simp only [Option.bind_eq_bind, Option.bind_some, Option.some.injEq]
  rw [foldSegments_walkPiece _ hpos (Nat.sub_le _ _)]
  rfl

/-- What `handle_request` does with a request. -/
theorem handleRequest_eq {es : List (RouterKey × RouterCallback δ ε)} (hf : Finalized h es)
    {req : Request} (hne : req.uri ≠ []) :
    h.handleRequest req = h.dispatch ((Layout.ofKeys (es.map Prod.fst)).find req.uri)
      (req.withParams (captures (Layout.ofKeys (es.map Prod.fst)).trie
        (uriSegments req.uri))) := by
  obtain ⟨addr, hrep⟩ := hf.represents
  have hst : StandsAt h addr { req := req, sroute := 0, droute := none } none
      (Layout.ofKeys (es.map Prod.fst)).trie := hrep
  by_cases hone : req.uri = [slash]
  · -- the root has no owner
    have hpos := hst.endpointPos
    rw [PatternTrie.find_none_nil, Layout.owner_ofKeys] at hpos
    obtain ⟨sr, hsr, hpos⟩ := Option.map_eq_some_iff.mp hpos
    have hlit : Bytes.lit "/" = [slash] := rfl
    have hneg : sr.endpointPos = -1 := hpos
    simp [handleRequest, hlit, hone, hsr, hneg, Layout.find, dispatch, notFound]
  · rw [handleRequest_eq_onePass h hne hone, Layout.find, if_neg hone, ← walk_spec hst]
    rfl

end RequestHandler

/-! ## Methods and entries -/

theorem toUInt32_eq_ofNat (b : UInt8) : b.toUInt32 = UInt32.ofNat b.toNat := by
  have := b.toNat_lt
  rw [← UInt32.toNat_inj, UInt8.toNat_toUInt32, toNat_staticId (by omega)]

theorem ofInt_toNat (b : UInt8) : UInt32.ofInt b.toNat = b.toUInt32 := by
  have hlt := b.toNat_lt
  have hmod : ((b.toNat : ℤ) % 2 ^ 32).toNat = b.toNat := by omega
  rw [UInt32.ofInt, hmod, toUInt32_eq_ofNat]

/-- A method that fits in a byte is that byte. -/
theorem exists_byte {m : ℤ} (h₀ : 0 ≤ m) (h₁ : m < 256) : ∃ b : UInt8, m = b.toNat := by
  refine ⟨UInt8.ofNat m.toNat, ?_⟩
  rw [UInt8.toNat_ofNat_of_lt' (by simp only [UInt8.size]; omega)]
  omega

theorem toNat_entryOf_none (b : UInt8) : (entryOf none b.toUInt32).toNat = 2 ^ 31 + b.toNat := by
  have := b.toNat_lt
  rw [entryOf, if_pos rfl, UInt32.or_comm, toUInt32_eq_ofNat, toNat_dynamicId (by omega)]

/-- The method of an entry, marked or not. -/
theorem getMethod_entryOf (o : Option ℕ) (b : UInt8) : getMethod (entryOf o b.toUInt32) = b := by
  cases o with
  | none =>
      have := b.toNat_lt
      rw [getMethod, ← UInt8.toNat_inj, UInt32.toNat_toUInt8, toNat_entryOf_none]
      omega
  | some i => simp [entryOf, getMethod]

/-- A marked entry is equal to no method. -/
theorem entryOf_eq_iff (o : Option ℕ) (b c : UInt8) :
    entryOf o b.toUInt32 = c.toUInt32 ↔ o ≠ none ∧ b = c := by
  cases o with
  | none =>
      have hne : entryOf none b.toUInt32 ≠ c.toUInt32 := by
        intro heq
        have hnat := congrArg UInt32.toNat heq
        rw [toNat_entryOf_none, UInt8.toNat_toUInt32] at hnat
        have := c.toNat_lt
        omega
      simp [hne]
  | some i => simp [entryOf, UInt8.toUInt32_inj]

/-! ## The endpoints of a node -/

namespace RequestHandler

variable {δ ε : Type} {h : RequestHandler δ ε}

/-- The loop over the endpoints stops at the first entry equal to the method: the
test for a new group never succeeds, because it reads the position. -/
theorem scanEndpoints_eq (hsmall : h.endpoints.length ≤ 2 ^ 31) (req : Request) {n start : ℕ}
    (hn : h.endpoints.length ≤ start + n) :
    h.scanEndpoints req n start =
      match (h.endpoints.drop start).findIdx? (· = req.method.toUInt32) with
      | some k => h.execute (start + k) req
      | none => some notFound := by
  induction n generalizing start with
  | zero =>
      have hnil : h.endpoints.drop start = [] := List.drop_eq_nil_of_le hn
      simp [scanEndpoints, hnil, notFound]
  | succ n ih =>
      by_cases hlt : start < h.endpoints.length
      · have hold : isNewEndpoint (UInt32.ofNat start) = false := by
          have := (isDynamic_iff (UInt32.ofNat start)).not
          rw [toNat_staticId (by omega), Bool.not_eq_true] at this
          exact this.mpr (by omega)
        rw [List.drop_eq_getElem_cons hlt, List.findIdx?_cons]
        by_cases heq : h.endpoints[start] = req.method.toUInt32
        · simp [scanEndpoints, hlt, hold, heq, getMethod]
        · have hstep : h.scanEndpoints req (n + 1) start = h.scanEndpoints req n (start + 1) := by
            simp [scanEndpoints, hlt, hold, heq, getMethod]
          rw [hstep, ih (by omega)]
          simp only [heq, decide_false, Bool.false_eq_true, if_false]
          cases (h.endpoints.drop (start + 1)).findIdx? (· = req.method.toUInt32) with
          | none => rfl
          | some k => simp only [Option.map_some, Nat.add_right_comm start 1 k, Nat.add_assoc]
      · have hnil : h.endpoints.drop start = [] := List.drop_eq_nil_of_le (by omega)
        simp [scanEndpoints, hlt, hnil, notFound]

theorem selectEndpoint_eq (hsmall : h.endpoints.length ≤ 2 ^ 31) (req : Request) {pos : ℕ}
    {endpoint : UInt32} (hpos : h.endpoints[pos]? = some endpoint) :
    h.selectEndpoint pos req =
      if getMethod endpoint = req.method then h.execute pos req
      else match (h.endpoints.drop (pos + 1)).findIdx? (· = req.method.toUInt32) with
        | some k => h.execute (pos + 1 + k) req
        | none => some notFound := by
  have hscan := scanEndpoints_eq hsmall req
    (show h.endpoints.length ≤ pos + 1 + (h.endpoints.length - pos) by omega)
  rw [← hscan, selectEndpoint, hpos]
  rfl

theorem execute_ne_notFound (pos : ℕ) (req : Request) : h.execute pos req ≠ some notFound := by
  intro heq
  obtain ⟨callback, -, hcb⟩ := Option.map_eq_some_iff.mp heq
  simp [notFound] at hcb

section Select

variable {req : Request} {pos : ℕ} {endpoint : UInt32}

theorem selectEndpoint_head (hsmall : h.endpoints.length ≤ 2 ^ 31)
    (hpos : h.endpoints[pos]? = some endpoint) (hm : getMethod endpoint = req.method) :
    h.selectEndpoint pos req = h.execute pos req := by
  rw [selectEndpoint_eq hsmall req hpos, if_pos hm]

/-- Behind the first entry of a node, the first entry equal to the method counts. -/
theorem selectEndpoint_found (hsmall : h.endpoints.length ≤ 2 ^ 31)
    (hpos : h.endpoints[pos]? = some endpoint) (hm : getMethod endpoint ≠ req.method) {k : ℕ}
    (hk : pos < k) (hfound : h.endpoints[k]? = some req.method.toUInt32)
    (hfirst : ∀ j, pos < j → j < k → h.endpoints[j]? ≠ some req.method.toUInt32) :
    h.selectEndpoint pos req = h.execute k req := by
  obtain ⟨hlt, hget⟩ := List.getElem?_eq_some_iff.mp hfound
  have hidx : (h.endpoints.drop (pos + 1)).findIdx? (· = req.method.toUInt32) =
      some (k - (pos + 1)) := by
    rw [List.findIdx?_eq_some_iff_getElem]
    refine ⟨by rw [List.length_drop]; omega, ?_, fun j hj => ?_⟩
    · have hplace : pos + 1 + (k - (pos + 1)) = k := by omega
      simp [hplace, hget]
    · have := hfirst (pos + 1 + j) (by omega) (by omega)
      rw [List.getElem?_eq_getElem (by omega)] at this
      simpa using this
  rw [selectEndpoint_eq hsmall req hpos, if_neg hm, hidx]
  exact congrArg (h.execute · req) (by omega)

/-- Nothing is found exactly when no entry behind the first one is the method. -/
theorem selectEndpoint_eq_notFound_iff (hsmall : h.endpoints.length ≤ 2 ^ 31)
    (hpos : h.endpoints[pos]? = some endpoint) (hm : getMethod endpoint ≠ req.method) :
    h.selectEndpoint pos req = some notFound ↔
      ∀ j, pos < j → h.endpoints[j]? ≠ some req.method.toUInt32 := by
  rw [selectEndpoint_eq hsmall req hpos, if_neg hm]
  cases hidx : (h.endpoints.drop (pos + 1)).findIdx? (· = req.method.toUInt32) with
  | none =>
      simp only [true_iff]
      intro j hj hfound
      rw [List.findIdx?_eq_none_iff] at hidx
      have hmem : req.method.toUInt32 ∈ h.endpoints.drop (pos + 1) := by
        refine List.mem_iff_getElem?.mpr ⟨j - (pos + 1), ?_⟩
        rw [List.getElem?_drop, ← hfound]
        exact congrArg (h.endpoints[·]?) (by omega)
      simpa using hidx _ hmem
  | some k =>
      simp only [execute_ne_notFound, false_iff, not_forall]
      obtain ⟨hlt, hget, -⟩ := List.findIdx?_eq_some_iff_getElem.mp hidx
      rw [List.length_drop] at hlt
      refine ⟨pos + 1 + k, by omega, ?_⟩
      rw [List.getElem?_eq_getElem (by omega)]
      simpa using hget

end Select

end RequestHandler

end RePlace.Http
