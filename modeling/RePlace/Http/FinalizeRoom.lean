import RePlace.Data.Fallible
import RePlace.Http.Integrity

/-!
# When `finalize` gets through

On routes with a path `finalize` stays inside its vectors, and it fails only when a
vector cannot grow: with one node for the root and, for every route, room for its
segments and one node more, it has a result. `MidRoute` is the invariant again: it
says that every node that is read is there, and that a parameter which names a node
is not empty.
-/

namespace RePlace.Http.RequestHandler

open Fallible (Through)
open PatternTrie (startsParam)
open Scan (foldSegments)

variable {δ ε : Type} {cap : Capacity} {h h' : RequestHandler δ ε} {P : Set ℕ}

/-- `BAD_ALLOCATION`. -/
abbrev noMemory : Abort := .error .badAllocation

/-- The vectors hold at most these numbers of nodes and of endpoints. -/
structure Holds (h : RequestHandler δ ε) (n m : ℕ) : Prop where
  staticRoutes : h.staticRoutes.length ≤ n
  dynamicRoutes : h.dynamicRoutes.length ≤ n
  endpoints : h.endpoints.length ≤ m
  callbacks : h.callbacks.length ≤ m

theorem Holds.mono {n m n' m' : ℕ} (hf : Holds h n m) (hn : n ≤ n') (hm : m ≤ m') :
    Holds h n' m' :=
  ⟨hf.staticRoutes.trans hn, hf.dynamicRoutes.trans hn, hf.endpoints.trans hm,
    hf.callbacks.trans hm⟩

/-! ## One allocation -/

variable {Q : Prop}

theorem through_push {α : Type} {xs : List α} (hroom : Q → xs.length < cap.maxSize) (x : α) :
    Through noMemory Q (push cap xs x) := by
  unfold push
  split
  next => exact .ok _
  next hfull => exact .inr ⟨rfl, fun hQ => hfull (hroom hQ)⟩

theorem through_createStaticRoute (hroom : Q → h.staticRoutes.length < cap.maxSize) :
    Through noMemory Q (createStaticRoute cap h) :=
  (through_push hroom _).bind fun _ _ => .ok _

theorem through_createDynamicRoute (hroom : Q → h.dynamicRoutes.length < cap.maxSize) :
    Through noMemory Q (createDynamicRoute cap h) :=
  (through_push hroom _).bind fun _ _ => .ok _

/-- An element that is there is read. -/
theorem through_at? {α : Type} {xs : List α} {i : ℕ} (hi : i < xs.length) :
    Through noMemory Q (at? xs i) :=
  .inl ⟨xs[i], at?_ok.mpr (List.getElem?_eq_getElem hi)⟩

/-- The end of a step reads the node it goes to. -/
theorem through_arrive {id : UInt32} (hid : h.ValidId id) {α : Type} (a b : α) :
    Through noMemory Q (if isDynamic id = true then do
        let _ ← at? h.dynamicRoutes (getPos id)
        pure a
      else do
        let _ ← at? h.staticRoutes id.toNat
        pure b) := by
  by_cases hdyn : isDynamic id = true
  · rw [if_pos hdyn]
    exact (through_at? (hid.dynamic hdyn)).bind fun _ _ => .ok _
  · rw [if_neg hdyn]
    exact (through_at? (hid.static (by simpa using hdyn))).bind fun _ _ => .ok _

/-! ## One segment -/

/-- A segment read from a static node. -/
theorem MidRoute.through_static {c : Cursor} {s : Bytes} {b param : Bool}
    (hm : MidRoute h c P param) (hc : c.dptr = none)
    (hstat : Q → h.staticRoutes.length < cap.maxSize)
    (hdyn : Q → h.dynamicRoutes.length < cap.maxSize) :
    Through noMemory Q (insertSegment cap h c s b) := by
  obtain ⟨sr, hsr⟩ := hm.exists_static hc
  have hlt := (List.getElem?_eq_some_iff.mp hsr).1
  cases hl : sr.map.lookup s with
  | some id =>
      obtain ⟨l₁, l₂, hmap, -⟩ := List.lookup_eq_some_iff.mp hl
      have hid : h.ValidId id := hm.sound.maps _ sr hsr (s, id) (by simp [hmap])
      rw [insertSegment_follow_static hc hsr hl (validId_iff.mp hid)]
      exact .ok _
  | none =>
      simp only [insertSegment, hc]
      refine .bind (through_at? hlt) fun sr' hsr' => ?_
      obtain rfl : sr' = sr := Option.some.inj ((at?_ok.mp hsr').symm.trans hsr)
      simp only [hl]
      cases b with
      | true =>
          refine .bind (through_createDynamicRoute hdyn) fun a ha => ?_
          obtain ⟨id, h₁⟩ := a
          obtain ⟨hroom, rfl, rfl⟩ := createDynamicRoute_ok.mp ha
          have hid : h.addDynamic.ValidId (0x80000000 ||| UInt32.ofNat h.dynamicRoutes.length) :=
            validId_dynamic (by simp [addDynamic]) (hroom.trans cap.lt_signBit)
          simp only [pure_bind]
          exact through_arrive (h := h.addDynamic.setStatic c.sptr _)
            (hid.mono (by simp [setStatic]) le_rfl) _ _
      | false =>
          have hprev := (hm.consistent hc).prev_stat hc
          refine .bind (through_createStaticRoute hstat) fun a ha => ?_
          obtain ⟨id, h₁⟩ := a
          obtain ⟨hroom, rfl, rfl⟩ := createStaticRoute_ok.mp ha
          refine .bind (through_at? ?_) fun sr'' _ => ?_
          · rw [hprev]
            simpa [addStatic] using hlt.trans (Nat.lt_succ_self _)
          · have hid : h.addStatic.ValidId (UInt32.ofNat h.staticRoutes.length) :=
              validId_static (by simp [addStatic]) (hroom.trans cap.lt_signBit)
            simp only [pure_bind]
            exact through_arrive (h := h.addStatic.setStatic c.prevId.toNat _)
              (hid.mono (by simp [setStatic]) le_rfl) _ _

/-- What a dynamic node that is read is: it waits for its parameter, or it has a
successor. -/
theorem MidRoute.dynamic_cases {c : Cursor} {s : Bytes} {d : ℕ} {param : Bool}
    (hm : MidRoute h c P param) (hc : c.dptr = some d) (hparam : param = true → isParam s = true) :
    (h.dynamicRoutes[d]? = some {} ∧ c.Consistent ∧ s ≠ []) ∨
      ∃ dr, h.dynamicRoutes[d]? = some dr ∧ dr.idPtr ≠ unset ∧ h.ValidId dr.idPtr := by
  obtain ⟨dr, hdr⟩ := hm.exists_dynamic hc
  by_cases hd : d ∈ P
  · obtain ⟨-, hcons, hp⟩ := hm.pending d hd
    obtain rfl := hm.sound.fresh d dr hdr hd
    exact .inl ⟨hdr, hcons, isParam_ne_nil (hparam hp)⟩
  · exact .inr ⟨dr, hdr, hm.sound.idPtrs d dr hdr hd⟩

/-- A segment read from a dynamic node. -/
theorem MidRoute.through_dynamic {c : Cursor} {s : Bytes} {d : ℕ} {b param : Bool}
    (hm : MidRoute h c P param) (hc : c.dptr = some d) (hparam : param = true → isParam s = true)
    (hstat : Q → h.staticRoutes.length < cap.maxSize)
    (hdyn : Q → h.dynamicRoutes.length < cap.maxSize) :
    Through noMemory Q (insertSegment cap h c s b) := by
  rcases hm.dynamic_cases hc hparam with ⟨hdr, hcons, hne⟩ | ⟨dr, hdr, hset, hid⟩
  · have hlt := (List.getElem?_eq_some_iff.mp hdr).1
    simp only [insertSegment, hc]
    refine .bind (through_at? hlt) fun dr hdr' => ?_
    obtain rfl : dr = {} := Option.some.inj ((at?_ok.mp hdr').symm.trans hdr)
    simp only [ne_eq, not_true_eq_false, if_false, if_true, substring_drop_one hne]
    refine .bind (through_createStaticRoute hstat) fun a ha => ?_
    obtain ⟨id, h₁⟩ := a
    obtain ⟨hroom, rfl, rfl⟩ := createStaticRoute_ok.mp ha
    simp only [pure_bind]
    cases b with
    | true =>
        refine .bind (through_createDynamicRoute (by simpa [setDynamic, addStatic] using hdyn))
          fun a ha => ?_
        obtain ⟨id', h₂⟩ := a
        obtain ⟨-, -, rfl⟩ := createDynamicRoute_ok.mp ha
        refine .bind (through_at? ?_) fun _ _ => .ok _
        rw [hcons.prev_dyn hc]
        simpa [addDynamic, setDynamic, addStatic] using hlt.trans (Nat.lt_succ_self _)
    | false =>
        refine .bind (through_at? (by simpa [setDynamic, addStatic] using hlt)) fun dr' hdr' => ?_
        obtain rfl : dr' = { name := s.drop 1, idPtr := UInt32.ofNat h.staticRoutes.length } := by
          have hget := at?_ok.mp hdr'
          rw [setDynamic, List.getElem?_set_self (by simpa [addStatic] using hlt)] at hget
          exact (Option.some.inj hget).symm
        refine .bind (through_at? ?_) fun _ _ => .ok _
        rw [toNat_staticId (hroom.trans cap.lt_signBit)]
        simp [setDynamic, addStatic]
  · rw [insertSegment_follow_dynamic hc hdr hset (validId_iff.mp hid)]
    exact .ok _

/-- One segment of a route gets through. -/
theorem MidRoute.through {c : Cursor} {s : Bytes} {b param : Bool} (hm : MidRoute h c P param)
    (hparam : param = true → isParam s = true)
    (hstat : Q → h.staticRoutes.length < cap.maxSize)
    (hdyn : Q → h.dynamicRoutes.length < cap.maxSize) :
    Through noMemory Q (insertSegment cap h c s b) := by
  cases hc : c.dptr with
  | none => exact hm.through_static hc hstat hdyn
  | some d => exact hm.through_dynamic hc hparam hstat hdyn

/-- One segment adds at most one node to each of the vectors. -/
theorem MidRoute.fits {c c' : Cursor} {s : Bytes} {b param : Bool} {n m : ℕ}
    (hm : MidRoute h c P param) (hparam : param = true → isParam s = true) (hf : Holds h n m)
    (hok : insertSegment cap h c s b = .ok (h', c')) : Holds h' (n + 1) m := by
  obtain ⟨hs, hd, he, hcb⟩ := hf
  have hkept : Holds h (n + 1) m := Holds.mono ⟨hs, hd, he, hcb⟩ (Nat.le_succ n) le_rfl
  cases hc : c.dptr with
  | none =>
      obtain ⟨sr, hsr⟩ := hm.exists_static hc
      cases hl : sr.map.lookup s with
      | some id =>
          obtain ⟨l₁, l₂, hmap, -⟩ := List.lookup_eq_some_iff.mp hl
          have hid : h.ValidId id := hm.sound.maps _ sr hsr (s, id) (by simp [hmap])
          rw [insertSegment_follow_static hc hsr hl (validId_iff.mp hid)] at hok
          obtain ⟨rfl, rfl⟩ := Prod.mk.inj (Except.ok.inj hok)
          exact hkept
      | none =>
          cases b with
          | true =>
              obtain ⟨-, rfl, rfl⟩ := insertSegment_new_dynamic hc hsr hl hok
              constructor <;> simp [setStatic, addDynamic] <;> omega
          | false =>
              obtain ⟨-, rfl, rfl⟩ := insertSegment_new_static hc (hm.consistent hc) hsr hl hok
              constructor <;> simp [setStatic, addStatic] <;> omega
  | some d =>
      rcases hm.dynamic_cases hc hparam with ⟨hdr, hcons, hne⟩ | ⟨dr, hdr, hset, hid⟩
      · cases b with
        | true =>
            obtain ⟨-, rfl, rfl⟩ := insertSegment_name_dynamic hc hcons hdr hne hok
            constructor <;> simp [setDynamic, addStatic, addDynamic] <;> omega
        | false =>
            obtain ⟨-, rfl, rfl⟩ := insertSegment_name_static hc hdr hne hok
            constructor <;> simp [setDynamic, addStatic] <;> omega
      · rw [insertSegment_follow_dynamic hc hdr hset (validId_iff.mp hid)] at hok
        obtain ⟨rfl, rfl⟩ := Prod.mk.inj (Except.ok.inj hok)
        exact hkept

/-! ## One route -/

/-- The start of a route. -/
theorem midRoute_start {d : Option ℕ} (hs : h.Sound ∅)
    (hd : ∀ i, d = some i → i < h.dynamicRoutes.length) (x : List Bytes) :
    MidRoute h (start d) ∅ (startsParam isParam x) where
  sound := hs
  node := by
    cases d with
    | none => simpa [start, Cursor.ref, node] using hs.root
    | some i => simpa [start, Cursor.ref, node] using hd i rfl
  pending := by simp
  consistent hnone := by
    obtain rfl : d = none := hnone
    rfl

/-- The segments of a route get through when there is room for a node for each. -/
theorem MidRoute.through_segments {x : List Bytes} {c : Cursor} {n m : ℕ}
    (hm : MidRoute h c P (startsParam isParam x)) (hf : Holds h n m)
    (hroom : Q → n + x.length ≤ cap.maxSize) :
    Through noMemory Q (foldSegments (insertNext cap) (h, c) x) := by
  induction x generalizing h c P n with
  | nil => exact .ok _
  | cons s x ih =>
      have hparam : startsParam isParam (s :: x) = true → isParam s = true := fun hp => by
        simpa [startsParam] using hp
      have hlt : Q → n < cap.maxSize := fun hQ => by
        have := hroom hQ
        rw [List.length_cons] at this
        omega
      rw [Scan.foldSegments_cons]
      refine .bind (hm.through hparam (fun hQ => hf.staticRoutes.trans_lt (hlt hQ))
        fun hQ => hf.dynamicRoutes.trans_lt (hlt hQ)) fun a ha => ?_
      obtain ⟨h₁, c₁⟩ := a
      obtain ⟨P', hm'⟩ := hm.step hparam ha
      refine ih hm' (hm.fits hparam hf ha) fun hQ => ?_
      have := hroom hQ
      rw [List.length_cons] at this
      omega

theorem MidRoute.fits_segments {x : List Bytes} {c c' : Cursor} {n m : ℕ}
    (hm : MidRoute h c P (startsParam isParam x)) (hf : Holds h n m)
    (hok : foldSegments (insertNext cap) (h, c) x = .ok (h', c')) :
    Holds h' (n + x.length) m := by
  induction x generalizing h c P n with
  | nil =>
      obtain ⟨rfl, rfl⟩ := Prod.mk.inj (Except.ok.inj hok)
      exact hf
  | cons s x ih =>
      have hparam : startsParam isParam (s :: x) = true → isParam s = true := fun hp => by
        simpa [startsParam] using hp
      rw [Scan.foldSegments_cons, bind_eq_ok] at hok
      obtain ⟨⟨h₁, c₁⟩, hstep, hrest⟩ := hok
      obtain ⟨P', hm'⟩ := hm.step hparam hstep
      have := ih hm' (hm.fits hparam hf hstep) hrest
      rwa [Nat.add_assoc, Nat.add_comm 1, ← List.length_cons] at this

theorem through_addEndpoint {i : ℕ} (hi : i < h.staticRoutes.length)
    (hend : Q → h.endpoints.length < cap.maxSize) (hcb : Q → h.callbacks.length < cap.maxSize)
    (method : UInt32) (callback : RouterCallback δ ε) :
    Through noMemory Q (addEndpoint cap h i method callback) := by
  refine .bind (through_at? hi) fun sr _ => ?_
  split
  · refine .bind (.bind (through_push hend _) fun es _ => ?_) fun _ _ => .ok _
    exact (through_push hcb _).bind fun _ _ => .ok _
  · exact .bind (through_push hend _) fun es _ => (through_push hcb _).bind fun _ _ => .ok _

/-- The end of a route gets through when there is room for a node and an endpoint. -/
theorem MidRoute.through_finish {c : Cursor} {method : UInt32} {callback : RouterCallback δ ε}
    {n m : ℕ} (hm : MidRoute h c ∅ false) (hf : Holds h n m) (hn : Q → n < cap.maxSize)
    (hmax : Q → m < cap.maxSize) : Through noMemory Q (finishRoute cap h c method callback) := by
  have hend : Q → h.endpoints.length < cap.maxSize := fun hQ => hf.endpoints.trans_lt (hmax hQ)
  have hcb : Q → h.callbacks.length < cap.maxSize := fun hQ => hf.callbacks.trans_lt (hmax hQ)
  cases hc : c.dptr with
  | none =>
      obtain ⟨sr, hsr⟩ := hm.exists_static hc
      have hlt := (List.getElem?_eq_some_iff.mp hsr).1
      simp only [finishRoute, hc, pure_bind]
      exact (through_addEndpoint hlt hend hcb method callback).bind fun _ _ => .ok _
  | some d =>
      obtain ⟨dr, hdr⟩ := hm.exists_dynamic hc
      have hlt := (List.getElem?_eq_some_iff.mp hdr).1
      simp only [finishRoute, hc]
      refine .bind (through_createStaticRoute fun hQ => hf.staticRoutes.trans_lt (hn hQ))
        fun a ha => ?_
      obtain ⟨id, h₁⟩ := a
      obtain ⟨hroom, rfl, rfl⟩ := createStaticRoute_ok.mp ha
      refine .bind (through_at? (by simpa [addStatic] using hlt)) fun dr' _ => ?_
      simp only [pure_bind]
      have hnew : (UInt32.ofNat h.staticRoutes.length).toNat <
          (h.addStatic.setDynamic d { dr' with
            idPtr := UInt32.ofNat h.staticRoutes.length }).staticRoutes.length := by
        rw [toNat_staticId (hroom.trans cap.lt_signBit)]
        simp [setDynamic, addStatic]
      exact (through_addEndpoint hnew hend hcb method callback).bind fun _ _ => .ok _

theorem MidRoute.fits_finish {c : Cursor} {d : Option ℕ} {method : UInt32}
    {callback : RouterCallback δ ε} {n m : ℕ} (hm : MidRoute h c ∅ false) (hf : Holds h n m)
    (hok : finishRoute cap h c method callback = .ok (h', d)) : Holds h' (n + 1) (m + 1) := by
  obtain ⟨hs, hd, he, hcb⟩ := hf
  cases hc : c.dptr with
  | none =>
      obtain ⟨rfl, sr, hsr, -, rfl⟩ := finishRoute_static hc hok
      constructor <;> simp [length_staticRoutes_withEndpoint, dynamicRoutes_withEndpoint,
        endpoints_withEndpoint, callbacks_withEndpoint] <;> omega
  | some i =>
      obtain ⟨dr, hdr⟩ := hm.exists_dynamic hc
      obtain ⟨rfl, -, -, rfl⟩ := finishRoute_dynamic hc hdr hok
      constructor <;> simp [length_staticRoutes_withEndpoint, dynamicRoutes_withEndpoint,
        endpoints_withEndpoint, callbacks_withEndpoint, setDynamic, addStatic] <;> omega

/-! ## The whole table -/

theorem ok_bind {η α β : Type} (a : α) (f : α → Except η β) : (Except.ok a >>= f) = f a := rfl

/-- A route with a path is built as the word of its segments. -/
theorem insertRoute_eq_insertWord (h : RequestHandler δ ε) (d : Option ℕ)
    {route : RouterKey × RouterCallback δ ε} (hne : route.1.path.bytes ≠ []) :
    insertRoute cap (h, d) route = insertWord cap (UInt32.ofInt route.1.method) route.2
      (h, start d) (routeSegments route.1.path) := by
  have hpath : normalize route.1.path = .ok (dropTrailingSlash route.1.path.bytes) := by
    obtain ⟨c, hc⟩ := Option.isSome_iff_exists.mp (List.getLast?_isSome.mpr hne)
    simp [normalize, dropTrailingSlash, hc]
  rw [insertRoute, hpath, insertWord, routeSegments]
  simp only [ok_bind, start]
  by_cases hs : (dropTrailingSlash route.1.path.bytes)[0]? = some slash
  · have hpos := (List.getElem?_eq_some_iff.mp hs).1
    simp only [hs, if_true]
    rw [scan_insertPiece _ hpos]
  · simp only [hs, if_false]
    rw [scan_insertPiece _ (Nat.zero_le _), List.drop_zero]

/-- The nodes that routes can need: one for each segment and one at the end. -/
def nodesOf (keys : List RouterKey) : ℕ :=
  (keys.map fun k => (routeSegments k.path).length + 1).sum

/-- The loop over the routes gets through when there is room for them. -/
theorem Sound.through_insertRoutes {es : List (RouterKey × RouterCallback δ ε)} {d : Option ℕ}
    {n m : ℕ} (hs : h.Sound ∅) (hd : ∀ i, d = some i → i < h.dynamicRoutes.length)
    (hne : ∀ e ∈ es, e.1.path.bytes ≠ []) (hf : Holds h n m)
    (hn : Q → n + nodesOf (es.map Prod.fst) ≤ cap.maxSize)
    (hm : Q → m + es.length ≤ cap.maxSize) :
    Through noMemory Q (es.foldlM (RequestHandler.insertRoute cap) (h, d)) := by
  induction es generalizing h d n m with
  | nil => exact .ok _
  | cons e es ih =>
      have hstart := midRoute_start hs hd (routeSegments e.1.path)
      have hlen : nodesOf ((e :: es).map Prod.fst) =
          (routeSegments e.1.path).length + 1 + nodesOf (es.map Prod.fst) := rfl
      rw [hlen] at hn
      simp only [List.length_cons] at hm
      have heq := @insertRoute_eq_insertWord _ _ cap h d e (hne e (List.mem_cons_self ..))
      rw [List.foldlM_cons, heq]
      refine .bind ?_ fun a ha => ?_
      · refine .bind (hstart.through_segments hf fun hQ => ?_) fun b hb => ?_
        · have := hn hQ
          omega
        · obtain ⟨h₁, c₁⟩ := b
          refine (hstart.run hb).through_finish (hstart.fits_segments hf hb) (fun hQ => ?_)
            fun hQ => ?_
          · have := hn hQ
            omega
          · have := hm hQ
            omega
      · obtain ⟨h', d'⟩ := a
        obtain ⟨hs', hd'⟩ := hs.insertRoute hd (heq.trans ha)
        rw [insertWord, bind_eq_ok] at ha
        obtain ⟨⟨h₁, c₁⟩, hsegments, hfinish⟩ := ha
        have hf' := (hstart.run hsegments).fits_finish (hstart.fits_segments hf hsegments) hfinish
        refine ih hs' hd' (fun e' he' => hne e' (List.mem_cons_of_mem _ he')) hf' (fun hQ => ?_)
          fun hQ => ?_
        · have := hn hQ
          omega
        · have := hm hQ
          omega

/-- A sum over the keys of a map is at most the sum over the keys that were inserted. -/
theorem sum_ofList_le {κ ν : Type} (cmp : κ → κ → ℤ) (f : κ → ℕ) (m es : List (κ × ν)) :
    ((OrderedMap.ofList cmp m es).map fun e => f e.1).sum ≤
      (m.map fun e => f e.1).sum + (es.map fun e => f e.1).sum := by
  have hinsert : ∀ (k : κ) (v : ν) (m : List (κ × ν)),
      ((OrderedMap.insert cmp k v m).map fun e => f e.1).sum ≤
        f k + (m.map fun e => f e.1).sum := by
    intro k v m
    induction m with
    | nil => simp [OrderedMap.insert]
    | cons e m ih =>
        rw [OrderedMap.insert]
        split
        · simp
        · split
          · simp
          · simp only [List.map_cons, List.sum_cons]
            omega
  induction es generalizing m with
  | nil => simp [OrderedMap.ofList]
  | cons e es ih =>
      have hstep := ih (OrderedMap.insert cmp e.1 e.2 m)
      have hhead := hinsert e.1 e.2 m
      simp only [List.map_cons, List.sum_cons]
      exact hstep.trans (by omega)

/-- The nodes that a table can need, the root apart. -/
def tableNodes (routes : List (Router δ ε)) : ℕ := nodesOf (routes.map Router.key)

theorem nodesOf_entries_le (routes : List (Router δ ε)) :
    nodesOf ((entries routes).map Prod.fst) ≤ tableNodes routes := by
  have := sum_ofList_le RouterKey.compare (fun k => (routeSegments k.path).length + 1) []
    (routes.map fun r => (r.key, r.callback))
  rw [List.map_nil, List.sum_nil, Nat.zero_add, List.map_map] at this
  rw [tableNodes, nodesOf, nodesOf, List.map_map, List.map_map]
  exact this

theorem length_entries_le (routes : List (Router δ ε)) :
    (entries routes).length ≤ routes.length := by
  have := sum_ofList_le RouterKey.compare (fun _ => 1) []
    (routes.map fun r => (r.key, r.callback))
  simpa [entries, Function.comp_def] using this

theorem mem_routes_of_entries {routes : List (Router δ ε)} {e : RouterKey × RouterCallback δ ε}
    (he : e ∈ entries routes) : ∃ r ∈ routes, r.path = e.1.path := by
  rcases OrderedMap.mem_ofList he with hnil | hmem
  · cases hnil
  · obtain ⟨r, hr, rfl⟩ := List.mem_map.mp hmem
    exact ⟨r, hr, rfl⟩

/-- With room for one node more than the segments and the ends of its routes `finalize`
gets through. -/
theorem through_finalize {routes : List (Router δ ε)} (cap : Capacity)
    (hne : ∀ r ∈ routes, r.path.bytes ≠ []) :
    Through noMemory (1 + tableNodes routes ≤ cap.maxSize) (finalize cap (table routes)) := by
  have hlen : routes.length ≤ tableNodes routes := by
    rw [tableNodes, nodesOf, List.map_map, ← @List.length_map _ _ routes]
    refine List.length_le_sum_of_one_le _ fun n hn => ?_
    obtain ⟨k, -, rfl⟩ := List.mem_map.mp hn
    exact Nat.le_add_left 1 _
  rw [table_eq, finalize]
  refine .bind (through_push (fun hroom => ?_) _) fun staticRoutes hpush => ?_
  · have hpos : 0 < cap.maxSize := by omega
    exact hpos
  · obtain ⟨-, rfl⟩ := push_ok.mp hpush
    refine .bind ?_ fun _ _ => .ok _
    have hfits : Holds (loopStart routes).1 1 0 := ⟨le_rfl, by simp [loopStart], le_rfl, le_rfl⟩
    refine (sound_loopStart routes).through_insertRoutes (by simp) (fun e he => ?_) hfits
      (fun hroom => ?_) fun hroom => ?_
    · obtain ⟨r, hr, hpath⟩ := mem_routes_of_entries he
      exact hpath ▸ hne r hr
    · have hn : 1 + nodesOf ((entries routes).map Prod.fst) ≤ cap.maxSize :=
        (Nat.add_le_add_left (nodesOf_entries_le routes) 1).trans hroom
      exact hn
    · have hm : 0 + (entries routes).length ≤ cap.maxSize := by
        have := length_entries_le routes
        omega
      exact hm

/-- On routes with a path `finalize` has a result or runs out of memory, and with room
for one node more than the segments and the ends of its routes it has a result. -/
theorem finalize_through {routes : List (Router δ ε)} (cap : Capacity)
    (hne : ∀ r ∈ routes, r.path.bytes ≠ []) :
    (∃ h, finalize cap (table routes) = .ok h) ∨
      finalize cap (table routes) = .error (.error .badAllocation) ∧
        cap.maxSize < 1 + tableNodes routes := by
  rcases through_finalize cap hne with hok | ⟨herr, hroom⟩
  · exact .inl hok
  · exact .inr ⟨herr, by omega⟩

theorem finalize_through_sample :
    (∃ h, finalize ⟨3, by decide⟩ (table sampleRoutes) = .ok h) ∨
      finalize ⟨3, by decide⟩ (table sampleRoutes) = .error (.error .badAllocation) ∧
        3 < 1 + tableNodes sampleRoutes :=
  finalize_through ⟨3, by decide⟩ (by decide)

end RePlace.Http.RequestHandler
