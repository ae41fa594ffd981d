import RePlace.Http.Dispatch

/-!
# The integrity of the node vectors

Every id that a node holds leads to a node, also in the nodes that no walk reaches.
In the middle of a route this fails for the dynamic nodes that have been created
before the parameter that names them: `Sound h P` is the invariant with the set `P`
of these nodes. `insertSegment` keeps `P` to the node the cursor stands on, and the
end of a route finds it empty. On a sound handler `handle_request` reads inside its
vectors, on any request with a URI.
-/

namespace RePlace.Http.RequestHandler

open PatternTrie (startsParam)
open Scan (scan slice foldSegments)

variable {δ ε : Type} {cap : Capacity} {h h' : RequestHandler δ ε}

/-! ## Valid ids -/

/-- The id leads to a node. -/
def ValidId (h : RequestHandler δ ε) (id : UInt32) : Prop :=
  if isDynamic id then getPos id < h.dynamicRoutes.length else id.toNat < h.staticRoutes.length

theorem validId_iff {id : UInt32} : h.ValidId id ↔ (h.node (refOf id)).isSome := by
  by_cases hdyn : isDynamic id = true
  · simp [ValidId, refOf, hdyn, node]
  · simp [ValidId, refOf, hdyn, node]

theorem ValidId.dynamic {id : UInt32} (hid : h.ValidId id) (hdyn : isDynamic id = true) :
    getPos id < h.dynamicRoutes.length := by
  rwa [ValidId, if_pos hdyn] at hid

theorem ValidId.static {id : UInt32} (hid : h.ValidId id) (hdyn : isDynamic id = false) :
    id.toNat < h.staticRoutes.length := by
  rwa [ValidId, hdyn] at hid

/-- Ids stay valid while the vectors grow. -/
theorem ValidId.mono {id : UInt32} (hid : h.ValidId id)
    (hs : h.staticRoutes.length ≤ h'.staticRoutes.length)
    (hd : h.dynamicRoutes.length ≤ h'.dynamicRoutes.length) : h'.ValidId id := by
  by_cases hdyn : isDynamic id = true
  · simp only [ValidId, hdyn, if_true] at hid ⊢
    exact hid.trans_le hd
  · simp only [ValidId, hdyn] at hid ⊢
    exact hid.trans_le hs

/-- The id of a new static node. -/
theorem validId_static {n : ℕ} (hlt : n < h.staticRoutes.length) (hn : n < 2 ^ 31) :
    h.ValidId (UInt32.ofNat n) := by
  rw [validId_iff, refOf_staticId hn]
  simp [node, hlt]

/-- The id of a new dynamic node. -/
theorem validId_dynamic {n : ℕ} (hlt : n < h.dynamicRoutes.length) (hn : n < 2 ^ 31) :
    h.ValidId (0x80000000 ||| UInt32.ofNat n) := by
  rw [validId_iff, refOf_dynamicId hn]
  simp [node, hlt]

/-! ## Sound handlers -/

/-- All ids and endpoint positions are in range, but the dynamic nodes of `P` are
still as they have been created. -/
structure Sound (h : RequestHandler δ ε) (P : Set ℕ) : Prop where
  root : 0 < h.staticRoutes.length
  maps : ∀ (i : ℕ) sr, h.staticRoutes[i]? = some sr → ∀ e ∈ sr.map, h.ValidId e.2
  fresh : ∀ (i : ℕ) dr, h.dynamicRoutes[i]? = some dr → i ∈ P → dr = {}
  idPtrs : ∀ (i : ℕ) dr, h.dynamicRoutes[i]? = some dr → i ∉ P →
    dr.idPtr ≠ unset ∧ h.ValidId dr.idPtr
  lengths : h.endpoints.length = h.callbacks.length
  positions : ∀ (i : ℕ) sr, h.staticRoutes[i]? = some sr →
    sr.endpointPos = -1 ∨ ∃ k : ℕ, sr.endpointPos = k ∧ k < h.endpoints.length

variable {P : Set ℕ}

/-- An entry of a vector that has grown is old or the new one. -/
theorem getElem?_concat_cases {α : Type} {xs : List α} {a x : α} {i : ℕ}
    (hi : (xs ++ [a])[i]? = some x) : xs[i]? = some x ∨ i = xs.length ∧ x = a := by
  rcases Nat.lt_or_ge i xs.length with hlt | hge
  · rw [List.getElem?_append_left hlt] at hi
    exact .inl hi
  · rw [List.getElem?_append_right hge, List.getElem?_singleton] at hi
    split at hi
    · exact .inr ⟨by omega, (Option.some.inj hi).symm⟩
    · cases hi

/-- An entry of a vector that has been written to is old or the written one. -/
theorem getElem?_set_cases {α : Type} {xs : List α} {a x : α} {i j : ℕ}
    (hi : (xs.set j a)[i]? = some x) : i ≠ j ∧ xs[i]? = some x ∨ i = j ∧ x = a := by
  by_cases hij : j = i
  · obtain rfl := hij
    have hlt : j < (xs.set j a).length := (List.getElem?_eq_some_iff.mp hi).1
    rw [List.getElem?_set_self (by simpa using hlt)] at hi
    exact .inr ⟨rfl, (Option.some.inj hi).symm⟩
  · rw [List.getElem?_set_ne hij] at hi
    exact .inl ⟨Ne.symm hij, hi⟩

theorem Sound.addStatic (hs : h.Sound P) : h.addStatic.Sound P where
  root := by simp [RequestHandler.addStatic]
  maps i sr hsr e he := by
    rcases getElem?_concat_cases hsr with hold | ⟨-, rfl⟩
    · exact (hs.maps i sr hold e he).mono (by simp [RequestHandler.addStatic]) le_rfl
    · simp at he
  fresh := hs.fresh
  idPtrs i dr hdr hi := by
    obtain ⟨hset, hid⟩ := hs.idPtrs i dr hdr hi
    exact ⟨hset, hid.mono (by simp [RequestHandler.addStatic]) le_rfl⟩
  lengths := hs.lengths
  positions i sr hsr := by
    rcases getElem?_concat_cases hsr with hold | ⟨-, rfl⟩
    · exact hs.positions i sr hold
    · exact .inl rfl

/-- A new dynamic node is not sound yet. -/
theorem Sound.addDynamic (hs : h.Sound P) :
    h.addDynamic.Sound (insert h.dynamicRoutes.length P) where
  root := hs.root
  maps i sr hsr e he := (hs.maps i sr hsr e he).mono le_rfl (by simp [RequestHandler.addDynamic])
  fresh i dr hdr hi := by
    rcases getElem?_concat_cases hdr with hold | ⟨-, rfl⟩
    · have hlt := (List.getElem?_eq_some_iff.mp hold).1
      exact hs.fresh i dr hold (hi.resolve_left hlt.ne)
    · rfl
  idPtrs i dr hdr hi := by
    rw [Set.mem_insert_iff, not_or] at hi
    rcases getElem?_concat_cases hdr with hold | ⟨hnew, -⟩
    · obtain ⟨hset, hid⟩ := hs.idPtrs i dr hold hi.2
      exact ⟨hset, hid.mono le_rfl (by simp [RequestHandler.addDynamic])⟩
    · exact absurd hnew hi.1
  lengths := hs.lengths
  positions := hs.positions

/-- A link to a node. -/
theorem Sound.setStatic_link (hs : h.Sound P) {i : ℕ} {sr : StaticRouterData}
    (hi : h.staticRoutes[i]? = some sr) (s : Bytes) {id : UInt32} (hid : h.ValidId id) :
    (h.setStatic i (sr.link s id)).Sound P where
  root := by simpa [setStatic] using hs.root
  maps j sr' hj e he := by
    rcases getElem?_set_cases hj with ⟨-, hold⟩ | ⟨-, rfl⟩
    · exact (hs.maps j sr' hold e he).mono (by simp [setStatic]) le_rfl
    · rcases List.mem_cons.mp he with rfl | he
      · exact hid.mono (by simp [setStatic]) le_rfl
      · exact (hs.maps i sr hi e he).mono (by simp [setStatic]) le_rfl
  fresh := hs.fresh
  idPtrs j dr hj hmem := by
    obtain ⟨hset, hid⟩ := hs.idPtrs j dr hj hmem
    exact ⟨hset, hid.mono (by simp [setStatic]) le_rfl⟩
  lengths := hs.lengths
  positions j sr' hj := by
    rcases getElem?_set_cases hj with ⟨-, hold⟩ | ⟨-, rfl⟩
    · exact hs.positions j sr' hold
    · exact hs.positions i sr hi

/-- A dynamic node gets its successor. -/
theorem Sound.setDynamic (hs : h.Sound P) (i : ℕ) (dr : DynamicRouterData)
    (hset : dr.idPtr ≠ unset) (hid : h.ValidId dr.idPtr) :
    (h.setDynamic i dr).Sound (P \ {i}) where
  root := hs.root
  maps j sr hj e he := (hs.maps j sr hj e he).mono le_rfl (by simp [RequestHandler.setDynamic])
  fresh j dr' hj hmem := by
    rcases getElem?_set_cases hj with ⟨-, hold⟩ | ⟨hij, -⟩
    · exact hs.fresh j dr' hold hmem.1
    · exact absurd hij hmem.2
  idPtrs j dr' hj hmem := by
    rcases getElem?_set_cases hj with ⟨hne, hold⟩ | ⟨-, rfl⟩
    · obtain ⟨hset, hid⟩ := hs.idPtrs j dr' hold fun hP => hmem ⟨hP, hne⟩
      exact ⟨hset, hid.mono le_rfl (by simp [RequestHandler.setDynamic])⟩
    · exact ⟨hset, hid.mono le_rfl (by simp [RequestHandler.setDynamic])⟩
  lengths := hs.lengths
  positions := hs.positions

/-- A static node keeps its map when an endpoint is added; its position is kept or
is that of the new endpoint. -/
theorem exists_static_of_withEndpoint {i j : ℕ} {sr sr' : StaticRouterData}
    (hi : h.staticRoutes[i]? = some sr) {method : UInt32} {callback : RouterCallback δ ε}
    (hj : (h.withEndpoint i sr method callback).staticRoutes[j]? = some sr') :
    ∃ sr₀, h.staticRoutes[j]? = some sr₀ ∧ sr'.map = sr₀.map ∧
      (sr'.endpointPos = sr₀.endpointPos ∨ sr'.endpointPos = h.endpoints.length) := by
  by_cases hij : j = i
  · obtain rfl := hij
    rw [staticRoutes_withEndpoint hi] at hj
    obtain rfl := Option.some.inj hj
    refine ⟨sr, hi, rfl, ?_⟩
    by_cases hpos : sr.endpointPos = -1 <;> simp [hpos]
  · have hkept := @node_withEndpoint_of_ne _ _ h i (.stat j) (by simpa using hij) sr method callback
    have hnode := hkept.symm.trans (node_stat_eq_some.mpr hj)
    exact ⟨sr', node_stat_eq_some.mp hnode, rfl, .inl rfl⟩

theorem ValidId.withEndpoint {id : UInt32} (hid : h.ValidId id) (i : ℕ) (sr : StaticRouterData)
    (method : UInt32) (callback : RouterCallback δ ε) :
    (h.withEndpoint i sr method callback).ValidId id :=
  hid.mono (length_staticRoutes_withEndpoint ..).ge (by rw [dynamicRoutes_withEndpoint])

theorem Sound.withEndpoint (hs : h.Sound P) {i : ℕ} {sr : StaticRouterData}
    (hi : h.staticRoutes[i]? = some sr) (method : UInt32) (callback : RouterCallback δ ε) :
    (h.withEndpoint i sr method callback).Sound P where
  root := by
    rw [length_staticRoutes_withEndpoint]
    exact hs.root
  maps j sr' hj e he := by
    obtain ⟨sr₀, hj₀, hmap, -⟩ := exists_static_of_withEndpoint hi hj
    exact (hs.maps j sr₀ hj₀ e (hmap ▸ he)).withEndpoint i sr method callback
  fresh j dr hj := by
    rw [dynamicRoutes_withEndpoint] at hj
    exact hs.fresh j dr hj
  idPtrs j dr hj hmem := by
    rw [dynamicRoutes_withEndpoint] at hj
    obtain ⟨hset, hid⟩ := hs.idPtrs j dr hj hmem
    exact ⟨hset, hid.withEndpoint i sr method callback⟩
  lengths := by
    rw [endpoints_withEndpoint, callbacks_withEndpoint, List.length_append, List.length_append,
      hs.lengths]
    rfl
  positions j sr' hj := by
    obtain ⟨sr₀, hj₀, -, hpos⟩ := exists_static_of_withEndpoint hi hj
    rw [endpoints_withEndpoint, List.length_append, List.length_singleton]
    rcases hpos with hpos | hpos
    · rw [hpos]
      rcases hs.positions j sr₀ hj₀ with hneg | ⟨k, hk, hlt⟩
      · exact .inl hneg
      · exact .inr ⟨k, hk, by omega⟩
    · exact .inr ⟨_, hpos, by omega⟩

/-! ## In the middle of a route -/

/-- The state between two segments: the cursor stands on a node; the only dynamic
node that is not sound yet is the one it stands on, and only if a parameter follows.
A cursor that has been carried over from the route before need not be consistent. -/
structure MidRoute (h : RequestHandler δ ε) (c : Cursor) (P : Set ℕ) (param : Bool) : Prop where
  sound : h.Sound P
  node : (h.node c.ref).isSome
  pending : ∀ i ∈ P, c.dptr = some i ∧ c.Consistent ∧ param = true
  consistent : c.dptr = none → c.Consistent

theorem MidRoute.exists_static {c : Cursor} {param : Bool} (hm : MidRoute h c P param)
    (hc : c.dptr = none) : ∃ sr, h.staticRoutes[c.sptr]? = some sr := by
  have hnode := hm.node
  rw [Cursor.ref_eq_stat.mpr ⟨hc, rfl⟩] at hnode
  obtain ⟨sr, hsr⟩ := at?_of_isSome_stat hnode
  exact ⟨sr, at?_ok.mp hsr⟩

theorem MidRoute.exists_dynamic {c : Cursor} {param : Bool} (hm : MidRoute h c P param) {d : ℕ}
    (hc : c.dptr = some d) : ∃ dr, h.dynamicRoutes[d]? = some dr := by
  have hnode := hm.node
  rw [Cursor.ref_eq_dyn.mpr hc] at hnode
  obtain ⟨dr, hdr⟩ := at?_of_isSome_dyn hnode
  exact ⟨dr, at?_ok.mp hdr⟩

/-- On a static node nothing is pending. -/
theorem MidRoute.eq_empty {c : Cursor} {param : Bool} (hm : MidRoute h c P param)
    (hc : c.dptr = none) : P = ∅ := by
  rw [Set.eq_empty_iff_forall_notMem]
  intro i hi
  cases hc.symm.trans (hm.pending i hi).1

/-- A node that has a successor is followed. -/
theorem midRoute_goto {c : Cursor} {id : UInt32} (hs : h.Sound ∅) (hid : h.ValidId id)
    (param : Bool) : MidRoute h (c.goto id) ∅ param where
  sound := hs
  node := by rwa [Cursor.ref_goto, ← validId_iff]
  pending := by simp
  consistent _ := Cursor.consistent_goto c id

/-- A new dynamic node waits for its parameter. -/
theorem midRoute_goto_new {c : Cursor} {n : ℕ} (hs : h.Sound {n})
    (hlt : n < h.dynamicRoutes.length) (hn : n < 2 ^ 31) :
    MidRoute h (c.goto (0x80000000 ||| UInt32.ofNat n)) {n} true where
  sound := hs
  node := by
    rw [Cursor.ref_goto, ← validId_iff]
    exact validId_dynamic hlt hn
  pending i hi := by
    refine ⟨?_, Cursor.consistent_goto c _, rfl⟩
    rw [← Cursor.ref_eq_dyn, Cursor.ref_goto, refOf_dynamicId hn, Set.mem_singleton_iff.mp hi]
  consistent _ := Cursor.consistent_goto c _

theorem isParam_ne_nil {s : Bytes} (h : isParam s = true) : s ≠ [] := by
  rintro rfl
  cases h

/-- A segment read from a static node. -/
theorem MidRoute.step_static {c c' : Cursor} {s : Bytes} {b param : Bool}
    (hm : MidRoute h c P param) (hc : c.dptr = none)
    (hok : insertSegment cap h c s b = .ok (h', c')) : ∃ P', MidRoute h' c' P' b := by
  obtain ⟨sr, hsr⟩ := hm.exists_static hc
  have hcons := hm.consistent hc
  have hs := hm.sound
  rw [hm.eq_empty hc] at hs
  cases hl : sr.map.lookup s with
  | some id =>
      obtain ⟨l₁, l₂, hmap, -⟩ := List.lookup_eq_some_iff.mp hl
      have hid : h.ValidId id := hs.maps _ sr hsr (s, id) (by simp [hmap])
      rw [insertSegment_follow_static hc hsr hl (validId_iff.mp hid)] at hok
      obtain ⟨rfl, rfl⟩ := Prod.mk.inj (Except.ok.inj hok)
      exact ⟨∅, midRoute_goto hs hid b⟩
  | none =>
      cases b with
      | false =>
          obtain ⟨hroom, rfl, rfl⟩ := insertSegment_new_static hc hcons hsr hl hok
          have hid : h.addStatic.ValidId (UInt32.ofNat h.staticRoutes.length) :=
            validId_static (by simp [RequestHandler.addStatic]) (hroom.trans cap.lt_signBit)
          have hsr' : h.addStatic.staticRoutes[c.sptr]? = some sr :=
            node_stat_eq_some.mp (node_addStatic (node_stat_eq_some.mpr hsr))
          refine ⟨∅, midRoute_goto (hs.addStatic.setStatic_link hsr' s hid) ?_ false⟩
          exact hid.mono (by simp [setStatic]) le_rfl
      | true =>
          obtain ⟨hroom, rfl, rfl⟩ := insertSegment_new_dynamic hc hsr hl hok
          have hn := hroom.trans cap.lt_signBit
          have hid : h.addDynamic.ValidId (0x80000000 ||| UInt32.ofNat h.dynamicRoutes.length) :=
            validId_dynamic (by simp [RequestHandler.addDynamic]) hn
          have hs' := hs.addDynamic.setStatic_link hsr s hid
          rw [LawfulSingleton.insert_empty_eq] at hs'
          exact ⟨_, midRoute_goto_new hs' (by simp [RequestHandler.addDynamic, setStatic]) hn⟩

/-- A segment read from a dynamic node. -/
theorem MidRoute.step_dynamic {c c' : Cursor} {d : ℕ} {s : Bytes} {b param : Bool}
    (hm : MidRoute h c P param) (hc : c.dptr = some d) (hparam : param = true → isParam s = true)
    (hok : insertSegment cap h c s b = .ok (h', c')) : ∃ P', MidRoute h' c' P' b := by
  obtain ⟨dr, hdr⟩ := hm.exists_dynamic hc
  have hs := hm.sound
  by_cases hd : d ∈ P
  · -- the node is pending, so the segment is its parameter
    obtain ⟨-, hcons, hp⟩ := hm.pending d hd
    have hne := isParam_ne_nil (hparam hp)
    have hP : P = {d} := by
      refine Set.eq_singleton_iff_unique_mem.mpr ⟨hd, fun i hi => ?_⟩
      exact Option.some.inj ((hm.pending i hi).1.symm.trans hc)
    obtain rfl := hs.fresh d dr hdr hd
    subst hP
    cases b with
    | false =>
        obtain ⟨hroom, rfl, rfl⟩ := insertSegment_name_static hc hdr hne hok
        have hn := hroom.trans cap.lt_signBit
        have hid : h.addStatic.ValidId (UInt32.ofNat h.staticRoutes.length) :=
          validId_static (by simp [RequestHandler.addStatic]) hn
        have hs' := hs.addStatic.setDynamic d { name := s.drop 1, idPtr := _ }
          (staticId_ne_unset hn) hid
        rw [Set.sdiff_self] at hs'
        exact ⟨∅, midRoute_goto hs' (hid.mono le_rfl (by simp [RequestHandler.setDynamic])) false⟩
    | true =>
        obtain ⟨hroom, rfl, rfl⟩ := insertSegment_name_dynamic hc hcons hdr hne hok
        have hlt := (List.getElem?_eq_some_iff.mp hdr).1
        have hn := cap.lt_signBit
        have hid : h.addStatic.addDynamic.ValidId
            (0x80000000 ||| UInt32.ofNat h.dynamicRoutes.length) :=
          validId_dynamic (by simp [RequestHandler.addStatic, RequestHandler.addDynamic]) (by omega)
        have hs' := hs.addStatic.addDynamic.setDynamic d { name := s.drop 1, idPtr := _ }
          (dynamicId_ne_unset (by omega)) hid
        have hP : insert h.addStatic.dynamicRoutes.length {d} \ {d} =
            ({h.dynamicRoutes.length} : Set ℕ) := by
          ext i
          simp only [RequestHandler.addStatic, Set.mem_sdiff, Set.mem_insert_iff,
            Set.mem_singleton_iff]
          omega
        rw [hP] at hs'
        exact ⟨_, midRoute_goto_new hs' (by
          simp [RequestHandler.addStatic, RequestHandler.addDynamic, RequestHandler.setDynamic])
          (by omega)⟩
  · -- nothing is pending
    have hP : P = ∅ := by
      rw [Set.eq_empty_iff_forall_notMem]
      intro i hi
      obtain rfl := Option.some.inj ((hm.pending i hi).1.symm.trans hc)
      exact hd hi
    subst hP
    obtain ⟨hset, hid⟩ := hs.idPtrs d dr hdr hd
    rw [insertSegment_follow_dynamic hc hdr hset (validId_iff.mp hid)] at hok
    obtain ⟨rfl, rfl⟩ := Prod.mk.inj (Except.ok.inj hok)
    exact ⟨∅, midRoute_goto hs hid b⟩

/-- One segment of a route. -/
theorem MidRoute.step {c c' : Cursor} {s : Bytes} {b param : Bool} (hm : MidRoute h c P param)
    (hparam : param = true → isParam s = true)
    (hok : insertSegment cap h c s b = .ok (h', c')) : ∃ P', MidRoute h' c' P' b := by
  cases hc : c.dptr with
  | none => exact hm.step_static hc hok
  | some d => exact hm.step_dynamic hc hparam hok

/-- The segments of a route leave nothing pending. -/
theorem MidRoute.run {x : List Bytes} {c c' : Cursor} (hm : MidRoute h c P (startsParam isParam x))
    (hok : foldSegments (insertNext cap) (h, c) x = .ok (h', c')) : MidRoute h' c' ∅ false := by
  induction x generalizing h c P with
  | nil =>
      obtain ⟨rfl, rfl⟩ := Prod.mk.inj (Except.ok.inj hok)
      have hP : P = ∅ := Set.eq_empty_iff_forall_notMem.mpr fun i hi => by
        cases (hm.pending i hi).2.2
      exact hP ▸ hm
  | cons s x ih =>
      rw [Scan.foldSegments_cons, bind_eq_ok] at hok
      obtain ⟨⟨h₁, c₁⟩, hstep, hrest⟩ := hok
      obtain ⟨P', hm'⟩ := hm.step (fun hp => by simpa [startsParam] using hp) hstep
      exact ih hm' hrest

/-- The end of a route. -/
theorem MidRoute.finish {c : Cursor} {d : Option ℕ} {method : UInt32}
    {callback : RouterCallback δ ε} (hm : MidRoute h c ∅ false)
    (hok : finishRoute cap h c method callback = .ok (h', d)) :
    h'.Sound ∅ ∧ ∀ i, d = some i → i < h'.dynamicRoutes.length := by
  cases hc : c.dptr with
  | none =>
      obtain ⟨rfl, sr, hsr, -, rfl⟩ := finishRoute_static hc hok
      exact ⟨hm.sound.withEndpoint hsr method callback, by simp⟩
  | some i =>
      obtain ⟨dr, hdr⟩ := hm.exists_dynamic hc
      obtain ⟨rfl, hroom, -, rfl⟩ := finishRoute_dynamic hc hdr hok
      have hn := hroom.trans cap.lt_signBit
      have hid : h.addStatic.ValidId (UInt32.ofNat h.staticRoutes.length) :=
        validId_static (by simp [RequestHandler.addStatic]) hn
      have hs := hm.sound.addStatic.setDynamic i { dr with idPtr := _ } (staticId_ne_unset hn) hid
      rw [Set.empty_sdiff] at hs
      have hnew : (h.addStatic.setDynamic i
          { dr with idPtr := UInt32.ofNat h.staticRoutes.length }).staticRoutes[
            h.staticRoutes.length]? = some {} := by
        simp [RequestHandler.addStatic, RequestHandler.setDynamic]
      refine ⟨hs.withEndpoint hnew method callback, ?_⟩
      rintro j hj
      obtain rfl := Option.some.inj hj
      rw [dynamicRoutes_withEndpoint]
      simpa [RequestHandler.setDynamic, RequestHandler.addStatic] using
        (List.getElem?_eq_some_iff.mp hdr).1

/-! ## The whole table -/

/-- One route keeps the handler sound, and the pointer it leaves in range. -/
theorem Sound.insertRoute {d d' : Option ℕ} {route : RouterKey × RouterCallback δ ε}
    (hs : h.Sound ∅) (hd : ∀ i, d = some i → i < h.dynamicRoutes.length)
    (hok : insertRoute cap (h, d) route = .ok (h', d')) :
    h'.Sound ∅ ∧ ∀ i, d' = some i → i < h'.dynamicRoutes.length := by
  have hword := insertRoute_eq hok
  rw [insertWord, bind_eq_ok] at hword
  obtain ⟨⟨h₁, c₁⟩, hsegments, hfinish⟩ := hword
  have hstart : MidRoute h (start d) ∅ (startsParam isParam (routeSegments route.1.path)) := by
    refine ⟨hs, ?_, by simp, ?_⟩
    · cases d with
      | none => simpa [start, Cursor.ref, node] using hs.root
      | some i => simpa [start, Cursor.ref, node] using hd i rfl
    · rintro hnone
      obtain rfl : d = none := hnone
      rfl
  exact (hstart.run hsegments).finish hfinish

theorem Sound.insertRoutes {es : List (RouterKey × RouterCallback δ ε)} {d d' : Option ℕ}
    (hs : h.Sound ∅) (hd : ∀ i, d = some i → i < h.dynamicRoutes.length)
    (hok : es.foldlM (RequestHandler.insertRoute cap) (h, d) = .ok (h', d')) : h'.Sound ∅ := by
  induction es generalizing h d with
  | nil =>
      obtain ⟨rfl, rfl⟩ := Prod.mk.inj (Except.ok.inj hok)
      exact hs
  | cons e es ih =>
      rw [List.foldlM_cons, bind_eq_ok] at hok
      obtain ⟨⟨h₁, d₁⟩, hstep, hrest⟩ := hok
      obtain ⟨hs₁, hd₁⟩ := hs.insertRoute hd hstep
      exact ih hs₁ hd₁ hrest

theorem sound_loopStart (routes : List (Router δ ε)) : (loopStart routes).1.Sound ∅ := by
  have hone : ∀ {i : ℕ} {sr : StaticRouterData}, [({} : StaticRouterData)][i]? = some sr →
      sr = {} := fun hi => List.mem_singleton.mp (List.mem_of_getElem? hi)
  refine ⟨Nat.one_pos, fun i sr hi e he => ?_, by simp [loopStart], by simp [loopStart], rfl,
    fun i sr hi => ?_⟩
  · rw [hone hi] at he
    cases he
  · rw [hone hi]
    exact .inl rfl

/-- `finalize` makes a sound handler. -/
theorem sound_of_finalize {routes : List (Router δ ε)}
    (hok : finalize cap (table routes) = .ok h) : h.Sound ∅ := by
  obtain ⟨h₁, d, hloop, rfl⟩ := finalize_ok hok
  have hs := (sound_loopStart routes).insertRoutes (by simp) hloop
  exact ⟨hs.root, hs.maps, hs.fresh, hs.idPtrs, hs.lengths, hs.positions⟩

/-! ## Requests -/

/-- The walk stands inside the vectors. -/
def WalkState.Inside (h : RequestHandler δ ε) (st : WalkState) : Prop :=
  st.sroute < h.staticRoutes.length ∧ ∀ d, st.droute = some d → d < h.dynamicRoutes.length

/-- One segment of the walk of a request. -/
theorem Sound.walkSegment (hs : h.Sound ∅) {st : WalkState} (hst : WalkState.Inside h st)
    (s : Bytes) : h.walkSegment st s = .error (some notFound) ∨
      ∃ st', h.walkSegment st s = .ok st' ∧ WalkState.Inside h st' := by
  obtain ⟨req, sroute, droute⟩ := st
  obtain ⟨hsroute, hdroute⟩ := hst
  cases droute with
  | none =>
      obtain ⟨sr, hsr⟩ : ∃ sr, h.staticRoutes[sroute]? = some sr :=
        ⟨_, List.getElem?_eq_getElem hsroute⟩
      cases hl : sr.map.lookup s with
      | none => exact .inl (by simp [RequestHandler.walkSegment, hsr, hl, notFound])
      | some id =>
          obtain ⟨l₁, l₂, hmap, -⟩ := List.lookup_eq_some_iff.mp hl
          have hid : h.ValidId id := hs.maps _ sr hsr (s, id) (by simp [hmap])
          cases hdyn : isDynamic id with
          | true =>
              have hlt := hid.dynamic hdyn
              exact .inr ⟨⟨req, sroute, some (getPos id)⟩, by
                simp [RequestHandler.walkSegment, hsr, hl, hdyn, hlt], hsroute, by simpa using hlt⟩
          | false =>
              have hlt := hid.static hdyn
              exact .inr ⟨⟨req, id.toNat, none⟩, by
                simp [RequestHandler.walkSegment, hsr, hl, hdyn, hlt], hlt, by simp⟩
  | some d =>
      obtain ⟨dr, hdr⟩ : ∃ dr, h.dynamicRoutes[d]? = some dr :=
        ⟨_, List.getElem?_eq_getElem (hdroute d rfl)⟩
      obtain ⟨-, hid⟩ := hs.idPtrs d dr hdr (Set.notMem_empty d)
      let req' : Request := { req with pathParams := req.pathParams ++ [⟨dr.name, s⟩] }
      cases hdyn : isDynamic dr.idPtr with
      | true =>
          have hlt := hid.dynamic hdyn
          exact .inr ⟨⟨req', sroute, some (getPos dr.idPtr)⟩, by
            simp [RequestHandler.walkSegment, hdr, hdyn, hlt, req'], hsroute, by simpa using hlt⟩
      | false =>
          have hlt := hid.static hdyn
          exact .inr ⟨⟨req', dr.idPtr.toNat, none⟩, by
            simp [RequestHandler.walkSegment, hdr, hdyn, hlt, req'], hlt, by simp⟩

/-- The walk over all segments. -/
theorem Sound.walk (hs : h.Sound ∅) {st : WalkState} (hst : WalkState.Inside h st)
    (x : List Bytes) :
    foldSegments (fun st s _ => h.walkSegment st s) st x = .error (some notFound) ∨
      ∃ st', foldSegments (fun st s _ => h.walkSegment st s) st x = .ok st' ∧
        WalkState.Inside h st' := by
  induction x generalizing st with
  | nil => exact .inr ⟨st, rfl, hst⟩
  | cons s x ih =>
      rw [Scan.foldSegments_cons]
      rcases hs.walkSegment hst s with herr | ⟨st', hok, hst'⟩
      · exact .inl (by rw [herr]; rfl)
      · rw [hok]
        exact ih hst'

theorem Sound.execute (hs : h.Sound P) {pos : ℕ} (hpos : pos < h.endpoints.length)
    (req : Request) : ∃ outcome, h.execute pos req = some outcome := by
  have hlt : pos < h.callbacks.length := hs.lengths ▸ hpos
  exact ⟨_, by rw [RequestHandler.execute, List.getElem?_eq_getElem hlt]; rfl⟩

theorem Sound.scanEndpoints (hs : h.Sound P) (req : Request) (n start : ℕ) :
    ∃ outcome, h.scanEndpoints req n start = some outcome := by
  induction n generalizing start with
  | zero => exact ⟨_, rfl⟩
  | succ n ih =>
      rw [RequestHandler.scanEndpoints]
      split
      · rename_i hstart
        rw [List.getElem?_eq_getElem hstart.1]
        simp only [Option.bind_eq_bind, Option.bind_some]
        split
        · exact hs.execute hstart.1 req
        · exact ih (start + 1)
      · exact ⟨_, rfl⟩

theorem Sound.selectEndpoint (hs : h.Sound P) {pos : ℕ} (hpos : pos < h.endpoints.length)
    (req : Request) : ∃ outcome, h.selectEndpoint pos req = some outcome := by
  rw [RequestHandler.selectEndpoint, List.getElem?_eq_getElem hpos]
  simp only [Option.bind_eq_bind, Option.bind_some]
  split
  · exact hs.execute hpos req
  · exact hs.scanEndpoints req _ _

theorem Sound.arrive (hs : h.Sound ∅) {st : WalkState} (hst : WalkState.Inside h st) :
    ∃ outcome, h.arrive st = some outcome := by
  have hsr := List.getElem?_eq_getElem hst.1
  rw [RequestHandler.arrive, hsr]
  simp only [Option.bind_eq_bind, Option.bind_some]
  rcases hs.positions _ _ hsr with hneg | ⟨k, hk, hlt⟩
  · rw [if_pos hneg]
    exact ⟨_, rfl⟩
  · rw [if_neg (by omega), hk, Int.toNat_natCast]
    exact hs.selectEndpoint hlt st.req

theorem Sound.handleRequest (hs : h.Sound ∅) {req : Request} (hne : req.uri ≠ []) :
    ∃ outcome, h.handleRequest req = some outcome := by
  by_cases hroot : req.uri = [slash]
  · have hlit : req.uri = Bytes.lit "/" := hroot
    have hsr := List.getElem?_eq_getElem hs.root
    rw [RequestHandler.handleRequest, if_pos hlit, hsr]
    simp only [Option.bind_eq_bind, Option.bind_some]
    rcases hs.positions _ _ hsr with hneg | ⟨k, hk, hlt⟩
    · rw [if_pos hneg]
      exact ⟨_, rfl⟩
    · rw [if_neg (by omega), hk, Int.toNat_natCast]
      exact hs.execute hlt req
  · rw [handleRequest_eq_onePass h hne hroot, onePass]
    have hst : WalkState.Inside h { req := req, sroute := 0, droute := none } :=
      ⟨hs.root, by simp⟩
    rcases hs.walk hst (uriSegments req.uri) with herr | ⟨st', hok, hst'⟩
    · rw [herr]
      exact ⟨_, rfl⟩
    · rw [hok]
      exact hs.arrive hst'

/-! ## Integrity -/

/-- All that the nodes and the endpoints refer to is there. -/
structure Integrity (h : RequestHandler δ ε) : Prop where
  maps : ∀ sr ∈ h.staticRoutes, ∀ e ∈ sr.map, h.ValidId e.2
  idPtrs : ∀ dr ∈ h.dynamicRoutes, dr.idPtr ≠ unset ∧ h.ValidId dr.idPtr
  lengths : h.endpoints.length = h.callbacks.length
  positions : ∀ sr ∈ h.staticRoutes,
    sr.endpointPos = -1 ∨ 0 ≤ sr.endpointPos ∧ sr.endpointPos < h.endpoints.length

theorem Sound.integrity (hs : h.Sound ∅) : h.Integrity where
  maps sr hsr := by
    obtain ⟨i, hi⟩ := List.mem_iff_getElem?.mp hsr
    exact hs.maps i sr hi
  idPtrs dr hdr := by
    obtain ⟨i, hi⟩ := List.mem_iff_getElem?.mp hdr
    exact hs.idPtrs i dr hi (Set.notMem_empty i)
  lengths := hs.lengths
  positions sr hsr := by
    obtain ⟨i, hi⟩ := List.mem_iff_getElem?.mp hsr
    rcases hs.positions i sr hi with hneg | ⟨k, hk, hlt⟩
    · exact .inl hneg
    · exact .inr ⟨by omega, by omega⟩

/-- A finalized table has integrity; every request with a URI is answered in one pass
over it, without an access outside a vector. -/
theorem route_table_integrity {routes : List (Router δ ε)}
    (hok : finalize cap (table routes) = .ok h) :
    h.Integrity ∧ ∀ req : Request, req.uri ≠ [] →
      (∃ outcome, h.handleRequest req = some outcome) ∧
        (req.uri ≠ [slash] → h.handleRequest req = h.onePass req) := by
  have hs := sound_of_finalize hok
  exact ⟨hs.integrity, fun req hne => ⟨hs.handleRequest hne, handleRequest_eq_onePass h hne⟩⟩

/-- Routes with two parameters in a row, with a slash at the end, and with a first
segment that is a parameter. -/
def sampleRoutes : List (Router Unit Unit) :=
  [{ method := 1, path := .lit "/a/:x/:y", data := (), endpoint := () },
    { method := 2, path := .lit "/a/:x/", data := (), endpoint := () },
    { method := 1, path := .lit ":b/c", data := (), endpoint := () }]

theorem route_table_integrity_sample :
    ∃ h, finalize sampleCapacity (table sampleRoutes) = .ok h ∧
      h.Integrity ∧ ∀ req : Request, req.uri ≠ [] →
        (∃ outcome, h.handleRequest req = some outcome) ∧
          (req.uri ≠ [slash] → h.handleRequest req = h.onePass req) := by
  obtain ⟨h, hok⟩ : ∃ h, finalize sampleCapacity (table sampleRoutes) = .ok h := ⟨_, rfl⟩
  exact ⟨h, hok, route_table_integrity hok⟩

end RePlace.Http.RequestHandler
