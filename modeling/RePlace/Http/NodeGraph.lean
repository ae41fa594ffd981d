import Mathlib.Data.Nat.Bitwise
import RePlace.Http.RequestHandler

/-!
# The nodes of a request handler

An id refers to a static or to a dynamic node (`refOf`). This file says once
what one segment of a route does to the nodes: it follows an existing link, or
it creates one node and links it. Each case is one lemma on `insertSegment`.
-/

namespace RePlace.Http

/-! ## Ids -/

theorem isDynamic_iff (pos : UInt32) : isDynamic pos = true ↔ 2 ^ 31 ≤ pos.toNat := by
  have hlt : pos.toNat < 2 ^ 32 := pos.toNat_lt
  have hand : (pos &&& 0x80000000).toNat = pos.toNat &&& 2 ^ 31 := rfl
  have hzero : pos &&& 0x80000000 = 0 ↔ pos.toNat &&& 2 ^ 31 = 0 := by
    rw [← hand, ← UInt32.toNat_inj]
    rfl
  rw [isDynamic, decide_eq_true_iff, ne_eq, hzero, Nat.and_two_pow,
    Nat.testBit_eq_decide_div_mod_eq]
  rcases Nat.lt_or_ge pos.toNat (2 ^ 31) with h | h
  · have hdiv : pos.toNat / 2 ^ 31 = 0 := Nat.div_eq_of_lt h
    rw [hdiv]
    simpa using h
  · have hdiv : pos.toNat / 2 ^ 31 = 1 := by omega
    rw [hdiv]
    simpa using h

theorem getPos_eq (pos : UInt32) : getPos pos = pos.toNat % 2 ^ 31 := by
  have hand : getPos pos = pos.toNat &&& (2 ^ 31 - 1) := rfl
  rw [hand, Nat.and_two_pow_sub_one_eq_mod]

theorem toNat_staticId {n : ℕ} (h : n < 2 ^ 31) : (UInt32.ofNat n).toNat = n :=
  UInt32.toNat_ofNat_of_lt' (by simp only [UInt32.size]; omega)

theorem toNat_dynamicId {n : ℕ} (h : n < 2 ^ 31) :
    (0x80000000 ||| UInt32.ofNat n).toNat = 2 ^ 31 + n := by
  rw [UInt32.toNat_or, toNat_staticId h]
  exact (Nat.two_pow_add_eq_or_of_lt h 1).symm

/-- What an id refers to. -/
inductive Ref
  | stat (i : ℕ)
  | dyn (i : ℕ)
deriving DecidableEq

def refOf (id : UInt32) : Ref :=
  if isDynamic id then .dyn (getPos id) else .stat id.toNat

theorem refOf_staticId {n : ℕ} (h : n < 2 ^ 31) : refOf (UInt32.ofNat n) = .stat n := by
  have hid : isDynamic (UInt32.ofNat n) = false := by
    rw [Bool.eq_false_iff, ne_eq, isDynamic_iff, toNat_staticId h]
    omega
  rw [refOf, hid, toNat_staticId h]
  rfl

theorem refOf_dynamicId {n : ℕ} (h : n < 2 ^ 31) :
    refOf (0x80000000 ||| UInt32.ofNat n) = .dyn n := by
  have hid : isDynamic (0x80000000 ||| UInt32.ofNat n) = true := by
    rw [isDynamic_iff, toNat_dynamicId h]
    omega
  rw [refOf, hid, getPos_eq, toNat_dynamicId h, Nat.add_mod_left, Nat.mod_eq_of_lt h]
  rfl

theorem staticId_ne_unset {n : ℕ} (h : n < 2 ^ 31) : UInt32.ofNat n ≠ unset := by
  intro heq
  have := congrArg UInt32.toNat heq
  rw [toNat_staticId h, unset] at this
  simp only [UInt32.reduceToNat] at this
  omega

theorem dynamicId_ne_unset {n : ℕ} (h : n < 2 ^ 31 - 1) :
    0x80000000 ||| UInt32.ofNat n ≠ unset := by
  intro heq
  have := congrArg UInt32.toNat heq
  rw [toNat_dynamicId (by omega), unset] at this
  simp only [UInt32.reduceToNat] at this
  omega

/-- A static node with one more entry in its map. -/
def StaticRouterData.link (sr : StaticRouterData) (s : Bytes) (id : UInt32) : StaticRouterData :=
  { sr with map := (s, id) :: sr.map }

@[simp] theorem StaticRouterData.lookup_link_self (sr : StaticRouterData) (s : Bytes)
    (id : UInt32) : (sr.link s id).map.lookup s = some id := by
  simp [link]

theorem StaticRouterData.lookup_link_of_ne (sr : StaticRouterData) {s s' : Bytes} (id : UInt32)
    (hne : s' ≠ s) : (sr.link s id).map.lookup s' = sr.map.lookup s' := by
  simp [link, List.lookup_cons, beq_eq_false_iff_ne.mpr hne]

namespace RequestHandler

variable {δ ε : Type}

/-- The node a reference leads to. -/
def node (h : RequestHandler δ ε) : Ref → Option (StaticRouterData ⊕ DynamicRouterData)
  | .stat i => h.staticRoutes[i]?.map .inl
  | .dyn i => h.dynamicRoutes[i]?.map .inr

theorem node_stat_eq_some {h : RequestHandler δ ε} {i : ℕ} {sr : StaticRouterData} :
    h.node (.stat i) = some (.inl sr) ↔ h.staticRoutes[i]? = some sr := by
  simp [node]

theorem node_dyn_eq_some {h : RequestHandler δ ε} {i : ℕ} {dr : DynamicRouterData} :
    h.node (.dyn i) = some (.inr dr) ↔ h.dynamicRoutes[i]? = some dr := by
  simp [node]

namespace Cursor

/-- The node the cursor stands on. -/
def ref (c : Cursor) : Ref :=
  match c.dptr with
  | some d => .dyn d
  | none => .stat c.sptr

/-- Move to the node of an id. -/
def goto (c : Cursor) (id : UInt32) : Cursor :=
  if isDynamic id then { prevId := id, sptr := c.sptr, dptr := some (getPos id) }
  else { prevId := id, sptr := id.toNat, dptr := none }

@[simp] theorem ref_goto (c : Cursor) (id : UInt32) : (c.goto id).ref = refOf id := by
  by_cases h : isDynamic id = true <;> simp [goto, ref, refOf, h]

@[simp] theorem prevId_goto (c : Cursor) (id : UInt32) : (c.goto id).prevId = id := by
  by_cases h : isDynamic id = true <;> simp [goto, h]

theorem ref_eq_stat {c : Cursor} {i : ℕ} : c.ref = .stat i ↔ c.dptr = none ∧ c.sptr = i := by
  cases h : c.dptr <;> simp [ref, h]

theorem ref_eq_dyn {c : Cursor} {i : ℕ} : c.ref = .dyn i ↔ c.dptr = some i := by
  cases h : c.dptr <;> simp [ref, h]

/-- The id read last is the id of the node the cursor stands on. -/
def Consistent (c : Cursor) : Prop := refOf c.prevId = c.ref

@[simp] theorem consistent_goto (c : Cursor) (id : UInt32) : (c.goto id).Consistent := by
  simp [Consistent]

theorem Consistent.prev_stat {c : Cursor} (hc : c.Consistent) (h : c.dptr = none) :
    c.prevId.toNat = c.sptr := by
  rw [Consistent, ref, h, refOf] at hc
  split at hc
  · cases hc
  · simpa using hc

theorem Consistent.prev_dyn {c : Cursor} (hc : c.Consistent) {d : ℕ} (h : c.dptr = some d) :
    getPos c.prevId = d := by
  rw [Consistent, ref, h, refOf] at hc
  split at hc
  · simpa using hc
  · cases hc

end Cursor

/-! ## The vectors grow -/

theorem push_ok {α : Type} {cap : Capacity} {xs ys : List α} {x : α} :
    push cap xs x = .ok ys ↔ xs.length < cap.maxSize ∧ ys = xs ++ [x] := by
  unfold push
  split
  next h => simp [h, eq_comm]
  next h => simp [h]

theorem at?_ok {α : Type} {xs : List α} {i : ℕ} {x : α} :
    at? xs i = .ok x ↔ xs[i]? = some x := by
  unfold at?
  split <;> simp_all

/-- The handler with one more static node, without links. -/
def addStatic (h : RequestHandler δ ε) : RequestHandler δ ε :=
  { h with staticRoutes := h.staticRoutes ++ [({} : StaticRouterData)] }

/-- The handler with one more dynamic node, not yet linked. -/
def addDynamic (h : RequestHandler δ ε) : RequestHandler δ ε :=
  { h with dynamicRoutes := h.dynamicRoutes ++ [({} : DynamicRouterData)] }

theorem node_addStatic {h : RequestHandler δ ε} {r : Ref} {v} (hv : h.node r = some v) :
    h.addStatic.node r = some v := by
  cases r with
  | stat i =>
      obtain ⟨sr, hsr, rfl⟩ := Option.map_eq_some_iff.mp hv
      rw [node_stat_eq_some, addStatic,
        List.getElem?_append_left (List.getElem?_eq_some_iff.mp hsr).1, hsr]
  | dyn i => exact hv

theorem node_addStatic_new (h : RequestHandler δ ε) :
    h.addStatic.node (.stat h.staticRoutes.length) = some (.inl {}) := by
  simp [node, addStatic]

theorem node_addDynamic {h : RequestHandler δ ε} {r : Ref} {v} (hv : h.node r = some v) :
    h.addDynamic.node r = some v := by
  cases r with
  | stat i => exact hv
  | dyn i =>
      obtain ⟨dr, hdr, rfl⟩ := Option.map_eq_some_iff.mp hv
      rw [node_dyn_eq_some, addDynamic,
        List.getElem?_append_left (List.getElem?_eq_some_iff.mp hdr).1, hdr]

theorem node_addDynamic_new (h : RequestHandler δ ε) :
    h.addDynamic.node (.dyn h.dynamicRoutes.length) = some (.inr {}) := by
  simp [node, addDynamic]

theorem node_setStatic_of_ne {h : RequestHandler δ ε} {i : ℕ} {sr : StaticRouterData} {r : Ref}
    (hr : r ≠ .stat i) : (h.setStatic i sr).node r = h.node r := by
  cases r with
  | stat j =>
      have hne : i ≠ j := fun heq => hr (heq ▸ rfl)
      simp [node, setStatic, List.getElem?_set_ne hne]
  | dyn j => rfl

theorem node_setStatic_self {h : RequestHandler δ ε} {i : ℕ} {v} (sr : StaticRouterData)
    (hv : h.node (.stat i) = some v) : (h.setStatic i sr).node (.stat i) = some (.inl sr) := by
  obtain ⟨sr', hsr', -⟩ := Option.map_eq_some_iff.mp hv
  rw [node_stat_eq_some, setStatic, List.getElem?_set_self (List.getElem?_eq_some_iff.mp hsr').1]

theorem node_setDynamic_of_ne {h : RequestHandler δ ε} {i : ℕ} {dr : DynamicRouterData} {r : Ref}
    (hr : r ≠ .dyn i) : (h.setDynamic i dr).node r = h.node r := by
  cases r with
  | stat j => rfl
  | dyn j =>
      have hne : i ≠ j := fun heq => hr (heq ▸ rfl)
      simp [node, setDynamic, List.getElem?_set_ne hne]

theorem node_setDynamic_self {h : RequestHandler δ ε} {i : ℕ} {v} (dr : DynamicRouterData)
    (hv : h.node (.dyn i) = some v) : (h.setDynamic i dr).node (.dyn i) = some (.inr dr) := by
  obtain ⟨dr', hdr', -⟩ := Option.map_eq_some_iff.mp hv
  rw [node_dyn_eq_some, setDynamic, List.getElem?_set_self (List.getElem?_eq_some_iff.mp hdr').1]

theorem node_stat_length (h : RequestHandler δ ε) :
    h.node (.stat h.staticRoutes.length) = none := by
  simp [node]

theorem node_dyn_length (h : RequestHandler δ ε) :
    h.node (.dyn h.dynamicRoutes.length) = none := by
  simp [node]

theorem bind_eq_ok {η α β : Type} {x : Except η α} {f : α → Except η β} {b : β} :
    (x >>= f) = .ok b ↔ ∃ a, x = .ok a ∧ f a = .ok b := by
  cases x with
  | error e => simp [bind, Except.bind]
  | ok a => simp [bind, Except.bind]

theorem push_bind_ok {α β : Type} {cap : Capacity} {xs : List α} {x : α} {f : List α → β}
    {b : β} : (push cap xs x >>= fun ys => pure (f ys)) = .ok b ↔
      xs.length < cap.maxSize ∧ b = f (xs ++ [x]) := by
  rw [bind_eq_ok]
  constructor
  · rintro ⟨ys, hpush, hret⟩
    obtain ⟨hlt, rfl⟩ := push_ok.mp hpush
    exact ⟨hlt, (Except.ok.inj hret).symm⟩
  · rintro ⟨hlt, rfl⟩
    exact ⟨_, push_ok.mpr ⟨hlt, rfl⟩, rfl⟩

theorem createStaticRoute_ok {cap : Capacity} {h h' : RequestHandler δ ε} {id : UInt32} :
    createStaticRoute cap h = .ok (id, h') ↔
      h.staticRoutes.length < cap.maxSize ∧ id = UInt32.ofNat h.staticRoutes.length ∧
        h' = h.addStatic := by
  rw [createStaticRoute, push_bind_ok, Prod.mk.injEq, List.length_append]
  rfl

theorem createDynamicRoute_ok {cap : Capacity} {h h' : RequestHandler δ ε} {id : UInt32} :
    createDynamicRoute cap h = .ok (id, h') ↔
      h.dynamicRoutes.length < cap.maxSize ∧
        id = 0x80000000 ||| UInt32.ofNat h.dynamicRoutes.length ∧
        h' = h.addDynamic := by
  rw [createDynamicRoute, push_bind_ok, Prod.mk.injEq, List.length_append]
  rfl

/-! ## One segment -/

variable {cap : Capacity} {h h' : RequestHandler δ ε} {c c' : Cursor} {s : Bytes} {b : Bool}

theorem at?_of_isSome_stat {i : ℕ} (hi : (h.node (.stat i)).isSome) :
    ∃ sr, at? h.staticRoutes i = .ok sr := by
  obtain ⟨v, hv⟩ := Option.isSome_iff_exists.mp hi
  obtain ⟨sr, hsr, -⟩ := Option.map_eq_some_iff.mp hv
  exact ⟨sr, at?_ok.mpr hsr⟩

theorem at?_of_isSome_dyn {i : ℕ} (hi : (h.node (.dyn i)).isSome) :
    ∃ dr, at? h.dynamicRoutes i = .ok dr := by
  obtain ⟨v, hv⟩ := Option.isSome_iff_exists.mp hi
  obtain ⟨dr, hdr, -⟩ := Option.map_eq_some_iff.mp hv
  exact ⟨dr, at?_ok.mpr hdr⟩

/-- A segment that a static node knows is followed. -/
theorem insertSegment_follow_static {sr : StaticRouterData} {id : UInt32} (hc : c.dptr = none)
    (hs : h.staticRoutes[c.sptr]? = some sr) (hl : sr.map.lookup s = some id)
    (hid : (h.node (refOf id)).isSome) :
    insertSegment cap h c s b = .ok (h, c.goto id) := by
  have hat : at? h.staticRoutes c.sptr = .ok sr := at?_ok.mpr hs
  rw [refOf] at hid
  by_cases hdyn : isDynamic id = true
  · rw [if_pos hdyn] at hid
    obtain ⟨dr, hdr⟩ := at?_of_isSome_dyn hid
    simp [insertSegment, hc, hat, hl, hdyn, hdr, Cursor.goto, bind, Except.bind, pure, Except.pure]
  · rw [if_neg hdyn] at hid
    obtain ⟨sr', hsr'⟩ := at?_of_isSome_stat hid
    simp [insertSegment, hc, hat, hl, hdyn, hsr', Cursor.goto, bind, Except.bind, pure, Except.pure]

/-- A dynamic node with a successor is followed by any segment. -/
theorem insertSegment_follow_dynamic {d : ℕ} {dr : DynamicRouterData} (hc : c.dptr = some d)
    (hd : h.dynamicRoutes[d]? = some dr) (hset : dr.idPtr ≠ unset)
    (hid : (h.node (refOf dr.idPtr)).isSome) :
    insertSegment cap h c s b = .ok (h, c.goto dr.idPtr) := by
  have hat : at? h.dynamicRoutes d = .ok dr := at?_ok.mpr hd
  rw [refOf] at hid
  by_cases hdyn : isDynamic dr.idPtr = true
  · rw [if_pos hdyn] at hid
    obtain ⟨dr', hdr'⟩ := at?_of_isSome_dyn hid
    simp [insertSegment, hc, hat, hset, hdyn, hdr', Cursor.goto, bind, Except.bind, pure,
      Except.pure]
  · rw [if_neg hdyn] at hid
    obtain ⟨sr', hsr'⟩ := at?_of_isSome_stat hid
    simp [insertSegment, hc, hat, hset, hdyn, hsr', Cursor.goto, bind, Except.bind, pure,
      Except.pure]

/-- The end of a step: the cursor moves to the node of the id. -/
theorem arrive_ok {id : UInt32}
    (hok : (if isDynamic id = true then do
          let _ ← at? h.dynamicRoutes (getPos id)
          pure (h, ({ prevId := id, sptr := c.sptr, dptr := some (getPos id) } : Cursor))
        else do
          let _ ← at? h.staticRoutes id.toNat
          pure (h, ({ prevId := id, sptr := id.toNat, dptr := none } : Cursor))) =
      Except.ok (h', c')) : h' = h ∧ c' = c.goto id := by
  by_cases hdyn : isDynamic id = true
  · rw [if_pos hdyn, bind_eq_ok] at hok
    obtain ⟨-, -, hpair⟩ := hok
    obtain ⟨rfl, rfl⟩ := Prod.mk.inj (Except.ok.inj hpair)
    simp [Cursor.goto, hdyn]
  · rw [if_neg hdyn, bind_eq_ok] at hok
    obtain ⟨-, -, hpair⟩ := hok
    obtain ⟨rfl, rfl⟩ := Prod.mk.inj (Except.ok.inj hpair)
    simp [Cursor.goto, hdyn]

/-- A segment that a static node does not know gets a new static node. -/
theorem insertSegment_new_static {sr : StaticRouterData} (hc : c.dptr = none)
    (hcons : c.Consistent) (hs : h.staticRoutes[c.sptr]? = some sr)
    (hl : sr.map.lookup s = none) (hok : insertSegment cap h c s false = .ok (h', c')) :
    h.staticRoutes.length < cap.maxSize ∧
      h' = h.addStatic.setStatic c.sptr (sr.link s (UInt32.ofNat h.staticRoutes.length)) ∧
      c' = c.goto (UInt32.ofNat h.staticRoutes.length) := by
  have hat : at? h.staticRoutes c.sptr = .ok sr := at?_ok.mpr hs
  have hlt := (List.getElem?_eq_some_iff.mp hs).1
  simp only [insertSegment, hc, bind_eq_ok, hat, Except.ok.injEq, exists_eq_left', hl,
    Bool.false_eq_true, if_false, hcons.prev_stat hc] at hok
  obtain ⟨⟨id, h₁⟩, hcreate, sr', hsr', tail, htail, hok⟩ := hok
  obtain ⟨hroom, rfl, rfl⟩ := createStaticRoute_ok.mp hcreate
  obtain rfl : sr' = sr := by
    have hget : h.addStatic.staticRoutes[c.sptr]? = some sr := by
      rw [addStatic, List.getElem?_append_left hlt, hs]
    simpa [hget] using (at?_ok.mp hsr').symm
  obtain rfl := Except.ok.inj htail
  obtain ⟨rfl, rfl⟩ := arrive_ok hok
  exact ⟨hroom, rfl, rfl⟩

/-- Before a parameter, a segment that a static node does not know gets a new
dynamic node. -/
theorem insertSegment_new_dynamic {sr : StaticRouterData} (hc : c.dptr = none)
    (hs : h.staticRoutes[c.sptr]? = some sr)
    (hl : sr.map.lookup s = none) (hok : insertSegment cap h c s true = .ok (h', c')) :
    h.dynamicRoutes.length < cap.maxSize ∧
      h' = h.addDynamic.setStatic c.sptr
        (sr.link s (0x80000000 ||| UInt32.ofNat h.dynamicRoutes.length)) ∧
      c' = c.goto (0x80000000 ||| UInt32.ofNat h.dynamicRoutes.length) := by
  have hat : at? h.staticRoutes c.sptr = .ok sr := at?_ok.mpr hs
  simp only [insertSegment, hc, bind_eq_ok, hat, Except.ok.injEq, exists_eq_left', hl,
    if_true] at hok
  obtain ⟨⟨id, h₁⟩, hcreate, tail, htail, hok⟩ := hok
  obtain ⟨hroom, rfl, rfl⟩ := createDynamicRoute_ok.mp hcreate
  obtain rfl := Except.ok.inj htail
  obtain ⟨rfl, rfl⟩ := arrive_ok hok
  exact ⟨hroom, rfl, rfl⟩

theorem substring_drop_one (hs : s ≠ []) : substring s 1 s.length = .ok (s.drop 1) := by
  have hpos : 1 ≤ s.length := List.length_pos_iff.mpr hs
  simp [substring, hpos, Scan.slice]

/-- A parameter read by a dynamic node without successor names the node and gives
it a new static successor. -/
theorem insertSegment_name_static {d : ℕ} (hc : c.dptr = some d)
    (hd : h.dynamicRoutes[d]? = some {}) (hs : s ≠ [])
    (hok : insertSegment cap h c s false = .ok (h', c')) :
    h.staticRoutes.length < cap.maxSize ∧
      h' = h.addStatic.setDynamic d
        { name := s.drop 1, idPtr := UInt32.ofNat h.staticRoutes.length } ∧
      c' = c.goto (UInt32.ofNat h.staticRoutes.length) := by
  have hat : at? h.dynamicRoutes d = .ok {} := at?_ok.mpr hd
  have hlt := (List.getElem?_eq_some_iff.mp hd).1
  simp only [insertSegment, hc, bind_eq_ok, hat, Except.ok.injEq, exists_eq_left', ne_eq,
    not_true_eq_false, if_false, if_true, substring_drop_one hs, Bool.false_eq_true] at hok
  obtain ⟨⟨id, h₁⟩, hcreate, name, hname, dr, hdr, -, -, hpair⟩ := hok
  obtain ⟨hroom, rfl, rfl⟩ := createStaticRoute_ok.mp hcreate
  obtain rfl := Except.ok.inj hname
  have hroom' := hroom.trans cap.lt_signBit
  obtain rfl : dr = { name := s.drop 1, idPtr := UInt32.ofNat h.staticRoutes.length } := by
    have hset := at?_ok.mp hdr
    rw [setDynamic, List.getElem?_set_self (by simpa [addStatic] using hlt)] at hset
    exact (Option.some.inj hset).symm
  obtain ⟨rfl, rfl⟩ := Prod.mk.inj (Except.ok.inj hpair)
  refine ⟨hroom, rfl, ?_⟩
  have hstat : isDynamic (UInt32.ofNat h.staticRoutes.length) = false := by
    rw [Bool.eq_false_iff, ne_eq, isDynamic_iff, toNat_staticId hroom']
    omega
  simp [Cursor.goto, hstat]

/-- Before a further parameter, the successor is a new dynamic node; the static
node made first stays without a link to it. -/
theorem insertSegment_name_dynamic {d : ℕ} (hc : c.dptr = some d) (hcons : c.Consistent)
    (hd : h.dynamicRoutes[d]? = some {}) (hs : s ≠ [])
    (hok : insertSegment cap h c s true = .ok (h', c')) :
    h.dynamicRoutes.length < cap.maxSize ∧
      h' = h.addStatic.addDynamic.setDynamic d
        { name := s.drop 1, idPtr := 0x80000000 ||| UInt32.ofNat h.dynamicRoutes.length } ∧
      c' = c.goto (0x80000000 ||| UInt32.ofNat h.dynamicRoutes.length) := by
  have hat : at? h.dynamicRoutes d = .ok {} := at?_ok.mpr hd
  have hlt := (List.getElem?_eq_some_iff.mp hd).1
  simp only [insertSegment, hc, bind_eq_ok, hat, Except.ok.injEq, exists_eq_left', ne_eq,
    not_true_eq_false, if_false, if_true, substring_drop_one hs, hcons.prev_dyn hc] at hok
  obtain ⟨⟨id, h₁⟩, hcreate, name, hname, ⟨id', h₂⟩, hcreate', dr, hdr, hpair⟩ := hok
  obtain ⟨-, rfl, rfl⟩ := createStaticRoute_ok.mp hcreate
  obtain rfl := Except.ok.inj hname
  obtain ⟨hroom, rfl, rfl⟩ := createDynamicRoute_ok.mp hcreate'
  simp only [setDynamic, addStatic, addDynamic, List.length_set] at hroom hpair hdr ⊢
  have hroom' := hroom.trans cap.lt_signBit
  obtain ⟨rfl, rfl⟩ := Prod.mk.inj (Except.ok.inj hpair)
  have hdr' : dr.name = s.drop 1 := by
    have hset := at?_ok.mp hdr
    rw [List.getElem?_append_left (by simpa using hlt),
      List.getElem?_set_self hlt] at hset
    rw [← Option.some.inj hset]
  refine ⟨hroom, ?_, ?_⟩
  · rw [← List.set_append_left _ _ hlt, List.set_set, hdr']
  · have hdyn : isDynamic (0x80000000 ||| UInt32.ofNat h.dynamicRoutes.length) = true := by
      rw [isDynamic_iff, toNat_dynamicId hroom']
      omega
    simp [Cursor.goto, hdyn]

/-! ## The end of a route -/

/-- The handler with the endpoint of a route added at a static node. -/
def withEndpoint (h : RequestHandler δ ε) (i : ℕ) (sr : StaticRouterData) (method : UInt32)
    (callback : RouterCallback δ ε) : RequestHandler δ ε :=
  if sr.endpointPos = -1 then
    { h.setStatic i { sr with endpointPos := h.endpoints.length } with
      endpoints := h.endpoints ++ [method ||| 0x80000000]
      callbacks := h.callbacks ++ [callback] }
  else
    { h with endpoints := h.endpoints ++ [method], callbacks := h.callbacks ++ [callback] }

theorem node_withEndpoint_of_ne {i : ℕ} {r : Ref} (hr : r ≠ .stat i) (sr : StaticRouterData)
    (method : UInt32) (callback : RouterCallback δ ε) :
    (h.withEndpoint i sr method callback).node r = h.node r := by
  cases r with
  | stat j =>
      have hne : i ≠ j := fun heq => hr (heq ▸ rfl)
      by_cases hpos : sr.endpointPos = -1 <;>
        simp [node, withEndpoint, setStatic, hpos, List.getElem?_set_ne hne]
  | dyn j => by_cases hpos : sr.endpointPos = -1 <;> simp [node, withEndpoint, setStatic, hpos]

theorem staticRoutes_withEndpoint {i : ℕ} {sr : StaticRouterData}
    (hs : h.staticRoutes[i]? = some sr) (method : UInt32) (callback : RouterCallback δ ε) :
    (h.withEndpoint i sr method callback).staticRoutes[i]? =
      some { sr with
        endpointPos := if sr.endpointPos = -1 then h.endpoints.length else sr.endpointPos } := by
  have hlt := (List.getElem?_eq_some_iff.mp hs).1
  by_cases hpos : sr.endpointPos = -1
  · simp [withEndpoint, hpos, setStatic, hlt]
  · simp [withEndpoint, hpos, hs]

theorem endpoints_withEndpoint (i : ℕ) (sr : StaticRouterData) (method : UInt32)
    (callback : RouterCallback δ ε) :
    (h.withEndpoint i sr method callback).endpoints =
      h.endpoints ++ [if sr.endpointPos = -1 then method ||| 0x80000000 else method] := by
  by_cases hpos : sr.endpointPos = -1 <;> simp [withEndpoint, hpos]

theorem callbacks_withEndpoint (i : ℕ) (sr : StaticRouterData) (method : UInt32)
    (callback : RouterCallback δ ε) :
    (h.withEndpoint i sr method callback).callbacks = h.callbacks ++ [callback] := by
  by_cases hpos : sr.endpointPos = -1 <;> simp [withEndpoint, hpos]

theorem routers_withEndpoint (i : ℕ) (sr : StaticRouterData) (method : UInt32)
    (callback : RouterCallback δ ε) :
    (h.withEndpoint i sr method callback).routers = h.routers := by
  by_cases hpos : sr.endpointPos = -1 <;> simp [withEndpoint, hpos, setStatic]

theorem dynamicRoutes_withEndpoint (i : ℕ) (sr : StaticRouterData) (method : UInt32)
    (callback : RouterCallback δ ε) :
    (h.withEndpoint i sr method callback).dynamicRoutes = h.dynamicRoutes := by
  by_cases hpos : sr.endpointPos = -1 <;> simp [withEndpoint, hpos, setStatic]

theorem length_staticRoutes_withEndpoint (i : ℕ) (sr : StaticRouterData) (method : UInt32)
    (callback : RouterCallback δ ε) :
    (h.withEndpoint i sr method callback).staticRoutes.length = h.staticRoutes.length := by
  by_cases hpos : sr.endpointPos = -1 <;> simp [withEndpoint, hpos, setStatic]

theorem addEndpoint_ok {i : ℕ} {method : UInt32} {callback : RouterCallback δ ε}
    (hok : addEndpoint cap h i method callback = .ok h') :
    ∃ sr, h.staticRoutes[i]? = some sr ∧ h.endpoints.length < cap.maxSize ∧
      h' = h.withEndpoint i sr method callback := by
  rw [addEndpoint, bind_eq_ok] at hok
  obtain ⟨sr, hsr, hok⟩ := hok
  refine ⟨sr, at?_ok.mp hsr, ?_⟩
  by_cases hpos : sr.endpointPos = -1
  · simp only [hpos, if_true, createEndpoint, bind_eq_ok, push_ok] at hok
    obtain ⟨created, ⟨es, ⟨hroom, rfl⟩, cs, ⟨-, rfl⟩, hcreated⟩, hpair⟩ := hok
    obtain rfl := Except.ok.inj hcreated
    refine ⟨hroom, ?_⟩
    rw [withEndpoint, if_pos hpos, ← Except.ok.inj hpair]
    simp [setStatic]
  · simp only [hpos, if_false, appendEndpoint, bind_eq_ok, push_ok] at hok
    obtain ⟨es, ⟨hroom, rfl⟩, cs, ⟨-, rfl⟩, hpair⟩ := hok
    refine ⟨hroom, ?_⟩
    rw [withEndpoint, if_neg hpos, ← Except.ok.inj hpair]

/-- A route that ends in a static node adds its endpoint there. -/
theorem finishRoute_static {method : UInt32} {callback : RouterCallback δ ε} {d : Option ℕ}
    (hc : c.dptr = none) (hok : finishRoute cap h c method callback = .ok (h', d)) :
    d = none ∧ ∃ sr, h.staticRoutes[c.sptr]? = some sr ∧ h.endpoints.length < cap.maxSize ∧
      h' = h.withEndpoint c.sptr sr method callback := by
  simp only [finishRoute, hc, bind_eq_ok] at hok
  obtain ⟨st, hst, h₁, hadd, hpair⟩ := hok
  obtain rfl := Except.ok.inj hst
  obtain ⟨rfl, rfl⟩ := Prod.mk.inj (Except.ok.inj hpair)
  exact ⟨rfl, addEndpoint_ok hadd⟩

/-- A route that ends in a dynamic node gives it a new static successor and adds
its endpoint there. -/
theorem finishRoute_dynamic {method : UInt32} {callback : RouterCallback δ ε} {d : Option ℕ}
    {i : ℕ} {dr : DynamicRouterData} (hc : c.dptr = some i) (hd : h.dynamicRoutes[i]? = some dr)
    (hok : finishRoute cap h c method callback = .ok (h', d)) :
    d = some i ∧ h.staticRoutes.length < cap.maxSize ∧ h.endpoints.length < cap.maxSize ∧
      h' = (h.addStatic.setDynamic i
          { dr with idPtr := UInt32.ofNat h.staticRoutes.length }).withEndpoint
        h.staticRoutes.length {} method callback := by
  simp only [finishRoute, hc, bind_eq_ok] at hok
  obtain ⟨⟨id, h₁⟩, hcreate, dr', hdr', st, hst, h₂, hadd, hpair⟩ := hok
  obtain ⟨hroom, rfl, rfl⟩ := createStaticRoute_ok.mp hcreate
  obtain rfl : dr' = dr := by
    have hget : h.addStatic.dynamicRoutes[i]? = some dr := hd
    simpa [hget] using (at?_ok.mp hdr').symm
  obtain rfl := Except.ok.inj hst
  obtain ⟨rfl, rfl⟩ := Prod.mk.inj (Except.ok.inj hpair)
  obtain ⟨sr, hsr, hroom', rfl⟩ := addEndpoint_ok hadd
  have hlen : (UInt32.ofNat h.staticRoutes.length).toNat = h.staticRoutes.length :=
    toNat_staticId (hroom.trans cap.lt_signBit)
  rw [hlen] at hsr ⊢
  obtain rfl : sr = {} := by
    simpa [setDynamic, addStatic] using hsr.symm
  exact ⟨rfl, hroom, hroom', rfl⟩

end RequestHandler

end RePlace.Http
