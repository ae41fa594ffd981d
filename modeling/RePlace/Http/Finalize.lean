import RePlace.Http.Refinement

/-!
# What `finalize` builds

`finalize_refines` shows that the handler stands for the layout of its table.
The dynamic pointer that `finalize` keeps from one route to the next makes the
next route start at the end of the last one, which is inserting it behind the
`carry` of the layout (`insertWord_carry`).
-/

namespace RePlace.Http

open PatternTrie (insert sub owner isWild startsParam)
open Scan (scan slice foldSegments segmentsAfter)

/-! ## The order of the routes -/

theorem RouterKey.compare_of_path_eq {a b : RouterKey} (h : a.path = b.path) :
    a.compare b = a.method - b.method := by
  simp [compare, (CString.strcmp_eq_zero_iff _ _).mpr h]

theorem RouterKey.compare_of_path_ne {a b : RouterKey} (h : a.path ≠ b.path) :
    a.compare b = CString.strcmp a.path b.path := by
  have hne : CString.strcmp a.path b.path ≠ 0 := (CString.strcmp_eq_zero_iff _ _).not.mpr h
  simp [compare, hne]

theorem RouterKey.compare_lt_iff {a b : RouterKey} : a.compare b < 0 ↔
    CString.strcmp a.path b.path < 0 ∨ a.path = b.path ∧ a.method < b.method := by
  by_cases h : a.path = b.path
  · have hzero := (CString.strcmp_eq_zero_iff _ _).mpr h
    rw [compare_of_path_eq h, sub_neg, hzero]
    simp [h]
  · rw [compare_of_path_ne h]
    simp [h]

theorem RouterKey.compare_lawful : OrderedMap.LawfulComparator RouterKey.compare where
  swap a b := by
    have hswap := CString.strcmp_swap a.path b.path
    by_cases h : a.path = b.path
    · rw [compare_of_path_eq h, compare_of_path_eq h.symm]
      omega
    · rw [compare_of_path_ne h, compare_of_path_ne (Ne.symm h)]
      omega
  eq_iff a b := by
    by_cases h : a.path = b.path
    · rw [compare_of_path_eq h, sub_eq_zero]
      exact ⟨fun hm => by cases a; cases b; simp_all, fun hab => by rw [hab]⟩
    · rw [compare_of_path_ne h, CString.strcmp_eq_zero_iff]
      exact ⟨fun hp => absurd hp h, fun hab => by rw [hab]⟩
  trans {a b c} hab hbc := by
    rw [compare_lt_iff] at hab hbc ⊢
    rcases hab with hab | ⟨hab, hm⟩ <;> rcases hbc with hbc | ⟨hbc, hm'⟩
    · exact .inl (CString.strcmp_trans hab hbc)
    · exact .inl (hbc ▸ hab)
    · exact .inl (hab ▸ hbc)
    · exact .inr ⟨hab.trans hbc, hm.trans hm'⟩

variable {δ ε : Type}

/-- The key of a route. -/
def Router.key (r : Router δ ε) : RouterKey := ⟨r.path, r.method⟩

/-- The callback of a route. -/
def Router.callback (r : Router δ ε) : RouterCallback δ ε := ⟨r.data, r.endpoint⟩

/-! ## The segments of a route -/

@[simp] theorem isParam_nil : isParam [] = false := rfl

@[simp] theorem isParam_cons (a : UInt8) (s : Bytes) :
    isParam (a :: s) = decide (a = dynamicPrefix) := by
  simp [isParam]

/-- The first segment of a text is a parameter when the text starts with one. -/
theorem startsParam_splitOn (s : Bytes) : startsParam isParam (s.splitOn slash) = isParam s := by
  cases s with
  | nil => rfl
  | cons a s =>
      rw [List.splitOn_cons_eq_if_modifyHead]
      by_cases ha : a = slash
      · subst ha
        rfl
      · obtain ⟨q, rest, hq⟩ := List.exists_cons_of_ne_nil (List.splitOn_ne_nil slash s)
        simp [ha, hq, startsParam]

theorem routeSegments_ne_nil (path : CString) : routeSegments path ≠ [] :=
  List.splitOn_ne_nil _ _

namespace RequestHandler

variable {cap : Capacity} {h h' : RequestHandler δ ε}

theorem normalize_ok {path : CString} {s : Bytes} (h : normalize path = .ok s) :
    path.bytes ≠ [] ∧ s = dropTrailingSlash path.bytes := by
  unfold normalize at h
  cases hl : path.bytes.getLast? with
  | none => simp [hl] at h
  | some c =>
      have hne : path.bytes ≠ [] := by
        rintro hnil
        simp [hnil] at hl
      simp only [hl, Except.ok.injEq] at h
      exact ⟨hne, by simp [dropTrailingSlash, hl, ← h]⟩

/-- The loop body reads the piece and looks ahead as the fold does. -/
theorem insertPiece_eq (path : Bytes) (st : RequestHandler δ ε × Cursor) {start stop : ℕ}
    (hle : start ≤ stop) (hstop : stop ≤ path.length) :
    insertPiece cap path st start stop =
      insertNext cap st (slice path start stop) (segmentsAfter slash path path.length stop) := by
  have hahead : startsParam isParam (segmentsAfter slash path path.length stop) =
      (stop + 1 < path.length ∧ path[stop + 1]? = some dynamicPrefix : Bool) := by
    unfold segmentsAfter
    by_cases hlt : stop < path.length
    · rw [if_pos hlt, startsParam_splitOn, slice, List.take_length, isParam, List.head?_drop]
      by_cases hlt' : stop + 1 < path.length <;> simp [hlt']
    · rw [if_neg hlt]
      have : ¬ stop + 1 < path.length := by omega
      simp [this, startsParam]
  simp only [insertPiece, substring, hle, hstop, and_self, if_true, insertNext, hahead]

/-- Where the builder starts a route. -/
def start (dptr : Option ℕ) : Cursor := { prevId := 0, sptr := 0, dptr := dptr }

/-- The loop of `finalize` over a path is the fold over its segments. -/
theorem scan_insertPiece (path : Bytes) {k : ℕ} (hk : k ≤ path.length)
    (st : RequestHandler δ ε × Cursor) :
    scan slash path path.length (insertPiece cap path) (path.length + 1 - k) k k st =
      foldSegments (insertNext cap) st ((path.drop k).splitOn slash) := by
  have hslice : slice path k path.length = path.drop k := by rw [slice, List.take_length]
  rw [Scan.scan_eq_foldSegments le_rfl (fun st _ _ => insertPiece_eq path st) k hk, hslice]

/-- A route is built as the word of its segments. -/
theorem insertRoute_eq {route : RouterKey × RouterCallback δ ε} {d d' : Option ℕ}
    (hok : insertRoute cap (h, d) route = .ok (h', d')) :
    insertWord cap (UInt32.ofInt route.1.method) route.2 (h, start d)
      (routeSegments route.1.path) = .ok (h', d') := by
  simp only [insertRoute, bind_eq_ok] at hok
  obtain ⟨path, hpath, ⟨h₁, c⟩, hscan, hfin⟩ := hok
  obtain ⟨-, rfl⟩ := normalize_ok hpath
  rw [insertWord, bind_eq_ok, routeSegments]
  refine ⟨(h₁, c), ?_, hfin⟩
  by_cases hs : (dropTrailingSlash route.1.path.bytes)[0]? = some slash
  · have hpos := (List.getElem?_eq_some_iff.mp hs).1
    simp only [hs, if_true] at hscan ⊢
    rwa [scan_insertPiece _ hpos] at hscan
  · simp only [hs, if_false] at hscan ⊢
    rwa [scan_insertPiece _ (Nat.zero_le _)] at hscan

/-! ## What is left of the route before -/

section Carry

variable {addr : Ref → Address} {t : PatternTrie Bytes ℕ} {c : Cursor} {method : UInt32}
  {callback : RouterCallback δ ε}

/-- A word whose nodes exist is followed without writing. -/
theorem insertWord_follow {x : List Bytes} (ht : Represents h addr t c.ref)
    (hx : sub t x ≠ .absent) (y : List Bytes) :
    ∃ c', insertWord cap method callback (h, c) (x ++ y) =
        insertWord cap method callback (h, c') y ∧
      h.walkRef c.ref x = some c'.ref ∧ Represents h addr (sub t x) c'.ref := by
  induction x generalizing t c with
  | nil => exact ⟨c, rfl, by cases hr : c.ref <;> rfl, by simpa using ht⟩
  | cons s x ih =>
      cases t with
      | absent => exact ht.elim
      | lit o ch =>
          obtain ⟨i, sr, hi, hsr, -, hch⟩ := ht
          obtain ⟨hdptr, rfl⟩ := Cursor.ref_eq_stat.mp hi
          have hs := hch s
          cases hl : sr.map.lookup s with
          | none =>
              simp only [hl] at hs
              simp [hs] at hx
          | some id =>
              simp only [hl] at hs
              obtain ⟨v, hv⟩ := hs.2.exists_node
              have hsub : Represents h addr (ch s) (c.goto id).ref := by simpa using hs.2
              obtain ⟨c', heq, hwalk, hrep⟩ := ih hsub (by simpa using hx)
              refine ⟨c', ?_, ?_, hrep⟩
              · rw [List.cons_append, insertWord_cons, insertNext,
                  insertSegment_follow_static hdptr hsr hl (by simp [hv])]
                exact heq
              · rw [hi, walkRef_stat hsr hl, ← hwalk, Cursor.ref_goto]
      | wild n t =>
          obtain ⟨i, dr, hi, hdr, -, hset, -, hsub⟩ := ht
          obtain ⟨v, hv⟩ := hsub.exists_node
          have hsub' : Represents h addr t (c.goto dr.idPtr).ref := by simpa using hsub
          obtain ⟨c', heq, hwalk, hrep⟩ := ih hsub' (by simpa using hx)
          refine ⟨c', ?_, ?_, hrep⟩
          · rw [List.cons_append, insertWord_cons, insertNext,
              insertSegment_follow_dynamic (Cursor.ref_eq_dyn.mp hi) hdr hset (by simp [hv])]
            exact heq
          · rw [hi, walkRef_dyn hdr, ← hwalk, Cursor.ref_goto]

/-- The first segment read from a dynamic node with a static successor leads
there, whatever else the cursor holds. -/
theorem insertWord_from_wild {n : Bytes} {o : Option ℕ} {ch : Bytes → PatternTrie Bytes ℕ}
    {i : ℕ} {c₁ c₂ : Cursor} (ht : Represents h addr (.wild n (.lit o ch)) (.dyn i))
    (h₁ : c₁.dptr = some i) (h₂ : c₂.dptr = some i) (s : Bytes) (x : List Bytes) :
    insertWord cap method callback (h, c₁) (s :: x) =
      insertWord cap method callback (h, c₂) (s :: x) := by
  obtain ⟨j, dr, hj, hdr, -, hset, -, hsub⟩ := ht
  obtain rfl : i = j := by simpa using hj
  obtain ⟨v, hv⟩ := hsub.exists_node
  obtain ⟨k, sr, hk, -⟩ := hsub
  have hstat : isDynamic dr.idPtr = false := by
    rw [Bool.eq_false_iff]
    intro hdyn
    simp [refOf, hdyn] at hk
  rw [insertWord_cons, insertWord_cons, insertNext, insertNext,
    insertSegment_follow_dynamic h₁ hdr hset (by simp [hv]),
    insertSegment_follow_dynamic h₂ hdr hset (by simp [hv])]
  simp [Cursor.goto, hstat]

/-- The handler stands for the layout, and `d` is where its last route has ended. -/
structure Stands (h : RequestHandler δ ε) (d : Option ℕ) (l : Layout) : Prop where
  represents : ∃ addr, Represents h addr l.trie (.stat 0)
  endpoints : h.endpoints = l.endpoints
  carry_none : d = none → l.carry = []
  carry_some : ∀ i, d = some i → l.carry ≠ [] ∧ h.walkRef (.stat 0) l.carry = some (.dyn i)

theorem Stands.carry_eq_nil_iff {d : Option ℕ} {l : Layout} (hst : Stands h d l) :
    l.carry = [] ↔ d = none := by
  refine ⟨fun hnil => ?_, hst.carry_none⟩
  cases d with
  | none => rfl
  | some i => exact absurd hnil (hst.carry_some i rfl).1

/-- Going on where the last route has ended is starting with the carry. -/
theorem insertWord_carry {d : Option ℕ} {l : Layout} (hst : Stands h d l) (hl : l.Carried)
    {x : List Bytes} (hx : x ≠ []) :
    insertWord cap method callback (h, start d) x =
      insertWord cap method callback (h, start none) (l.word x) := by
  obtain ⟨s, x, rfl⟩ := List.exists_cons_of_ne_nil hx
  cases d with
  | none => rw [Layout.word, hst.carry_none rfl, List.nil_append]
  | some i =>
      obtain ⟨hne, hwalk⟩ := hst.carry_some i rfl
      obtain ⟨n, k, hsub⟩ := hl hne
      obtain ⟨addr, hrep⟩ := hst.represents
      have hroot : Represents h addr l.trie (start none).ref := hrep
      obtain ⟨c', heq, hwalk', hrep'⟩ := @insertWord_follow _ _ cap h addr l.trie (start none)
        method callback l.carry hroot (by simp [hsub]) (s :: x)
      have hc' : c'.ref = .dyn i := by
        have hsame : h.walkRef (.stat 0) l.carry = some c'.ref := hwalk'
        simpa [hwalk] using hsame.symm
      rw [hsub, hc'] at hrep'
      rw [Layout.word, heq]
      exact insertWord_from_wild hrep' rfl (Cursor.ref_eq_dyn.mp hc') s x

/-- One route of `finalize` adds its segments to the layout. -/
theorem Stands.insertRoute {d d' : Option ℕ} {l : Layout} (hst : Stands h d l) (hl : l.Carried)
    {route : RouterKey × RouterCallback δ ε}
    (hok : insertRoute cap (h, d) route = .ok (h', d')) :
    Stands h' d' (l.addRoute (routeSegments route.1.path) (UInt32.ofInt route.1.method)) ∧
      h'.callbacks = h.callbacks ++ [route.2] ∧ h.endpoints.length < 2 ^ 31 := by
  have hword := insertRoute_eq hok
  rw [insertWord_carry hst hl (routeSegments_ne_nil _)] at hword
  obtain ⟨addr, hrep⟩ := hst.represents
  obtain ⟨addr', hins, hd, hwalk⟩ := insertWord_refines cap _ route.2 _ h h' addr l.trie
    (start none) d' hrep rfl hword
  refine ⟨⟨⟨addr', ?_⟩, ?_, ?_, ?_⟩, hins.callbacks, hins.room⟩
  · rw [Layout.addRoute, ← hst.endpoints]
    exact hins.represents
  · rw [Layout.addRoute, ← hst.endpoints]
    exact hins.endpoints
  · rintro rfl
    simp [Layout.addRoute, ← hd]
  · rintro i rfl
    have hw : isWild (sub l.trie (l.word (routeSegments route.1.path))) = true := by
      rw [← hd]
      rfl
    simp only [Layout.addRoute, hw, if_true]
    refine ⟨?_, hwalk i rfl⟩
    simp [Layout.word, routeSegments_ne_nil]

end Carry

/-! ## The whole table -/

/-- The handler that holds the routes of a table. -/
def table (routes : List (Router δ ε)) : RequestHandler δ ε := routes.foldl addRoute {}

/-- The routes of a table in the order of their keys. -/
def entries (routes : List (Router δ ε)) : List (RouterKey × RouterCallback δ ε) :=
  OrderedMap.ofList RouterKey.compare [] (routes.map fun r => (r.key, r.callback))

theorem table_eq (routes : List (Router δ ε)) : table routes = { routers := entries routes } := by
  suffices main : ∀ h : RequestHandler δ ε, routes.foldl addRoute h =
      { h with
        routers := OrderedMap.ofList RouterKey.compare h.routers
          (routes.map fun r => (r.key, r.callback)) } from
    main {}
  induction routes with
  | nil => exact fun _ => rfl
  | cons route routes ih => exact fun h => ih (h.addRoute route)

theorem map_fst_entries (routes : List (Router δ ε)) :
    (routes.map fun r => (r.key, r.callback)).map Prod.fst = routes.map Router.key := by
  rw [List.map_map]
  rfl

theorem mem_entries {routes : List (Router δ ε)} (hnd : (routes.map Router.key).Nodup)
    {e : RouterKey × RouterCallback δ ε} :
    e ∈ entries routes ↔ ∃ r ∈ routes, (r.key, r.callback) = e := by
  rw [← map_fst_entries] at hnd
  rw [entries, (OrderedMap.ofList_perm RouterKey.compare_lawful (m := []) hnd).mem_iff]
  simp

theorem entries_increasing (routes : List (Router δ ε)) :
    OrderedMap.Increasing RouterKey.compare (entries routes) :=
  OrderedMap.ofList_increasing RouterKey.compare_lawful List.Pairwise.nil _

/-- What a finalized handler is: the layout of its routes, with their callbacks. -/
structure Finalized (h : RequestHandler δ ε)
    (es : List (RouterKey × RouterCallback δ ε)) : Prop where
  represents : ∃ addr, Represents h addr (Layout.ofKeys (es.map Prod.fst)).trie (.stat 0)
  endpoints : h.endpoints = (Layout.ofKeys (es.map Prod.fst)).endpoints
  callbacks : h.callbacks = es.map Prod.snd
  small : h.endpoints.length ≤ 2 ^ 31

/-- The loop of `finalize` over the routes. -/
theorem foldlM_insertRoute {es : List (RouterKey × RouterCallback δ ε)} {d d' : Option ℕ}
    {l : Layout} (hst : Stands h d l) (hl : l.Carried) (hsmall : h.endpoints.length ≤ 2 ^ 31)
    (hok : es.foldlM (insertRoute cap) (h, d) = .ok (h', d')) :
    Stands h' d' (l.addRoutes ((es.map Prod.fst).map fun k =>
        (routeSegments k.path, UInt32.ofInt k.method))) ∧
      h'.callbacks = h.callbacks ++ es.map Prod.snd ∧ h'.endpoints.length ≤ 2 ^ 31 := by
  induction es generalizing h d l with
  | nil =>
      obtain ⟨rfl, rfl⟩ := Prod.mk.inj (Except.ok.inj hok)
      exact ⟨hst, by simp, hsmall⟩
  | cons e es ih =>
      rw [List.foldlM_cons, bind_eq_ok] at hok
      obtain ⟨⟨h₁, d₁⟩, hstep, hrest⟩ := hok
      obtain ⟨hst₁, hcb, hroom⟩ := hst.insertRoute hl hstep
      have hlen : h₁.endpoints.length = h.endpoints.length + 1 := by
        rw [hst₁.endpoints, hst.endpoints]
        simp [Layout.addRoute]
      obtain ⟨hst', hcb', hsmall'⟩ :=
        ih hst₁ (Layout.Carried.addRoute _ _) (by omega) hrest
      refine ⟨hst', ?_, hsmall'⟩
      rw [hcb', hcb, List.map_cons, List.append_assoc]
      rfl

/-- The state in which the loop of `finalize` starts. -/
def loopStart (routes : List (Router δ ε)) : RequestHandler δ ε × Option ℕ :=
  ({ staticRoutes := [{}], routers := entries routes }, none)

theorem stands_loopStart (routes : List (Router δ ε)) : Stands (loopStart routes).1 none {} :=
  ⟨⟨fun _ => [], represents_empty _ rfl⟩, rfl, fun _ => rfl, by simp⟩

/-- `finalize` runs its loop over all entries and drops the table of the routes. -/
theorem finalize_ok {routes : List (Router δ ε)} (hok : finalize cap (table routes) = .ok h) :
    ∃ h₁ d, (entries routes).foldlM (insertRoute cap) (loopStart routes) = .ok (h₁, d) ∧
      h = { h₁ with routers := [] } := by
  rw [table_eq, finalize, bind_eq_ok] at hok
  obtain ⟨staticRoutes, hpush, hok⟩ := hok
  obtain ⟨-, rfl⟩ := push_ok.mp hpush
  rw [bind_eq_ok] at hok
  obtain ⟨⟨h₁, d⟩, hloop, hok⟩ := hok
  exact ⟨h₁, d, hloop, (Except.ok.inj hok).symm⟩

/-- `finalize` builds the layout of its table. -/
theorem finalize_refines {routes : List (Router δ ε)}
    (hok : finalize cap (table routes) = .ok h) : Finalized h (entries routes) := by
  obtain ⟨h₁, d, hloop, rfl⟩ := finalize_ok hok
  obtain ⟨⟨hrep, hend, -, -⟩, hcb, hsmall⟩ :=
    foldlM_insertRoute (stands_loopStart routes) Layout.carried_empty (Nat.zero_le _) hloop
  obtain ⟨addr, hrep⟩ := hrep
  have hk : Keeps h₁ { h₁ with routers := [] } addr addr fun _ => True :=
    ⟨fun _ _ hv _ => hv, fun _ v hv => ⟨v, hv⟩, fun _ _ _ => rfl⟩
  exact ⟨⟨addr, hrep.keeps hk fun _ _ => trivial⟩, hend, by simpa [loopStart] using hcb, hsmall⟩

/-- The capacity of the sample tables. -/
def sampleCapacity : Capacity := ⟨100, by decide⟩

end RequestHandler

end RePlace.Http
