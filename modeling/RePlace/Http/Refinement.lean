import RePlace.Http.NodeGraph
import RePlace.Http.RouteLayout

/-!
# The node vectors refine the layout

`Represents h addr t r` says that the nodes below `r` are the trie `t`. Every
node has an address, the list of the links that lead to it; a link under a
segment appends that segment, the link of a dynamic node appends `none`. The
addresses keep the parts of the trie apart: writing a node leaves alone every
part whose addresses do not start with the one of the written node.

`insertWord_refines` shows that building one route on the vectors is the
insertion of its word in the trie.
-/

namespace RePlace.Http

open PatternTrie (insert sub owner isWild fresh startsParam)
open Scan (scan slice foldSegments)

/-- The links that lead to a node. -/
abbrev Address := List (Option Bytes)

/-- The endpoint position of a node with the given owner. -/
def endpointPosOf : Option ℕ → ℤ
  | none => -1
  | some i => i

namespace RequestHandler

variable {δ ε : Type}

/-- The nodes below `r` are the trie, at the addresses given. -/
def Represents (h : RequestHandler δ ε) (addr : Ref → Address) :
    PatternTrie Bytes ℕ → Ref → Prop
  | .absent, _ => False
  | .lit o c, r => ∃ i sr, r = .stat i ∧ h.staticRoutes[i]? = some sr ∧
      sr.endpointPos = endpointPosOf o ∧
      ∀ s, match sr.map.lookup s with
        | none => c s = .absent
        | some id => addr (refOf id) = addr r ++ [some s] ∧ Represents h addr (c s) (refOf id)
  | .wild n t, r => ∃ i dr, r = .dyn i ∧ h.dynamicRoutes[i]? = some dr ∧
      dr.name = n.drop 1 ∧ dr.idPtr ≠ unset ∧
      addr (refOf dr.idPtr) = addr r ++ [none] ∧ Represents h addr t (refOf dr.idPtr)

/-- `h'` keeps the nodes of `h` whose address satisfies `keep`, and all
addresses. -/
structure Keeps (h h' : RequestHandler δ ε) (addr addr' : Ref → Address)
    (keep : Address → Prop) : Prop where
  node_eq : ∀ r v, h.node r = some v → keep (addr r) → h'.node r = some v
  node_exists : ∀ r v, h.node r = some v → ∃ v', h'.node r = some v'
  addr_eq : ∀ r v, h.node r = some v → addr' r = addr r

variable {h h' h'' : RequestHandler δ ε} {addr addr' addr'' : Ref → Address}

theorem Represents.exists_node {t : PatternTrie Bytes ℕ} {r : Ref} (ht : Represents h addr t r) :
    ∃ v, h.node r = some v := by
  cases t with
  | absent => exact ht.elim
  | lit o c =>
      obtain ⟨i, sr, rfl, hsr, -⟩ := ht
      exact ⟨_, node_stat_eq_some.mpr hsr⟩
  | wild n t =>
      obtain ⟨i, dr, rfl, hdr, -⟩ := ht
      exact ⟨_, node_dyn_eq_some.mpr hdr⟩

/-- What stands below a kept address is kept. -/
theorem Represents.keeps {t : PatternTrie Bytes ℕ} {r : Ref} {keep : Address → Prop}
    (ht : Represents h addr t r) (hk : Keeps h h' addr addr' keep)
    (hkeep : ∀ a, addr r <+: a → keep a) : Represents h' addr' t r := by
  induction t generalizing r with
  | absent => exact ht.elim
  | lit o c ih =>
      obtain ⟨i, sr, rfl, hsr, hpos, hch⟩ := ht
      have hnode := node_stat_eq_some.mpr hsr
      have haddr : addr' (.stat i) = addr (.stat i) := hk.addr_eq _ _ hnode
      refine ⟨i, sr, rfl,
        node_stat_eq_some.mp (hk.node_eq _ _ hnode (hkeep _ List.prefix_rfl)), hpos, ?_⟩
      intro s
      have hs := hch s
      cases hl : sr.map.lookup s with
      | none => simpa [hl] using hs
      | some id =>
          simp only [hl] at hs ⊢
          obtain ⟨hid, hsub⟩ := hs
          obtain ⟨v, hv⟩ := hsub.exists_node
          refine ⟨by rw [hk.addr_eq _ _ hv, hid, haddr], ih s hsub ?_⟩
          intro a ha
          exact hkeep a ((List.prefix_append _ _).trans (hid ▸ ha))
  | wild n t ih =>
      obtain ⟨i, dr, rfl, hdr, hname, hset, hid, hsub⟩ := ht
      have hnode := node_dyn_eq_some.mpr hdr
      have haddr : addr' (.dyn i) = addr (.dyn i) := hk.addr_eq _ _ hnode
      obtain ⟨v, hv⟩ := hsub.exists_node
      refine ⟨i, dr, rfl,
        node_dyn_eq_some.mp (hk.node_eq _ _ hnode (hkeep _ List.prefix_rfl)), hname, hset,
        by rw [hk.addr_eq _ _ hv, hid, haddr], ih hsub ?_⟩
      intro a ha
      exact hkeep a ((List.prefix_append _ _).trans (hid ▸ ha))

theorem Keeps.trans {keep keep' : Address → Prop} (hk : Keeps h h' addr addr' keep)
    (hk' : Keeps h' h'' addr' addr'' keep') :
    Keeps h h'' addr addr'' fun a => keep a ∧ keep' a where
  node_eq r v hv hboth := by
    have hv' := hk.node_eq r v hv hboth.1
    exact hk'.node_eq r v hv' (by rw [hk.addr_eq r v hv]; exact hboth.2)
  node_exists r v hv := by
    obtain ⟨v', hv'⟩ := hk.node_exists r v hv
    exact hk'.node_exists r v' hv'
  addr_eq r v hv := by
    obtain ⟨v', hv'⟩ := hk.node_exists r v hv
    rw [hk'.addr_eq r v' hv', hk.addr_eq r v hv]

theorem Keeps.mono {keep keep' : Address → Prop} (hk : Keeps h h' addr addr' keep)
    (hsub : ∀ a, keep' a → keep a) : Keeps h h' addr addr' keep' where
  node_eq r v hv ha := hk.node_eq r v hv (hsub _ ha)
  node_exists := hk.node_exists
  addr_eq := hk.addr_eq

/-- Writing one node and giving an address to a new one keeps everything else. -/
theorem keeps_update {r₀ rnew : Ref}
    (hnode : ∀ r v, h.node r = some v → r ≠ r₀ → h'.node r = some v)
    (hsame : ∀ v, h.node r₀ = some v → ∃ v', h'.node r₀ = some v')
    (hnew : h.node rnew = none) (a : Address) :
    Keeps h h' addr (Function.update addr rnew a) fun b => b ≠ addr r₀ where
  node_eq r v hv hne := hnode r v hv fun heq => hne (heq ▸ rfl)
  node_exists r v hv := by
    by_cases hr : r = r₀
    · exact hr ▸ hsame v (hr ▸ hv)
    · exact ⟨v, hnode r v hv hr⟩
  addr_eq r v hv := by
    have hne : r ≠ rnew := by
      rintro rfl
      rw [hnew] at hv
      cases hv
    simp [hne]

/-! ## Addresses that lie apart -/

theorem ne_of_child {a b : Address} {s : Option Bytes} (h : a ++ [s] <+: b) : b ≠ a := by
  rintro rfl
  have := h.length_le
  simp at this

theorem not_child_self (a : Address) (s : Option Bytes) : ¬ a ++ [s] <+: a :=
  fun h => ne_of_child h rfl

theorem not_prefix_of_sibling {a b : Address} {s s' : Option Bytes} (hne : s ≠ s')
    (h : a ++ [s] <+: b) : ¬ a ++ [s'] <+: b := by
  intro h'
  have heq : a ++ [s] = a ++ [s'] :=
    (List.prefix_of_prefix_length_le h h' (by simp)).eq_of_length (by simp)
  exact hne (by simpa using heq)

/-! ## Putting a subtree back -/

/-- A static node whose link under `s` leads to a new subtree. -/
theorem Represents.lit_update {o : Option ℕ} {c : Bytes → PatternTrie Bytes ℕ} {i : ℕ} {s : Bytes}
    {t : PatternTrie Bytes ℕ} {sr sr' : StaticRouterData} {id : UInt32} {keep : Address → Prop}
    (ht : Represents h addr (.lit o c) (.stat i)) (hsr : h.staticRoutes[i]? = some sr)
    (hsr' : h'.staticRoutes[i]? = some sr') (hpos : sr'.endpointPos = sr.endpointPos)
    (hs : sr'.map.lookup s = some id)
    (hother : ∀ s', s' ≠ s → sr'.map.lookup s' = sr.map.lookup s')
    (hid : addr' (refOf id) = addr (.stat i) ++ [some s])
    (hsub : Represents h' addr' t (refOf id))
    (hk : Keeps h h' addr addr' keep)
    (hkeep : ∀ s' a, s' ≠ s → addr (.stat i) ++ [some s'] <+: a → keep a) :
    Represents h' addr' (.lit o (Function.update c s t)) (.stat i) := by
  obtain ⟨j, sr₀, hj, hsr₀, hpos₀, hch⟩ := ht
  obtain rfl : i = j := by simpa using hj
  obtain rfl : sr₀ = sr := by simpa [hsr₀] using hsr
  have haddr : addr' (.stat i) = addr (.stat i) := hk.addr_eq _ _ (node_stat_eq_some.mpr hsr)
  refine ⟨i, sr', rfl, hsr', by rw [hpos, hpos₀], ?_⟩
  intro s'
  by_cases heq : s' = s
  · subst heq
    simp only [hs, Function.update_self, haddr]
    exact ⟨hid, hsub⟩
  · have hs' := hch s'
    rw [hother s' heq]
    cases hl : sr₀.map.lookup s' with
    | none => simpa [hl, heq] using hs'
    | some id' =>
        simp only [hl] at hs' ⊢
        obtain ⟨hid', hsub'⟩ := hs'
        obtain ⟨v, hv⟩ := hsub'.exists_node
        rw [Function.update_of_ne heq]
        exact ⟨by rw [hk.addr_eq _ _ hv, hid', haddr],
          hsub'.keeps hk fun a ha => hkeep s' a heq (hid' ▸ ha)⟩

/-- A new static node is an empty trie. -/
theorem represents_empty (addr : Ref → Address) {i : ℕ} (hi : h.staticRoutes[i]? = some {}) :
    Represents h addr PatternTrie.empty (.stat i) :=
  ⟨i, {}, rfl, hi, rfl, fun _ => rfl⟩

/-! ## One word -/

/-- The loop body of `finalize` on segments. -/
def insertNext (cap : Capacity) (st : RequestHandler δ ε × Cursor) (s : Bytes)
    (rest : List Bytes) : Except Abort (RequestHandler δ ε × Cursor) :=
  insertSegment cap st.1 st.2 s (startsParam isParam rest)

/-- The segments of a route, then its end. -/
def insertWord (cap : Capacity) (method : UInt32) (callback : RouterCallback δ ε)
    (st : RequestHandler δ ε × Cursor) (word : List Bytes) :
    Except Abort (RequestHandler δ ε × Option ℕ) := do
  let st ← foldSegments (insertNext cap) st word
  finishRoute cap st.1 st.2 method callback

theorem insertWord_nil (cap : Capacity) (method : UInt32) (callback : RouterCallback δ ε)
    (st : RequestHandler δ ε × Cursor) :
    insertWord cap method callback st [] = finishRoute cap st.1 st.2 method callback := rfl

theorem insertWord_cons (cap : Capacity) (method : UInt32) (callback : RouterCallback δ ε)
    (st : RequestHandler δ ε × Cursor) (s : Bytes) (word : List Bytes) :
    insertWord cap method callback st (s :: word) =
      (insertNext cap st s word >>= fun st => insertWord cap method callback st word) := by
  simp only [insertWord, Scan.foldSegments_cons, bind_assoc]

/-- The node a word leads to. -/
def walkRef (h : RequestHandler δ ε) : Ref → List Bytes → Option Ref
  | r, [] => some r
  | .stat i, s :: x =>
      match (h.staticRoutes[i]?).bind fun sr => sr.map.lookup s with
      | some id => walkRef h (refOf id) x
      | none => none
  | .dyn i, _ :: x =>
      match h.dynamicRoutes[i]? with
      | some dr => walkRef h (refOf dr.idPtr) x
      | none => none

/-- What building one word does: below `r` stands the new trie, everything else
is kept, and one endpoint has been added. -/
structure Inserted (h h' : RequestHandler δ ε) (addr addr' : Ref → Address) (r : Ref)
    (t : PatternTrie Bytes ℕ) (endpoint : UInt32) (callback : RouterCallback δ ε) : Prop where
  represents : Represents h' addr' t r
  keeps : Keeps h h' addr addr' fun a => ¬ addr r <+: a
  endpoints : h'.endpoints = h.endpoints ++ [endpoint]
  callbacks : h'.callbacks = h.callbacks ++ [callback]
  routers : h'.routers = h.routers
  room : h.endpoints.length < 2 ^ 31

/-- `h₁` is `h` with the node `r₀` written, so that its link `l` leads to `r₁`. -/
structure Linked (h h₁ : RequestHandler δ ε) (addr addr₁ : Ref → Address) (r₀ : Ref)
    (l : Option Bytes) (r₁ : Ref) : Prop where
  keeps : Keeps h h₁ addr addr₁ fun a => a ≠ addr r₀
  above : ∃ v, h.node r₀ = some v
  below : ∃ v, h₁.node r₁ = some v
  addr_below : addr₁ r₁ = addr r₀ ++ [l]
  endpoints : h₁.endpoints = h.endpoints
  callbacks : h₁.callbacks = h.callbacks
  routers : h₁.routers = h.routers

variable {h₁ : RequestHandler δ ε} {addr₁ : Ref → Address} {r₀ r₁ : Ref} {l : Option Bytes}
  {t : PatternTrie Bytes ℕ} {e : UInt32} {callback : RouterCallback δ ε}

theorem Linked.addr_above (hl : Linked h h₁ addr addr₁ r₀ l r₁) : addr₁ r₀ = addr r₀ := by
  obtain ⟨v, hv⟩ := hl.above
  exact hl.keeps.addr_eq r₀ v hv

/-- Following a link writes nothing. -/
theorem Linked.follow {v v'} (hv : h.node r₀ = some v) (hv' : h.node r₁ = some v')
    (haddr : addr r₁ = addr r₀ ++ [l]) : Linked h h addr addr r₀ l r₁ where
  keeps := ⟨fun _ _ hw _ => hw, fun _ w hw => ⟨w, hw⟩, fun _ _ _ => rfl⟩
  above := ⟨v, hv⟩
  below := ⟨v', hv'⟩
  addr_below := haddr
  endpoints := rfl
  callbacks := rfl
  routers := rfl

/-- Creating a node behind a written one. -/
theorem Linked.create (hnode : ∀ r v, h.node r = some v → r ≠ r₀ → h₁.node r = some v)
    {v v₀ v₁} (habove : h.node r₀ = some v) (hwritten : h₁.node r₀ = some v₀)
    (hnew : h.node r₁ = none) (hbelow : h₁.node r₁ = some v₁)
    (hendpoints : h₁.endpoints = h.endpoints) (hcallbacks : h₁.callbacks = h.callbacks)
    (hrouters : h₁.routers = h.routers) (l : Option Bytes) :
    Linked h h₁ addr (Function.update addr r₁ (addr r₀ ++ [l])) r₀ l r₁ where
  keeps := keeps_update hnode (fun _ _ => ⟨v₀, hwritten⟩) hnew _
  above := ⟨v, habove⟩
  below := ⟨v₁, hbelow⟩
  addr_below := Function.update_self ..
  endpoints := hendpoints
  callbacks := hcallbacks
  routers := hrouters

namespace Inserted

/-- Building below a link keeps what stands apart from the node and the link. -/
theorem keeps_below (hi : Inserted h₁ h' addr₁ addr' r₁ t e callback)
    (hl : Linked h h₁ addr addr₁ r₀ l r₁) :
    Keeps h h' addr addr' fun a => a ≠ addr r₀ ∧ ¬ addr r₀ ++ [l] <+: a := by
  have := hl.keeps.trans hi.keeps
  rwa [hl.addr_below] at this

/-- Building below a link keeps the node that has the link. -/
theorem node_above (hi : Inserted h₁ h' addr₁ addr' r₁ t e callback)
    (hl : Linked h h₁ addr addr₁ r₀ l r₁) {v} (hv : h₁.node r₀ = some v) :
    h'.node r₀ = some v := by
  refine hi.keeps.node_eq r₀ v hv ?_
  rw [hl.addr_below, hl.addr_above]
  exact not_child_self _ _

theorem addr_below (hi : Inserted h₁ h' addr₁ addr' r₁ t e callback)
    (hl : Linked h h₁ addr addr₁ r₀ l r₁) : addr' r₁ = addr r₀ ++ [l] := by
  obtain ⟨v, hv⟩ := hl.below
  rw [hi.keeps.addr_eq r₁ v hv, hl.addr_below]

/-- What is built below a link is built below its node. -/
theorem above (hi : Inserted h₁ h' addr₁ addr' r₁ t e callback)
    (hl : Linked h h₁ addr addr₁ r₀ l r₁) {t' : PatternTrie Bytes ℕ}
    (ht' : Represents h' addr' t' r₀) : Inserted h h' addr addr' r₀ t' e callback where
  represents := ht'
  keeps := by
    refine (hi.keeps_below hl).mono fun a ha => ⟨?_, fun hpre => ha ?_⟩
    · rintro rfl
      exact ha List.prefix_rfl
    · exact (List.prefix_append _ _).trans hpre
  endpoints := by rw [hi.endpoints, hl.endpoints]
  callbacks := by rw [hi.callbacks, hl.callbacks]
  routers := by rw [hi.routers, hl.routers]
  room := hl.endpoints ▸ hi.room

/-- A static node whose link under `s` leads to what is built. -/
theorem lit_child {o : Option ℕ} {c : Bytes → PatternTrie Bytes ℕ} {i : ℕ} {s : Bytes}
    {sr sr₁ : StaticRouterData} {id : UInt32}
    (hi : Inserted h₁ h' addr₁ addr' (refOf id) t e callback)
    (hl : Linked h h₁ addr addr₁ (.stat i) (some s) (refOf id))
    (ht : Represents h addr (.lit o c) (.stat i)) (hsr : h.staticRoutes[i]? = some sr)
    (hsr₁ : h₁.staticRoutes[i]? = some sr₁) (hpos : sr₁.endpointPos = sr.endpointPos)
    (hs : sr₁.map.lookup s = some id)
    (hother : ∀ s', s' ≠ s → sr₁.map.lookup s' = sr.map.lookup s') :
    Inserted h h' addr addr' (.stat i) (.lit o (Function.update c s t)) e callback := by
  have hsr' : h'.staticRoutes[i]? = some sr₁ :=
    node_stat_eq_some.mp (hi.node_above hl (node_stat_eq_some.mpr hsr₁))
  refine hi.above hl (ht.lit_update hsr hsr' hpos hs hother (hi.addr_below hl) hi.represents
    (hi.keeps_below hl) ?_)
  intro s' a hne hpre
  exact ⟨ne_of_child hpre, not_prefix_of_sibling (by simpa using hne) hpre⟩

/-- A dynamic node whose successor is what is built. -/
theorem wild_next {n : Bytes} {i : ℕ} {dr : DynamicRouterData}
    (hi : Inserted h₁ h' addr₁ addr' (refOf dr.idPtr) t e callback)
    (hl : Linked h h₁ addr addr₁ (.dyn i) none (refOf dr.idPtr))
    (hdr : h₁.dynamicRoutes[i]? = some dr) (hname : dr.name = n.drop 1)
    (hset : dr.idPtr ≠ unset) :
    Inserted h h' addr addr' (.dyn i) (.wild n t) e callback := by
  have hnode := node_dyn_eq_some.mpr hdr
  have hdr' : h'.dynamicRoutes[i]? = some dr := node_dyn_eq_some.mp (hi.node_above hl hnode)
  have haddr : addr' (.dyn i) = addr (.dyn i) := by
    rw [hi.keeps.addr_eq _ _ hnode, hl.addr_above]
  exact hi.above hl ⟨i, dr, rfl, hdr', hname, hset, by rw [hi.addr_below hl, haddr],
    hi.represents⟩

end Inserted

/-! ## The end of a word -/

theorem endpointPosOf_eq_neg_one {o : Option ℕ} : endpointPosOf o = -1 ↔ o = none := by
  cases o with
  | none => simp [endpointPosOf]
  | some i => simp [endpointPosOf]

theorem inserted_withEndpoint {o : Option ℕ} {c : Bytes → PatternTrie Bytes ℕ} {i : ℕ}
    {sr : StaticRouterData} (ht : Represents h addr (.lit o c) (.stat i))
    (hsr : h.staticRoutes[i]? = some sr) (hroom : h.endpoints.length < 2 ^ 31)
    (method : UInt32) (callback : RouterCallback δ ε) :
    Inserted h (h.withEndpoint i sr method callback) addr addr (.stat i)
      (insert isParam (.lit o c) [] h.endpoints.length) (entryOf o method) callback := by
  have hnode := node_stat_eq_some.mpr hsr
  have hwritten := staticRoutes_withEndpoint hsr method callback
  have hk : Keeps h (h.withEndpoint i sr method callback) addr addr
      fun a => a ≠ addr (.stat i) := by
    refine ⟨fun r v hv hne => ?_, fun r v hv => ?_, fun _ _ _ => rfl⟩
    · rw [node_withEndpoint_of_ne (fun heq => hne (heq ▸ rfl)), hv]
    · by_cases hr : r = .stat i
      · exact ⟨_, hr ▸ node_stat_eq_some.mpr hwritten⟩
      · exact ⟨v, by rw [node_withEndpoint_of_ne hr, hv]⟩
  obtain ⟨j, sr₀, hj, hsr₀, hpos, hch⟩ := ht
  obtain rfl : i = j := by simpa using hj
  obtain rfl : sr₀ = sr := by simpa [hsr₀] using hsr
  have hmark : sr₀.endpointPos = -1 ↔ o = none := by rw [hpos, endpointPosOf_eq_neg_one]
  refine ⟨⟨i, _, rfl, hwritten, ?_, ?_⟩, ?_, ?_, callbacks_withEndpoint .., routers_withEndpoint ..,
    hroom⟩
  · cases o with
    | none => simp [hpos, endpointPosOf]
    | some k => simp [hpos, endpointPosOf]
  · intro s
    have hs := hch s
    cases hl : sr₀.map.lookup s with
    | none => simpa [hl] using hs
    | some id =>
        simp only [hl] at hs ⊢
        exact ⟨hs.1, hs.2.keeps hk fun a ha => ne_of_child (hs.1 ▸ ha)⟩
  · refine hk.mono fun a ha => ?_
    rintro rfl
    exact ha List.prefix_rfl
  · simp only [endpoints_withEndpoint, entryOf, hmark]

/-! ## Creating a node -/

/-- `h₁` is `h` with nodes that nothing leads to yet. -/
structure Grown (h h₁ : RequestHandler δ ε) : Prop where
  node : ∀ r v, h.node r = some v → h₁.node r = some v
  endpoints : h₁.endpoints = h.endpoints
  callbacks : h₁.callbacks = h.callbacks
  routers : h₁.routers = h.routers

theorem grown_addStatic (h : RequestHandler δ ε) : Grown h h.addStatic :=
  ⟨fun _ _ => node_addStatic, rfl, rfl, rfl⟩

theorem grown_addDynamic (h : RequestHandler δ ε) : Grown h h.addDynamic :=
  ⟨fun _ _ => node_addDynamic, rfl, rfl, rfl⟩

theorem Grown.trans (hg : Grown h h₁) (hg' : Grown h₁ h') : Grown h h' where
  node r v hv := hg'.node r v (hg.node r v hv)
  endpoints := by rw [hg'.endpoints, hg.endpoints]
  callbacks := by rw [hg'.callbacks, hg.callbacks]
  routers := by rw [hg'.routers, hg.routers]

theorem Grown.linked_static {i : ℕ} {sr : StaticRouterData} {v₁} (hg : Grown h h₁)
    (addr : Ref → Address) (hsr : h.staticRoutes[i]? = some sr) (hnew : h.node r₁ = none)
    (hbelow : h₁.node r₁ = some v₁) (sr' : StaticRouterData) (l : Option Bytes) :
    Linked h (h₁.setStatic i sr') addr (Function.update addr r₁ (addr (.stat i) ++ [l]))
      (.stat i) l r₁ := by
  have hold := node_stat_eq_some.mpr hsr
  have hne : r₁ ≠ .stat i := by
    rintro rfl
    simp [hold] at hnew
  rw [← node_setStatic_of_ne hne] at hbelow
  refine Linked.create (fun r v hv hr => ?_) hold (node_setStatic_self sr' (hg.node _ _ hold))
    hnew hbelow hg.endpoints hg.callbacks hg.routers l
  rw [node_setStatic_of_ne hr, hg.node r v hv]

theorem Grown.linked_dynamic {i : ℕ} {dr : DynamicRouterData} {v₁} (hg : Grown h h₁)
    (addr : Ref → Address) (hdr : h.dynamicRoutes[i]? = some dr) (hnew : h.node r₁ = none)
    (hbelow : h₁.node r₁ = some v₁) (dr' : DynamicRouterData) (l : Option Bytes) :
    Linked h (h₁.setDynamic i dr') addr (Function.update addr r₁ (addr (.dyn i) ++ [l]))
      (.dyn i) l r₁ := by
  have hold := node_dyn_eq_some.mpr hdr
  have hne : r₁ ≠ .dyn i := by
    rintro rfl
    simp [hold] at hnew
  rw [← node_setDynamic_of_ne hne] at hbelow
  refine Linked.create (fun r v hv hr => ?_) hold (node_setDynamic_self dr' (hg.node _ _ hold))
    hnew hbelow hg.endpoints hg.callbacks hg.routers l
  rw [node_setDynamic_of_ne hr, hg.node r v hv]

/-! ## One segment on the trie -/

/-- The id of a node that has just been created, dynamic or static. -/
def IsNew (h : RequestHandler δ ε) (id : UInt32) : Bool → Prop
  | true => ∃ i, refOf id = .dyn i ∧ h.dynamicRoutes[i]? = some {}
  | false => ∃ i, refOf id = .stat i ∧ h.staticRoutes[i]? = some {}

/-- `h₁` is `h` where the static node `i`, which stands for `lit o ch`, has a
link under `s`: it was there, or its node is new. -/
structure StaticStep (h h₁ : RequestHandler δ ε) (addr addr₁ : Ref → Address)
    (ch : Bytes → PatternTrie Bytes ℕ) (i : ℕ) (s : Bytes) (dynamicNext : Bool) (id : UInt32)
    (sr sr₁ : StaticRouterData) : Prop where
  linked : Linked h h₁ addr addr₁ (.stat i) (some s) (refOf id)
  before : h.staticRoutes[i]? = some sr
  after : h₁.staticRoutes[i]? = some sr₁
  endpointPos : sr₁.endpointPos = sr.endpointPos
  lookup_self : sr₁.map.lookup s = some id
  lookup_of_ne : ∀ s', s' ≠ s → sr₁.map.lookup s' = sr.map.lookup s'
  below : Represents h₁ addr₁ (ch s) (refOf id) ∨ ch s = .absent ∧ IsNew h₁ id dynamicNext

theorem staticStep_of_insertSegment {cap : Capacity} {o : Option ℕ}
    {ch : Bytes → PatternTrie Bytes ℕ} {c c₁ : Cursor} {s : Bytes} {dynamicNext : Bool}
    (ht : Represents h addr (.lit o ch) c.ref) (hc : c.Consistent)
    (hok : insertSegment cap h c s dynamicNext = .ok (h₁, c₁)) :
    ∃ i id addr₁ sr sr₁, c.ref = .stat i ∧ c₁ = c.goto id ∧
      StaticStep h h₁ addr addr₁ ch i s dynamicNext id sr sr₁ := by
  obtain ⟨i, sr, hi, hsr, -, hch⟩ := ht
  obtain ⟨hdptr, rfl⟩ := Cursor.ref_eq_stat.mp hi
  have hs := hch s
  have hlt := (List.getElem?_eq_some_iff.mp hsr).1
  have h31 := cap.lt_signBit
  cases hl : sr.map.lookup s with
  | some id =>
      simp only [hl] at hs
      obtain ⟨v, hv⟩ := hs.2.exists_node
      rw [insertSegment_follow_static hdptr hsr hl (by simp [hv])] at hok
      obtain ⟨rfl, rfl⟩ := Prod.mk.inj (Except.ok.inj hok)
      refine ⟨c.sptr, id, addr, sr, sr, hi, rfl, ?_, hsr, hsr, rfl, hl, fun _ _ => rfl, .inl hs.2⟩
      exact Linked.follow (node_stat_eq_some.mpr hsr) hv (hi ▸ hs.1)
  | none =>
      simp only [hl] at hs
      cases dynamicNext with
      | false =>
          obtain ⟨hroom, rfl, rfl⟩ := insertSegment_new_static hdptr hc hsr hl hok
          have href := refOf_staticId (hroom.trans h31)
          have hlink := (grown_addStatic h).linked_static addr hsr (node_stat_length h)
            (node_addStatic_new h) (sr.link s (UInt32.ofNat h.staticRoutes.length)) (some s)
          rw [← href] at hlink
          refine ⟨c.sptr, _, _, sr, sr.link s _, hi, rfl, hlink, hsr, ?_, rfl,
            sr.lookup_link_self s _, fun s' hne => sr.lookup_link_of_ne _ hne,
            .inr ⟨hs, _, href, ?_⟩⟩
          · simp [setStatic, addStatic, hlt.trans (Nat.lt_succ_self _)]
          · simp [setStatic, addStatic, hlt.ne]
      | true =>
          obtain ⟨hroom, rfl, rfl⟩ := insertSegment_new_dynamic hdptr hsr hl hok
          have href := refOf_dynamicId (hroom.trans h31)
          have hlink := (grown_addDynamic h).linked_static addr hsr (node_dyn_length h)
            (node_addDynamic_new h)
            (sr.link s (0x80000000 ||| UInt32.ofNat h.dynamicRoutes.length)) (some s)
          rw [← href] at hlink
          refine ⟨c.sptr, _, _, sr, sr.link s _, hi, rfl, hlink, hsr, ?_, rfl,
            sr.lookup_link_self s _, fun s' hne => sr.lookup_link_of_ne _ hne,
            .inr ⟨hs, _, href, ?_⟩⟩
          · simp [setStatic, addDynamic, hlt]
          · simp [setStatic, addDynamic]

/-- A parameter read in a new dynamic node names it and links it to a new node. -/
theorem dynamicStep_of_insertSegment {cap : Capacity} {c c₁ : Cursor} {s : Bytes} {m : ℕ}
    {dynamicNext : Bool} (addr : Ref → Address) (hm : h.dynamicRoutes[m]? = some {})
    (href : c.ref = .dyn m)
    (hc : c.Consistent) (hs : s ≠ [])
    (hok : insertSegment cap h c s dynamicNext = .ok (h₁, c₁)) :
    ∃ id addr₁, c₁ = c.goto id ∧ Linked h h₁ addr addr₁ (.dyn m) none (refOf id) ∧
      h₁.dynamicRoutes[m]? = some { name := s.drop 1, idPtr := id } ∧ id ≠ unset ∧
      IsNew h₁ id dynamicNext := by
  have hlt := (List.getElem?_eq_some_iff.mp hm).1
  have h31 := cap.lt_signBit
  cases dynamicNext with
  | false =>
      obtain ⟨hroom, rfl, rfl⟩ :=
        insertSegment_name_static (Cursor.ref_eq_dyn.mp href) hm hs hok
      have hid := refOf_staticId (hroom.trans h31)
      have hlink := (grown_addStatic h).linked_dynamic addr hm (node_stat_length h)
        (node_addStatic_new h)
        { name := s.drop 1, idPtr := UInt32.ofNat h.staticRoutes.length } none
      rw [← hid] at hlink
      refine ⟨_, _, rfl, hlink, ?_, staticId_ne_unset (hroom.trans h31), _, hid, ?_⟩
      · simp [setDynamic, addStatic, hlt]
      · simp [setDynamic, addStatic]
  | true =>
      obtain ⟨hroom, rfl, rfl⟩ :=
        insertSegment_name_dynamic (Cursor.ref_eq_dyn.mp href) hc hm hs hok
      have hid := refOf_dynamicId (hroom.trans h31)
      have hlink := ((grown_addStatic h).trans (grown_addDynamic h.addStatic)).linked_dynamic
        addr hm (node_dyn_length h) (node_addDynamic_new h.addStatic)
        { name := s.drop 1, idPtr := 0x80000000 ||| UInt32.ofNat h.dynamicRoutes.length } none
      rw [← hid] at hlink
      refine ⟨_, _, rfl, hlink, ?_, dynamicId_ne_unset (by omega), _, hid, ?_⟩
      · simp [setDynamic, addStatic, addDynamic, hlt.trans (Nat.lt_succ_self _)]
      · simp [setDynamic, addStatic, addDynamic, hlt.ne]

/-! ## The insertion of a word -/

section InsertWord

variable {cap : Capacity} {method : UInt32} {c : Cursor} {d : Option ℕ} {word : List Bytes}

/-- What the builder does with a word from a node that stands for a trie. -/
def BuildsWord (cap : Capacity) (method : UInt32) (callback : RouterCallback δ ε)
    (word : List Bytes) : Prop :=
  ∀ (h h' : RequestHandler δ ε) (addr : Ref → Address) (t : PatternTrie Bytes ℕ) (c : Cursor)
    (d : Option ℕ), Represents h addr t c.ref → c.Consistent →
    insertWord cap method callback (h, c) word = .ok (h', d) →
    ∃ addr', Inserted h h' addr addr' c.ref (insert isParam t word h.endpoints.length)
        (entryOf (owner (sub t word)) method) callback ∧
      d.isSome = isWild (sub t word) ∧
      ∀ k, d = some k → h'.walkRef c.ref word = some (.dyn k)

/-- What the builder does with a word from a dynamic node it has just created. -/
def BuildsFresh (cap : Capacity) (method : UInt32) (callback : RouterCallback δ ε)
    (word : List Bytes) : Prop :=
  ∀ (h h' : RequestHandler δ ε) (addr : Ref → Address) (m : ℕ) (c : Cursor) (d : Option ℕ),
    startsParam isParam word = true → h.dynamicRoutes[m]? = some {} → c.ref = .dyn m →
    c.Consistent → insertWord cap method callback (h, c) word = .ok (h', d) →
    ∃ addr', Inserted h h' addr addr' c.ref (fresh isParam word h.endpoints.length)
        (entryOf none method) callback ∧ d = none

theorem owner_sub_empty (x : List Bytes) : owner (sub (PatternTrie.empty (ι := ℕ)) x) = none := by
  cases x <;> simp [PatternTrie.empty]

theorem isWild_sub_empty (x : List Bytes) :
    isWild (sub (PatternTrie.empty (ι := ℕ)) x) = false := by
  cases x <;> simp [PatternTrie.empty]

/-- A word that goes on in a node that has just been created. -/
theorem build_new (addr : Ref → Address) (hw : BuildsWord cap method callback word)
    (hf : BuildsFresh cap method callback word) {id : UInt32}
    (hnew : IsNew h id (startsParam isParam word))
    (hok : insertWord cap method callback (h, c.goto id) word = .ok (h', d)) :
    ∃ addr', Inserted h h' addr addr' (refOf id) (fresh isParam word h.endpoints.length)
        (entryOf none method) callback ∧ d = none := by
  rw [← Cursor.ref_goto c id]
  cases hp : startsParam isParam word with
  | true =>
      rw [hp] at hnew
      obtain ⟨m, hm, hnode⟩ := hnew
      exact hf h h' addr m _ d hp hnode (by simp [hm]) (Cursor.consistent_goto c id) hok
  | false =>
      rw [hp] at hnew
      obtain ⟨i, hi, hnode⟩ := hnew
      have ht : Represents h addr PatternTrie.empty (c.goto id).ref := by
        rw [Cursor.ref_goto, hi]
        exact represents_empty addr hnode
      obtain ⟨addr', hins, hd, -⟩ := hw h h' addr _ _ d ht (Cursor.consistent_goto c id) hok
      rw [owner_sub_empty, ← PatternTrie.fresh_eq_insert_empty hp] at hins
      rw [isWild_sub_empty] at hd
      exact ⟨addr', hins, by simpa using hd⟩

theorem buildsWord_nil : BuildsWord cap method callback [] := by
  intro h h' addr t c d ht hc hok
  rw [insertWord_nil] at hok
  cases t with
  | absent => exact ht.elim
  | lit o ch =>
      obtain ⟨i, -, hi, -⟩ := id ht
      obtain ⟨hdptr, rfl⟩ := Cursor.ref_eq_stat.mp hi
      obtain ⟨rfl, sr, hsr, hroom, rfl⟩ := finishRoute_static hdptr hok
      rw [hi] at ht ⊢
      refine ⟨addr, ?_, rfl, by simp⟩
      simpa using inserted_withEndpoint ht hsr (hroom.trans cap.lt_signBit) method callback
  | wild n t =>
      obtain ⟨i, dr, hi, hdr, hname, -, -⟩ := ht
      obtain ⟨rfl, hroom, hroom', rfl⟩ := finishRoute_dynamic (Cursor.ref_eq_dyn.mp hi) hdr hok
      have hroom31 := hroom.trans cap.lt_signBit
      have hl := (grown_addStatic h).linked_dynamic addr hdr (node_stat_length h)
        (node_addStatic_new h)
        { dr with idPtr := UInt32.ofNat h.staticRoutes.length } none
      have hnew : (h.addStatic.setDynamic i
          { dr with idPtr := UInt32.ofNat h.staticRoutes.length }).staticRoutes[
            h.staticRoutes.length]? = some {} := node_stat_eq_some.mp (node_addStatic_new h)
      have hins := inserted_withEndpoint (represents_empty (Function.update addr
        (.stat h.staticRoutes.length) (addr (.dyn i) ++ [none])) hnew) hnew
        (hroom'.trans cap.lt_signBit) method callback
      rw [hi]
      rw [← refOf_staticId hroom31] at hl hins
      have hdr' := node_dyn_eq_some.mp (node_setDynamic_self
        { dr with idPtr := UInt32.ofNat h.staticRoutes.length }
        (node_addStatic (node_dyn_eq_some.mpr hdr)))
      exact ⟨_, hins.wild_next hl hdr' hname (staticId_ne_unset hroom31), rfl,
        fun k hk => by rw [← Option.some.inj hk]; rfl⟩

theorem exists_of_insertWord_cons {s : Bytes}
    (hok : insertWord cap method callback (h, c) (s :: word) = .ok (h', d)) :
    ∃ h₁ c₁, insertSegment cap h c s (startsParam isParam word) = .ok (h₁, c₁) ∧
      insertWord cap method callback (h₁, c₁) word = .ok (h', d) := by
  rw [insertWord_cons, bind_eq_ok] at hok
  obtain ⟨⟨h₁, c₁⟩, hstep, hrest⟩ := hok
  exact ⟨h₁, c₁, hstep, hrest⟩

theorem buildsFresh_cons {s : Bytes} (hw : BuildsWord cap method callback word)
    (hf : BuildsFresh cap method callback word) : BuildsFresh cap method callback (s :: word) := by
  intro h h' addr m c d hp hm hc hcons hok
  have hs : isParam s = true := hp
  have hne : s ≠ [] := by
    rintro rfl
    simp [isParam] at hs
  obtain ⟨h₁, c₁, hstep, hrest⟩ := exists_of_insertWord_cons hok
  obtain ⟨id, addr₁, rfl, hl, hdr, hset, hnew⟩ :=
    dynamicStep_of_insertSegment addr hm hc hcons hne hstep
  obtain ⟨addr', hins, hd⟩ := build_new addr₁ hw hf hnew hrest
  rw [fresh, if_pos hs, hc, ← hl.endpoints]
  exact ⟨addr', hins.wild_next hl hdr rfl hset, hd⟩

theorem walkRef_stat {i : ℕ} {sr : StaticRouterData} {s : Bytes} {id : UInt32}
    (hsr : h.staticRoutes[i]? = some sr) (hs : sr.map.lookup s = some id) (x : List Bytes) :
    h.walkRef (.stat i) (s :: x) = h.walkRef (refOf id) x := by
  simp [walkRef, hsr, hs]

theorem walkRef_dyn {i : ℕ} {dr : DynamicRouterData} (hdr : h.dynamicRoutes[i]? = some dr)
    (s : Bytes) (x : List Bytes) :
    h.walkRef (.dyn i) (s :: x) = h.walkRef (refOf dr.idPtr) x := by
  simp [walkRef, hdr]

theorem buildsWord_cons {s : Bytes} (hw : BuildsWord cap method callback word)
    (hf : BuildsFresh cap method callback word) : BuildsWord cap method callback (s :: word) := by
  intro h h' addr t c d ht hc hok
  obtain ⟨h₁, c₁, hstep, hrest⟩ := exists_of_insertWord_cons hok
  cases t with
  | absent => exact ht.elim
  | lit o ch =>
      obtain ⟨i, id, addr₁, sr, sr₁, hi, rfl, st⟩ := staticStep_of_insertSegment ht hc hstep
      rw [hi] at ht ⊢
      rw [PatternTrie.insert_lit_cons, ← st.linked.endpoints]
      rcases st.below with hsub | ⟨habsent, hnew⟩
      · obtain ⟨addr', hins, hd, hwalk⟩ :=
          hw h₁ h' addr₁ (ch s) _ d (by simpa using hsub) (Cursor.consistent_goto c id) hrest
        rw [Cursor.ref_goto] at hins hwalk
        have hsr' := node_stat_eq_some.mp (hins.node_above st.linked
          (node_stat_eq_some.mpr st.after))
        refine ⟨addr', hins.lit_child st.linked ht st.before st.after st.endpointPos
          st.lookup_self st.lookup_of_ne, hd, fun k hk => ?_⟩
        rw [walkRef_stat hsr' st.lookup_self, hwalk k hk]
      · obtain ⟨addr', hins, rfl⟩ := build_new addr₁ hw hf hnew hrest
        rw [habsent, PatternTrie.insert_absent, PatternTrie.sub_lit_cons, habsent,
          PatternTrie.sub_absent]
        exact ⟨addr', hins.lit_child st.linked ht st.before st.after st.endpointPos
          st.lookup_self st.lookup_of_ne, rfl, by simp⟩
  | wild n t =>
      obtain ⟨i, dr, hi, hdr, hname, hset, haddr, hsub⟩ := ht
      obtain ⟨v, hv⟩ := hsub.exists_node
      rw [insertSegment_follow_dynamic (Cursor.ref_eq_dyn.mp hi) hdr hset (by simp [hv])] at hstep
      obtain ⟨rfl, rfl⟩ := Prod.mk.inj (Except.ok.inj hstep)
      obtain ⟨addr', hins, hd, hwalk⟩ :=
        hw h h' addr t _ d (by simpa using hsub) (Cursor.consistent_goto c dr.idPtr) hrest
      rw [Cursor.ref_goto] at hins hwalk
      rw [hi] at haddr ⊢
      have hl := Linked.follow (node_dyn_eq_some.mpr hdr) hv haddr
      have hdr' := node_dyn_eq_some.mp (hins.node_above hl (node_dyn_eq_some.mpr hdr))
      refine ⟨addr', hins.wild_next hl hdr hname hset, hd, fun k hk => ?_⟩
      rw [walkRef_dyn hdr', hwalk k hk]

/-- Building a word on the nodes is inserting it in the trie. -/
theorem insertWord_refines (cap : Capacity) (method : UInt32) (callback : RouterCallback δ ε)
    (word : List Bytes) : BuildsWord cap method callback word := by
  suffices h : BuildsWord cap method callback word ∧ BuildsFresh cap method callback word from h.1
  induction word with
  | nil =>
      refine ⟨buildsWord_nil, ?_⟩
      intro h h' addr m c d hp
      simp [startsParam] at hp
  | cons s word ih => exact ⟨buildsWord_cons ih.1 ih.2, buildsFresh_cons ih.1 ih.2⟩

end InsertWord

end RequestHandler

end RePlace.Http
