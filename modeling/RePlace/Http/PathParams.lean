import RePlace.Data.Captures
import RePlace.Http.Independence

/-!
# Path parameters

A dynamic node has the name that the first route through it gave it, and whether a
segment is read by a dynamic node is decided by that route too. A request that
matches the route it ends up with has the parameters of that route exactly when the
route has found only nodes that fit its own segments (`path_params_iff`).
-/

namespace RePlace.Http

open PatternTrie (CarryTrie Fits Matches captures own)
open PatternTrie.CarryTrie (addAll)
open Bytes (lit)

variable {δ ε : Type}

/-! ## The parameters of a path -/

/-- A captured segment as the walk stores it. -/
def toPath (c : Bytes × Bytes) : Path := ⟨c.1.drop 1, c.2⟩

theorem Request.withParams_eq (req : Request) (cs : List (Bytes × Bytes)) :
    (req.withParams cs).pathParams = req.pathParams ++ cs.map toPath := rfl

/-- The parameters in the segments of the path, in their order, each with the
segment of the URI in its place. -/
def ownParams (p : CString) (uri : Bytes) : List Path :=
  (own isParam (routeSegments p) (uriSegments uri)).map toPath

/-- The request has the parameters of the path and no others. -/
structure OwnParams (p : CString) (uri : Bytes) (req : Request) : Prop where
  params : req.pathParams = ownParams p uri
  value : ∀ (name : CString) (i : ℕ),
    (routeSegments p)[i]? = some (dynamicPrefix :: name.bytes) →
    (∀ j < i, (routeSegments p)[j]? ≠ some (dynamicPrefix :: name.bytes)) →
    req.getPathParameter name = (uriSegments uri)[i]?
  null : ∀ name : CString, dynamicPrefix :: name.bytes ∉ routeSegments p →
    req.getPathParameter name = none
  none : (∀ s ∈ routeSegments p, isParam s = false) → req.pathParams = []

theorem isParam_and_tail_iff {s n : Bytes} :
    isParam s = true ∧ s.tail = n ↔ s = dynamicPrefix :: n := by
  cases s with
  | nil => simp
  | cons a s => simp

/-- A parameter is its name behind the prefix. -/
theorem eq_of_isParam {s t : Bytes} (hs : isParam s = true) (ht : isParam t = true)
    (h : s.drop 1 = t.drop 1) : s = t :=
  calc s = dynamicPrefix :: s.tail := isParam_and_tail_iff.mp ⟨hs, rfl⟩
    _ = dynamicPrefix :: t.tail := by rw [← List.drop_one, h, List.drop_one]
    _ = t := (isParam_and_tail_iff.mp ⟨ht, rfl⟩).symm

/-- What `get_path_parameter` finds in the parameters of a path. -/
theorem find_ownParams (p : CString) (uri name : Bytes) :
    ((ownParams p uri).find? fun q => q.key = name).map Path.value =
      (((routeSegments p).zip (uriSegments uri)).find? fun c =>
        c.1 = dynamicPrefix :: name).map Prod.snd := by
  rw [ownParams, own, List.find?_map, List.find?_filter, Option.map_map]
  have hpred : (fun c : Bytes × Bytes => decide (isParam c.1 = true ∧
      ((fun q : Path => decide (q.key = name)) ∘ toPath) c = true)) =
        fun c => decide (c.1 = dynamicPrefix :: name) := by
    funext c
    rw [decide_eq_decide, ← isParam_and_tail_iff]
    simp [toPath]
  rw [hpred]
  rfl

/-- The first place of a list that holds a value leads to what stands in that place
of another list. -/
theorem find_zip_of_first {α β : Type*} [DecidableEq α] {w : List α} {x : List β} {c : α} {i : ℕ}
    (hi : w[i]? = some c) (hfirst : ∀ j < i, w[j]? ≠ some c) :
    ((w.zip x).find? fun e => e.1 = c).map Prod.snd = x[i]? := by
  induction w generalizing x i with
  | nil => simp at hi
  | cons a w ih =>
      cases x with
      | nil => simp
      | cons b x =>
          cases i with
          | zero =>
              obtain rfl : a = c := by simpa using hi
              simp
          | succ i =>
              have hne : a ≠ c := by simpa using hfirst 0 (Nat.succ_pos i)
              have hrest := ih (x := x) (by simpa using hi) fun j hj => by
                simpa using hfirst (j + 1) (Nat.succ_lt_succ hj)
              simpa [hne] using hrest

/-- The list of the parameters decides about everything else. -/
theorem ownParams_iff {p : CString} {uri : Bytes} {req : Request} :
    OwnParams p uri req ↔ req.pathParams = ownParams p uri := by
  refine ⟨OwnParams.params, fun hparams => ⟨hparams, fun name i hi hfirst => ?_,
    fun name hname => ?_, fun hplain => ?_⟩⟩
  · rw [Request.getPathParameter, hparams, find_ownParams]
    exact find_zip_of_first hi hfirst
  · rw [Request.getPathParameter, hparams, find_ownParams, Option.map_eq_none_iff,
      List.find?_eq_none]
    intro c hc heq
    rw [decide_eq_true_iff] at heq
    exact hname (heq ▸ (List.of_mem_zip hc).1)
  · rw [hparams, ownParams, own, List.filter_eq_nil_iff.mpr, List.map_nil]
    intro c hc
    simp [hplain c.1 (List.of_mem_zip hc).1]

/-- The walk keeps all of a segment that is a parameter. -/
theorem map_toPath_eq_iff {cs ds : List (Bytes × Bytes)} (hcs : ∀ c ∈ cs, isParam c.1 = true)
    (hds : ∀ d ∈ ds, isParam d.1 = true) : cs.map toPath = ds.map toPath ↔ cs = ds := by
  have hback : ∀ es : List (Bytes × Bytes), (∀ e ∈ es, isParam e.1 = true) →
      (es.map toPath).map (fun q => (dynamicPrefix :: q.key, q.value)) = es := by
    intro es hes
    rw [List.map_map]
    refine (List.map_congr_left fun e he => ?_).trans (List.map_id es)
    have hname := isParam_and_tail_iff.mp ⟨hes e he, rfl⟩
    simp only [Function.comp, toPath, List.drop_one, ← hname, id]
  refine ⟨fun heq => ?_, fun heq => heq ▸ rfl⟩
  rw [← hback cs hcs, ← hback ds hds, heq]

/-! ## What a route finds -/

/-- The paths that `finalize` adds before the path. -/
def pathsBefore (paths : List CString) (p : CString) : List CString :=
  (inByteOrder paths).takeWhile (· ≠ p)

/-- What `finalize` has built when it comes to the path. -/
def buildBefore (paths : List CString) (p : CString) : CarryTrie Bytes CString :=
  addAll isParam {} ((pathsBefore paths p).map fun q => (routeSegments q, q))

theorem pathsBefore_eq {paths A B : List CString} {p : CString}
    (hcut : inByteOrder paths = A ++ p :: B) : pathsBefore paths p = A := by
  have hnd := nodup_inByteOrder paths
  rw [hcut, List.nodup_append] at hnd
  have hA : ∀ q ∈ A, decide (q ≠ p) = true := fun q hq => by
    simpa using hnd.2.2 q hq p (by simp)
  rw [pathsBefore, hcut, List.takeWhile_append_of_pos hA, List.takeWhile_cons]
  simp

namespace RequestHandler

/-- A request that matches the path it ends up with captures the parameters of the
path exactly when the path fits what has been built before it. -/
theorem captures_pathBuild_iff {paths : List CString} {uri : Bytes} {p : CString}
    (hfound : foundPath paths uri = some p) :
    p ∈ paths ∧ (Matches isParam (routeSegments p) (uriSegments uri) →
      (captures (pathBuild paths).trie (uriSegments uri) =
          own isParam (routeSegments p) (uriSegments uri) ↔
        Fits isParam (buildBefore paths p).trie (routeSegments p))) := by
  have hfind : PatternTrie.find none (pathBuild paths).trie (uriSegments uri) = some p := by
    rw [foundPath] at hfound
    split at hfound
    · cases hfound
    · exact hfound
  have hnd : ((pathWords paths).map Prod.snd).Nodup := by
    rw [pathWords, List.map_map]
    exact (List.map_id _).symm ▸ nodup_inByteOrder paths
  obtain ⟨A, e, B, hcut, rfl, hiff⟩ := CarryTrie.captures_addAll_eq_own_iff hnd hfind
  obtain ⟨A', rest, hpaths, rfl, hrest⟩ := List.map_eq_append_iff.mp hcut
  obtain ⟨p, B', rfl, rfl, -⟩ := List.map_eq_cons_iff.mp hrest
  refine ⟨mem_of_mem_inByteOrder (by simp [hpaths]), ?_⟩
  rw [buildBefore, pathsBefore_eq hpaths]
  exact hiff

/-- The node is of the kind that the segment asks for, and of its name. -/
def FitsNode (h : RequestHandler δ ε) : Ref → Bytes → Prop
  | .stat _, s => isParam s = false
  | .dyn i, s => isParam s = true ∧ ∀ dr, h.dynamicRoutes[i]? = some dr → dr.name = s.drop 1

/-- All nodes that the segments lead to are of their kinds and names. -/
def FitsNodes (h : RequestHandler δ ε) : Ref → List Bytes → Prop
  | _, [] => True
  | r, s :: x => h.FitsNode r s ∧ ∀ r', h.walkRef r [s] = some r' → h.FitsNodes r' x

theorem Represents.fits_iff {h : RequestHandler δ ε} {addr : Ref → Address}
    {t : PatternTrie Bytes ℕ} {r : Ref} (ht : Represents h addr t r)
    (hnames : PatternTrie.NamesParams isParam t) {x : List Bytes} :
    Fits isParam t x ↔ h.FitsNodes r x := by
  induction x generalizing t r with
  | nil => simp [FitsNodes]
  | cons s x ih =>
      cases t with
      | absent => exact ht.elim
      | lit o c =>
          obtain ⟨i, sr, rfl, hsr, -, hch⟩ := ht
          refine and_congr_right fun _ => ?_
          have hs := hch s
          cases hl : sr.map.lookup s with
          | none =>
              simp only [hl] at hs
              simp [walkRef, hsr, hl, hs]
          | some id =>
              simp only [hl] at hs
              have hrest := ih hs.2 (hnames s)
              simpa [walkRef, hsr, hl] using hrest
      | wild n t =>
          obtain ⟨i, dr, rfl, hdr, hname, -, -, hsub⟩ := ht
          have hrest := ih hsub hnames.2
          have hsame : isParam s = true → (n = s ↔ dr.name = s.drop 1) := by
            intro hs
            rw [hname]
            exact ⟨fun heq => heq ▸ rfl, eq_of_isParam hnames.1 hs⟩
          simp only [PatternTrie.fits_wild_cons, FitsNodes, FitsNode, walkRef, hdr, hrest,
            Option.some.injEq, forall_eq', and_assoc]
          exact and_congr_right fun hs => and_congr_left fun _ => hsame hs

/-- When the loop of `finalize` comes to the path, the nodes that are already there
on the way of the path are of the kinds and the names of its segments. -/
def OwnNodes (cap : Capacity) (routes : List (Router δ ε)) (p : CString) : Prop :=
  ∀ h d, ((entries routes).takeWhile fun e => e.1.path ≠ p).foldlM (insertRoute cap)
    (loopStart routes) = .ok (h, d) → h.FitsNodes (.stat 0) (routeSegments p)

section OneMethod

variable {cap : Capacity} {m : UInt8} {cb : CString → RouterCallback δ ε} {paths : List CString}
  {h : RequestHandler δ ε}

theorem takeWhile_entries (m : UInt8) (cb : CString → RouterCallback δ ε) (paths : List CString)
    (p : CString) : (entries (oneMethod m cb paths)).takeWhile (fun e => e.1.path ≠ p) =
      (pathsBefore paths p).map fun q => (⟨q, m.toNat⟩, cb q) := by
  rw [entries_oneMethod, List.takeWhile_map, pathsBefore]
  rfl

theorem ownNodes_iff (hok : finalize cap (table (oneMethod m cb paths)) = .ok h) (p : CString) :
    OwnNodes cap (oneMethod m cb paths) p ↔
      Fits isParam (buildBefore paths p).trie (routeSegments p) := by
  obtain ⟨h', d, hrun, hst⟩ := foldlM_loopStart hok
    (List.takeWhile_append_dropWhile (p := fun e => e.1.path ≠ p)).symm
  obtain ⟨addr, hrep⟩ := hst.represents
  rw [Layout.ofKeys, (Layout.addRoutes_eq_addAll _).1] at hrep
  have hfits : Fits isParam (buildBefore paths p).trie (routeSegments p) ↔
      h'.FitsNodes (.stat 0) (routeSegments p) := by
    rw [← hrep.fits_iff (CarryTrie.namesParams_addAll _), buildBefore]
    refine CarryTrie.fits_of_words_eq ?_
    rw [Layout.words, List.zipIdx_map_fst, takeWhile_entries]
    simp
  rw [hfits]
  refine ⟨fun hown => hown h' d hrun, fun hown h'' d' hrun' => ?_⟩
  obtain ⟨rfl, -⟩ := Prod.mk.inj (Except.ok.inj (hrun.symm.trans hrun'))
  exact hown

/-- The path parameters are those of the executed path exactly when the path has
found only nodes of its own kinds and names. -/
theorem path_params_iff (hok : finalize cap (table (oneMethod m cb paths)) = .ok h)
    {req req' : Request} {callback : RouterCallback δ ε} (hm : req.method = m)
    (hfresh : req.pathParams = [])
    (hrun : h.handleRequest req = some (.executed callback req')) :
    ∃ p ∈ paths, foundPath paths req.uri = some p ∧ callback = cb p ∧
      (Matches isParam (routeSegments p) (uriSegments req.uri) →
        (OwnParams p req.uri req' ↔ OwnNodes cap (oneMethod m cb paths) p)) := by
  have hne : req.uri ≠ [] := by
    intro hnil
    have hslash : ¬ ([] : Bytes) = lit "/" := by decide
    simp [handleRequest, hnil, hslash] at hrun
  rw [handleRequest_foundPath hok hm hne] at hrun
  cases hfound : foundPath paths req.uri with
  | none => simp [hfound, notFound] at hrun
  | some p =>
      rw [hfound] at hrun
      obtain ⟨rfl, rfl⟩ := Outcome.executed.inj (Option.some.inj hrun)
      obtain ⟨hp, hiff⟩ := captures_pathBuild_iff hfound
      refine ⟨p, hp, rfl, rfl, fun hmatch => ?_⟩
      rw [ownNodes_iff hok, ← hiff hmatch, ownParams_iff, Request.withParams_eq, hfresh,
        List.nil_append, ownParams]
      exact map_toPath_eq_iff (fun c hc => (CarryTrie.namesParams_addAll _).of_mem_captures hc)
        fun d hd => (List.mem_filter.mp hd).2

end OneMethod

/-- `/a/:x/b` finds the nodes of `/a/:x`, which are as its own, and a request for it is
executed with its parameter. -/
theorem path_params_sample :
    OwnNodes sampleCapacity (oneMethod 1 tag samplePaths) (.lit "/a/:x/b") ∧
      OwnParams (.lit "/a/:x/b") (lit "/a/1/b")
        { uri := lit "/a/1/b", method := 1, pathParams := [⟨lit "x", lit "1"⟩] } := by
  have hrun : samplePathHandler.handleRequest { uri := lit "/a/1/b", method := 1 } =
      some (.executed (tag (.lit "/a/:x/b"))
        { uri := lit "/a/1/b", method := 1, pathParams := [⟨lit "x", lit "1"⟩] }) := rfl
  obtain ⟨p, -, -, htag, hiff⟩ := path_params_iff finalize_samplePaths rfl rfl hrun
  obtain rfl : .lit "/a/:x/b" = p := (RouterCallback.mk.inj htag).2
  have hown : OwnNodes sampleCapacity (oneMethod 1 tag samplePaths) (.lit "/a/:x/b") :=
    (ownNodes_iff finalize_samplePaths _).mpr (by decide)
  exact ⟨hown, (hiff (by decide)).mpr hown⟩

/-- `/a/:y/b` goes through the node of `/a/:x`: a request for it is executed with a
parameter `x`. -/
theorem path_params_fails :
    ∃ (h : RequestHandler Unit CString) (req' : Request),
      finalize sampleCapacity (table (oneMethod 1 tag [.lit "/a/:x", .lit "/a/:y/b"])) = .ok h ∧
      h.handleRequest { uri := lit "/a/1/b", method := 1 } =
        some (.executed (tag (.lit "/a/:y/b")) req') ∧
      Matches isParam (routeSegments (.lit "/a/:y/b")) (uriSegments (lit "/a/1/b")) ∧
      ¬ OwnParams (.lit "/a/:y/b") (lit "/a/1/b") req' := by
  refine ⟨_, _, rfl, rfl, .cons (.inr rfl) (.cons (.inl rfl) (.cons (.inr rfl) .nil)),
    fun hown => ?_⟩
  have hparams : [(⟨lit "x", lit "1"⟩ : Path)] = ownParams (.lit "/a/:y/b") (lit "/a/1/b") :=
    hown.params
  revert hparams
  decide

end RequestHandler

end RePlace.Http
