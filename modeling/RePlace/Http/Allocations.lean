import RePlace.Data.Fallible
import RePlace.Http.Connection

/-!
# Allocations that fail while a request is served

A callback of the parser that cannot store its span or its header ends the parsing, and
the connection answers that the request is bad. `handle_request` answers with an internal
server error when it cannot copy a segment of the URI or store a path parameter. Nothing
else comes of an allocation that fails: what is handled is the same request, and what is
executed the same callback (`allocations_served`).
-/

namespace RePlace.Http

open Bytes (lit)
open Fallible (Interrupts)
open RequestHandler (Outcome WalkState)
open Scan (scan)

/-! ## Finding the endpoint -/

/-- The allocations of the loop over the segments of a URI that fail: the copy of the
segment, the copy of the name of a path parameter, and its place in the request. -/
structure SegmentFaults where
  substring : Bool := false
  key : Bool := false
  push : Bool := false

/-- An allocation for the segment fails. -/
def SegmentFaults.Any (f : SegmentFaults) : Prop := f.substring ∨ f.key ∨ f.push

namespace RequestHandler

variable {δ ε : Type}

/-- `internal_server_error`. -/
abbrev serverError : Outcome δ ε := .responded (stockResponse .internalServerError)

/-- The loop body of `handle_request`, when the allocations of the segment with this number
can fail. -/
def walkPieceAlloc (faults : ℕ → SegmentFaults) (h : RequestHandler δ ε) (uri : Bytes)
    (st : WalkState × ℕ) (start stop : ℕ) :
    Except (Option (Outcome δ ε)) (WalkState × ℕ) :=
  if (faults st.2).substring then .error (some serverError)
  else
    match substring uri start stop with
    | .error _ => .error (some serverError)
    | .ok substr =>
        if st.1.droute.isSome ∧ ((faults st.2).key ∨ (faults st.2).push) then
          .error (some serverError)
        else (h.walkSegment st.1 substr).map fun st' => (st', st.2 + 1)

/-- `request_handler::handle_request`, when allocations can fail. -/
def handleRequestAlloc (faults : ℕ → SegmentFaults) (h : RequestHandler δ ε) (req : Request) :
    Option (Outcome δ ε) := do
  if req.uri = lit "/" then
    let root ← h.staticRoutes[0]?
    if root.endpointPos = -1 then some (.responded (stockResponse .notFound))
    else h.execute root.endpointPos.toNat req
  else
    let last ← req.uri.getLast?
    let size := req.uri.length - (if last = slash then 1 else 0)
    match scan slash req.uri size (h.walkPieceAlloc faults req.uri) size 1 1
        ({ req := req, sroute := 0, droute := none }, 0) with
    | .error outcome => outcome
    | .ok (st, _) =>
        let sroute ← h.staticRoutes[st.sroute]?
        if sroute.endpointPos = -1 then some (.responded (stockResponse .notFound))
        else h.selectEndpoint sroute.endpointPos.toNat st.req

theorem walkPieceAlloc_interrupts (faults : ℕ → SegmentFaults) (h : RequestHandler δ ε)
    (uri : Bytes) (st : WalkState × ℕ) (start stop : ℕ) :
    Interrupts (some serverError) (∃ k, (faults k).Any) (h.walkPiece uri st.1 start stop)
      ((h.walkPieceAlloc faults uri st start stop).map Prod.fst) := by
  unfold walkPieceAlloc walkPiece
  by_cases hsub : (faults st.2).substring
  · rw [if_pos hsub]
    exact .fail _ ⟨st.2, .inl hsub⟩
  · rw [if_neg hsub]
    cases substring uri start stop with
    | error code => exact .refl _
    | ok substr =>
        dsimp only
        by_cases hparam : st.1.droute.isSome ∧ ((faults st.2).key ∨ (faults st.2).push)
        · rw [if_pos hparam]
          exact .fail _ ⟨st.2, .inr hparam.2⟩
        · rw [if_neg hparam]
          cases h.walkSegment st.1 substr with
          | error outcome => exact .refl _
          | ok st' => exact .refl _

/-- A loop whose body is interrupted is interrupted. -/
theorem scan_interrupts {α τ η : Type} [DecidableEq α] {sep : α} {s : List α} {size : ℕ}
    {e : η} {P : Prop}
    {body : τ → ℕ → ℕ → Except η τ} {body' : τ × ℕ → ℕ → ℕ → Except η (τ × ℕ)}
    (hbody : ∀ st start stop,
      Interrupts e P (body st.1 start stop) ((body' st start stop).map Prod.fst))
    (fuel start stop : ℕ) (st : τ × ℕ) :
    Interrupts e P (scan sep s size body fuel start stop st.1)
      ((scan sep s size body' fuel start stop st).map Prod.fst) := by
  induction fuel generalizing start stop st with
  | zero => exact .refl _
  | succ fuel ih =>
      unfold scan
      split
      · exact ih start (stop + 1) st
      · have hone := hbody st start stop
        cases hst : body' st start stop with
        | error e' =>
            rw [hst] at hone
            rcases hone with hsame | hfail
            · rw [← hsame]
              exact .refl _
            · obtain rfl : e' = e := Except.error.inj hfail.1
              exact .fail _ hfail.2
        | ok st' =>
            rw [hst] at hone
            rcases hone with hsame | hfail
            · rw [← hsame]
              exact ih (stop + 1) (stop + 1) st'
            · cases hfail.1

/-- A request is handled as it is when no allocation fails, or one fails and it is answered
with an internal server error. -/
theorem handleRequestAlloc_eq (faults : ℕ → SegmentFaults) (h : RequestHandler δ ε)
    (req : Request) :
    h.handleRequestAlloc faults req = h.handleRequest req ∨
      h.handleRequestAlloc faults req = some serverError ∧ ∃ k, (faults k).Any := by
  unfold handleRequestAlloc handleRequest
  split
  · exact .inl rfl
  · cases req.uri.getLast? with
    | none => exact .inl rfl
    | some last =>
        have hscan := @scan_interrupts _ _ _ _ slash req.uri
          (req.uri.length - (if last = slash then 1 else 0)) (some serverError) _
          (h.walkPiece req.uri) (h.walkPieceAlloc faults req.uri)
          (fun st start stop => walkPieceAlloc_interrupts faults h req.uri st start stop)
          (req.uri.length - (if last = slash then 1 else 0)) 1 1
          ({ req := req, sroute := 0, droute := none }, 0)
        simp only [Option.bind_eq_bind, Option.bind_some]
        generalize scan slash req.uri (req.uri.length - (if last = slash then 1 else 0))
          (h.walkPieceAlloc faults req.uri) (req.uri.length - (if last = slash then 1 else 0)) 1 1
          ({ req := req, sroute := 0, droute := none }, 0) = r at hscan ⊢
        cases r with
        | error outcome =>
            rcases hscan with hsame | hfail
            · rw [← hsame]
              exact .inl rfl
            · obtain rfl : outcome = some serverError := Except.error.inj hfail.1
              exact .inr ⟨rfl, hfail.2⟩
        | ok st =>
            rcases hscan with hsame | hfail
            · rw [← hsame]
              exact .inl rfl
            · cases hfail.1

end RequestHandler

/-! ## Reading the request -/

/-- The callback stores something. -/
def Event.allocates : Event → Bool
  | .url _ | .headerField _ | .headerValue _ | .headerFieldComplete | .body _ => true
  | .urlComplete | .headerValueComplete => false

/-- The callbacks of one read, when the callback with this number can fail to store
something: it then ends the parsing. `none` is `back` of an empty vector. -/
def onEvents (faults : ℕ → Bool) : ℕ → ReqData → List Event → Option (Except Unit (ReqData × ℕ))
  | n, data, [] => some (.ok (data, n))
  | n, data, e :: events =>
      if faults n && e.allocates then some (.error ())
      else do
        let data ← onEvent data e
        onEvents faults (n + 1) data events

section DoRead

variable {σ δ ε : Type} (L : LLHttp σ) (parse : CString → Json) (h : RequestHandler δ ε)

/-- `connection::do_read` with the bytes of the reads to come, when allocations can fail. -/
def doReadAlloc (faults : ℕ → Bool) (segments : ℕ → SegmentFaults) :
    ℕ → Connection σ → List Bytes → Option (Served σ δ ε)
  | _, c, [] => some (.reading c)
  | n, c, bytes :: reads => do
      let e := L.execute c.parser bytes
      match ← onEvents faults n c.data e.events with
      | .error () => some (.badRequest (stockResponse .badRequest) reads)
      | .ok (data, n) =>
          if e.errno ≠ 0 then some (.badRequest (stockResponse .badRequest) reads)
          else if L.finish e.parser = 0 then
            let req := Connection.request L parse ⟨e.parser, data⟩
            some (.handled req (h.handleRequestAlloc segments req) reads)
          else doReadAlloc faults segments n ⟨e.parser, data⟩ reads

end DoRead

variable {σ δ ε : Type} {L : LLHttp σ} {parse : CString → Json} {h : RequestHandler δ ε}

/-- The callbacks collect the same, or an allocation of one fails and ends the parsing. -/
theorem onEvents_eq (faults : ℕ → Bool) (n : ℕ) (data : ReqData) (events : List Event) :
    (onEvents faults n data events = some (.error ()) ∧ ∃ k, faults k) ∨
      ∃ n', onEvents faults n data events =
        (events.foldlM onEvent data).map fun data => .ok (data, n') := by
  induction events generalizing n data with
  | nil => exact .inr ⟨n, rfl⟩
  | cons e events ih =>
      rw [onEvents]
      split
      · rename_i hfail
        exact .inl ⟨rfl, n, (Bool.and_eq_true_iff.mp hfail).1⟩
      · cases hdata : onEvent data e with
        | none =>
            refine .inr ⟨n, ?_⟩
            rw [List.foldlM_cons, hdata]
            rfl
        | some data' =>
            rcases ih (n + 1) data' with herr | ⟨n', hok⟩
            · exact .inl herr
            · refine .inr ⟨n', ?_⟩
              rw [List.foldlM_cons, hdata]
              exact hok

/-- Whichever allocations fail while a connection reads and its request is handled: it does
what it does when none fails, or one of a callback fails and it answers that the request is
bad without handling it, or one for a segment fails and it handles the very same request
with an internal server error instead of executing a callback. -/
theorem allocations_served (faults : ℕ → Bool) (segments : ℕ → SegmentFaults) (n : ℕ)
    (c : Connection σ) (reads : List Bytes) :
    doReadAlloc L parse h faults segments n c reads = doRead L parse h c reads ∨
      ((∃ k, faults k) ∧ ∃ unread, doReadAlloc L parse h faults segments n c reads =
        some (.badRequest (stockResponse .badRequest) unread)) ∨
      (∃ k, (segments k).Any) ∧ ∃ req outcome unread,
        doRead L parse h c reads = some (.handled req outcome unread) ∧
        doReadAlloc L parse h faults segments n c reads =
          some (.handled req (some RequestHandler.serverError) unread) := by
  induction reads generalizing n c with
  | nil => exact .inl rfl
  | cons bytes reads ih =>
      rw [doReadAlloc, doRead]
      dsimp only
      rcases onEvents_eq faults n c.data (L.execute c.parser bytes).events with
        ⟨herr, hany⟩ | ⟨n', hok⟩
      · rw [herr]
        exact .inr (.inl ⟨hany, reads, rfl⟩)
      · rw [hok]
        cases (L.execute c.parser bytes).events.foldlM onEvent c.data with
        | none => exact .inl rfl
        | some data =>
            simp only [Option.map_some, Option.bind_eq_bind, Option.bind_some]
            split
            · exact .inl rfl
            · split
              · rcases h.handleRequestAlloc_eq segments (Connection.request L parse
                  ⟨(L.execute c.parser bytes).parser, data⟩) with hsame | ⟨hfail, hany⟩
                · rw [hsame]
                  exact .inl rfl
                · rw [hfail]
                  exact .inr (.inr ⟨hany, _, _, reads, rfl, rfl⟩)
              · exact ih n' _

end RePlace.Http
