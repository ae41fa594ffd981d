import RePlace.Http.LLHttp
import RePlace.Http.RequestHandler

/-!
# Connections

A connection reads into a buffer, hands every read to the parser, and collects
the request in the callbacks of the parser. After a read that leaves the parser
with a `finish` of 0 it takes the request for complete, handles it and writes the
response; then the socket is shut down, so nothing is read any more. Allocation
succeeds.
-/

namespace RePlace.Http

open RequestHandler (Outcome)

/-- The size of the read buffer. -/
def bufferSize : ℕ := 8192

/-- `req_data`: the span that is being collected and the request. -/
structure ReqData where
  tmp : Bytes := []
  req : Request := {}

/-- `std::tolower` of a byte of a header name. -/
def toLower (b : UInt8) : UInt8 := if 0x41 ≤ b ∧ b ≤ 0x5A then b + 0x20 else b

/-- The callbacks of `connection::connection`; `none` is `back` of an empty
vector. -/
def onEvent (data : ReqData) : Event → Option ReqData
  | .url s | .headerField s | .headerValue s => some { data with tmp := data.tmp ++ s }
  | .urlComplete => some { tmp := [], req := { data.req with uri := data.tmp } }
  | .headerFieldComplete =>
      some { tmp := [], req := { data.req with
        headers := data.req.headers ++ [{ name := data.tmp.map toLower }] } }
  | .headerValueComplete => do
      let h ← data.req.headers.getLast?
      some { tmp := [], req := { data.req with
        headers := data.req.headers.dropLast ++ [{ h with value := data.tmp }] } }
  | .body s => some { data with req := { data.req with body := data.req.body ++ s } }

/-- The parser of a connection and what its callbacks have collected. -/
structure Connection (σ : Type) where
  parser : σ
  data : ReqData := {}

/-- How far a connection gets with the reads it is given. -/
inductive Served (σ δ ε : Type)
  /-- It waits for another read. -/
  | reading (c : Connection σ)
  /-- It answers that the request is bad. -/
  | badRequest (res : Response) (unread : List Bytes)
  /-- It has called `handle_request` with this request. -/
  | handled (req : Request) (outcome : Option (Outcome δ ε)) (unread : List Bytes)

section DoRead

variable {σ δ ε : Type} (L : LLHttp σ) (parse : CString → Json) (h : RequestHandler δ ε)

/-- `connection::connection`. -/
def Connection.new : Connection σ := { parser := L.init }

/-- The request that is handled when the parser has finished. -/
def Connection.request (c : Connection σ) : Request :=
  Request.finish parse { c.data.req with method := L.method c.parser }

/-- `connection::do_read`, with the bytes of the reads to come. -/
def doRead : Connection σ → List Bytes → Option (Served σ δ ε)
  | c, [] => some (.reading c)
  | c, bytes :: reads => do
      let e := L.execute c.parser bytes
      let data ← e.events.foldlM onEvent c.data
      if e.errno ≠ 0 then some (.badRequest (stockResponse .badRequest) reads)
      else if L.finish e.parser = 0 then
        let req := Connection.request L parse ⟨e.parser, data⟩
        some (.handled req (h.handleRequest req) reads)
      else doRead ⟨e.parser, data⟩ reads

end DoRead

/-! ## The callbacks -/

namespace ReqData

/-- A callback that adds its span to what has been collected collects the same
byte by byte. -/
theorem foldlM_bytes {f : Bytes → Event} (hnil : ∀ d, onEvent d (f []) = some d)
    (hcons : ∀ d b s, (onEvent d (f [b]) >>= fun d => onEvent d (f s)) = onEvent d (f (b :: s)))
    (d : ReqData) (s : Bytes) : (s.map fun b => f [b]).foldlM onEvent d = onEvent d (f s) := by
  induction s generalizing d with
  | nil => exact (hnil d).symm
  | cons b s ih =>
      rw [List.map_cons, List.foldlM_cons, ← hcons d b s]
      exact congrArg _ (funext ih)

theorem foldlM_spellEvent (d : ReqData) (e : Event) :
    e.spellEvent.foldlM onEvent d = onEvent d e := by
  cases e with
  | url s => exact foldlM_bytes (by simp [onEvent]) (by simp [onEvent]) d s
  | headerField s => exact foldlM_bytes (by simp [onEvent]) (by simp [onEvent]) d s
  | headerValue s => exact foldlM_bytes (by simp [onEvent]) (by simp [onEvent]) d s
  | body s => exact foldlM_bytes (by simp [onEvent]) (by simp [onEvent]) d s
  | urlComplete => rfl
  | headerFieldComplete => rfl
  | headerValueComplete => simp [Event.spellEvent]

/-- The callbacks collect the same however the text is delivered. -/
theorem foldlM_spell (d : ReqData) (E : List Event) :
    (Event.spell E).foldlM onEvent d = E.foldlM onEvent d := by
  induction E generalizing d with
  | nil => rfl
  | cons e E ih =>
      rw [Event.spell_cons, List.foldlM_append, foldlM_spellEvent, List.foldlM_cons]
      exact congrArg _ (funext ih)

/-- No callback gives the request a path parameter or a document. -/
theorem kept_onEvent {d d' : ReqData} {e : Event} (h : onEvent d e = some d') :
    d'.req.pathParams = d.req.pathParams ∧ d'.req.bodyParams = d.req.bodyParams := by
  cases e with
  | headerValueComplete =>
      obtain ⟨v, -, hd⟩ := Option.bind_eq_some_iff.mp h
      obtain rfl := Option.some.inj hd
      exact ⟨rfl, rfl⟩
  | _ =>
      obtain rfl := Option.some.inj h
      exact ⟨rfl, rfl⟩

theorem kept_foldlM {d d' : ReqData} {E : List Event} (h : E.foldlM onEvent d = some d') :
    d'.req.pathParams = d.req.pathParams ∧ d'.req.bodyParams = d.req.bodyParams := by
  induction E generalizing d with
  | nil =>
      obtain rfl := Option.some.inj h
      exact ⟨rfl, rfl⟩
  | cons e E ih =>
      obtain ⟨d₁, hstep, hrest⟩ := Option.bind_eq_some_iff.mp h
      obtain ⟨hpath, hbody⟩ := ih hrest
      obtain ⟨hpath₁, hbody₁⟩ := kept_onEvent hstep
      exact ⟨hpath.trans hpath₁, hbody.trans hbody₁⟩

end ReqData

section Handled

variable {σ δ ε : Type} {L : LLHttp σ} {parse : CString → Json} {h : RequestHandler δ ε}
  {c : Connection σ} {reads unread : List Bytes} {req : Request} {outcome : Option (Outcome δ ε)}

/-- A connection finishes its request with the path parameters and the document that it
has started with: a new one has none. -/
theorem exists_finish_of_doRead
    (hread : doRead L parse h c reads = some (.handled req outcome unread)) :
    ∃ req₀ : Request, req = req₀.finish parse ∧ req₀.pathParams = c.data.req.pathParams ∧
      req₀.bodyParams = c.data.req.bodyParams := by
  induction reads generalizing c with
  | nil => simp [doRead] at hread
  | cons bytes reads ih =>
      rw [doRead] at hread
      obtain ⟨data, hdata, hread⟩ := Option.bind_eq_some_iff.mp hread
      obtain ⟨hpath, hbody⟩ := ReqData.kept_foldlM hdata
      split at hread
      · cases hread
      · split at hread
        · cases hread
          exact ⟨_, rfl, hpath, hbody⟩
        · obtain ⟨req₀, hreq, hpath₀, hbody₀⟩ := ih hread
          exact ⟨req₀, hreq, hpath₀.trans hpath, hbody₀.trans hbody⟩

/-- A new connection hands its request on without path parameters. -/
theorem pathParams_of_doRead
    (hread : doRead L parse h (Connection.new L) reads = some (.handled req outcome unread)) :
    req.pathParams = [] := by
  obtain ⟨req₀, rfl, hpath, -⟩ := exists_finish_of_doRead hread
  obtain ⟨doc, hdoc⟩ := Request.finish_eq parse req₀
  rw [hdoc]
  exact hpath

end Handled

/-- A header as the callbacks store it. -/
def Header.stored (h : Header) : Header := { h with name := h.name.map toLower }

/-- The request with a message taken up. -/
def Request.absorb (req : Request) (msg : Message) : Request :=
  { req with
    uri := msg.uri
    headers := req.headers ++ msg.headers.map Header.stored
    body := req.body ++ msg.body }

theorem foldlM_parts (parts : List Part) (req : Request) :
    (parts.flatMap Part.spelling).foldlM onEvent { req := req } =
      some { req := { req with
        headers := req.headers ++ (parts.filterMap Part.header?).map Header.stored
        body := req.body ++ parts.flatMap Part.bytes } } := by
  induction parts generalizing req with
  | nil => simp
  | cons part parts ih =>
      rw [List.flatMap_cons, List.foldlM_append]
      cases part with
      | header h =>
          rw [Part.spelling, ReqData.foldlM_spell]
          simp [onEvent, ih, Header.stored]
      | body s =>
          rw [Part.spelling, ReqData.foldlM_spell]
          simp [onEvent, ih, List.filterMap_cons]

/-- The callbacks of one message take it up. -/
theorem Message.Spells.foldlM {msg : Message} {E : List Event} (hE : msg.Spells E)
    (req : Request) : E.foldlM onEvent { req := req } = some { req := req.absorb msg } := by
  obtain ⟨parts, hheaders, hbody, rfl⟩ := hE
  rw [List.foldlM_append, ReqData.foldlM_spell]
  simp [onEvent, foldlM_parts, Request.absorb, hheaders, hbody]

/-- The callbacks of several messages take up one after the other. -/
theorem foldlM_messages {ms : List Message} {Es : List (List Event)}
    (h : List.Forall₂ Message.Spells ms Es) (req : Request) :
    Es.flatten.foldlM onEvent { req := req } = some { req := ms.foldl Request.absorb req } := by
  induction h generalizing req with
  | nil => rfl
  | @cons msg E ms Es hE _ ih =>
      rw [List.flatten_cons, List.foldlM_append, hE.foldlM]
      exact ih (req.absorb msg)

end RePlace.Http
