import RePlace.Data.OrderedMap
import RePlace.Data.Scan
import RePlace.Http.Request
import RePlace.Types

/-!
# The request handler

`request_handler` keeps its routes in two growing vectors. A static node maps a
segment to the id of the next node and may point to a group of endpoints; a
dynamic node takes any segment and has one successor. An id carries in its sign
bit which of the two vectors it points into. `finalize` builds the nodes from
the table of routes, `handleRequest` walks them along a URI.

Pointers into the vectors are modelled by positions: the source fetches every
pointer again after the vector it points into has grown, so a position and the
pointer it stands for agree wherever one of them is used.
-/

namespace RePlace.Http

open Bytes (lit)
open Scan (scan slice)

/-- Why a function of the handler does not return a result: an error code, or an
access outside a container, where the source has no defined behaviour. -/
inductive Abort
  | error (code : ErrorCode)
  | outOfRange
deriving DecidableEq

/-- A vector counts its elements in a signed 32-bit integer and refuses to grow
past its limit. -/
structure Capacity where
  maxSize : ℕ
  lt_signBit : maxSize < 2 ^ 31

/-- `DYNAMIC_PREFIX`. -/
def dynamicPrefix : UInt8 := 0x3A

/-- The separator of a path. -/
def slash : UInt8 := 0x2F

def isDynamic (pos : UInt32) : Bool := pos &&& 0x80000000 ≠ 0

def getPos (pos : UInt32) : ℕ := (pos &&& 0x7FFFFFFF).toNat

def isNewEndpoint (method : UInt32) : Bool := method &&& 0x80000000 ≠ 0

def getMethod (method : UInt32) : UInt8 := method.toUInt8

/-- The value of an `id_ptr` that has not been set. -/
def unset : UInt32 := 0xFFFFFFFF

structure DynamicRouterData where
  name : Bytes := []
  idPtr : UInt32 := unset
deriving DecidableEq

structure StaticRouterData where
  map : List (Bytes × UInt32) := []
  endpointPos : ℤ := -1
deriving DecidableEq

structure RouterKey where
  path : CString
  method : ℤ
deriving DecidableEq

/-- `router_key::operator()`. -/
def RouterKey.compare (k1 k2 : RouterKey) : ℤ :=
  let diff := CString.strcmp k1.path k2.path
  if diff ≠ 0 then diff else k1.method - k2.method

/-- A callback: the endpoint and the data passed to it first. -/
structure RouterCallback (δ ε : Type) where
  data : δ
  endpoint : ε
deriving DecidableEq

/-- A route as it is registered. -/
structure Router (δ ε : Type) where
  method : ℤ := -1
  path : CString
  data : δ
  endpoint : ε

structure RequestHandler (δ ε : Type) where
  staticRoutes : List StaticRouterData := []
  dynamicRoutes : List DynamicRouterData := []
  endpoints : List UInt32 := []
  callbacks : List (RouterCallback δ ε) := []
  routers : List (RouterKey × RouterCallback δ ε) := []

/-- `string::substring`. -/
def substring (s : Bytes) (start stop : ℕ) : Except ErrorCode Bytes :=
  if start ≤ stop ∧ stop ≤ s.length then .ok (slice s start stop)
  else .error .indexOutOfBounds

/-- `vector::push`. -/
def push {α : Type} (cap : Capacity) (xs : List α) (x : α) : Except Abort (List α) :=
  if xs.length < cap.maxSize then .ok (xs ++ [x]) else .error (.error .badAllocation)

/-- `vector::operator[]`. -/
def at? {α : Type} (xs : List α) (i : ℕ) : Except Abort α :=
  match xs[i]? with
  | some x => .ok x
  | none => .error .outOfRange

namespace RequestHandler

variable {δ ε : Type}

/-- `request_handler::add_route`. -/
def addRoute (h : RequestHandler δ ε) (route : Router δ ε) : RequestHandler δ ε :=
  { h with
    routers := OrderedMap.insert RouterKey.compare ⟨route.path, route.method⟩
      ⟨route.data, route.endpoint⟩ h.routers }

/-- `request_handler::create_static_route`. -/
def createStaticRoute (cap : Capacity) (h : RequestHandler δ ε) :
    Except Abort (UInt32 × RequestHandler δ ε) := do
  let staticRoutes ← push cap h.staticRoutes {}
  return (UInt32.ofNat (staticRoutes.length - 1), { h with staticRoutes })

/-- `request_handler::create_dynamic_route`. -/
def createDynamicRoute (cap : Capacity) (h : RequestHandler δ ε) :
    Except Abort (UInt32 × RequestHandler δ ε) := do
  let dynamicRoutes ← push cap h.dynamicRoutes {}
  return (0x80000000 ||| UInt32.ofNat (dynamicRoutes.length - 1), { h with dynamicRoutes })

/-- `request_handler::append_endpoint`. -/
def appendEndpoint (cap : Capacity) (h : RequestHandler δ ε) (method : UInt32)
    (callback : RouterCallback δ ε) : Except Abort (RequestHandler δ ε) := do
  let endpoints ← push cap h.endpoints method
  let callbacks ← push cap h.callbacks callback
  return { h with endpoints, callbacks }

/-- `request_handler::create_endpoint`. -/
def createEndpoint (cap : Capacity) (h : RequestHandler δ ε) (method : UInt32)
    (callback : RouterCallback δ ε) : Except Abort (ℤ × RequestHandler δ ε) := do
  let endpoints ← push cap h.endpoints (method ||| 0x80000000)
  let callbacks ← push cap h.callbacks callback
  return ((endpoints.length : ℤ) - 1, { h with endpoints, callbacks })

/-- Write a static node back. -/
def setStatic (h : RequestHandler δ ε) (i : ℕ) (sr : StaticRouterData) : RequestHandler δ ε :=
  { h with staticRoutes := h.staticRoutes.set i sr }

/-- Write a dynamic node back. -/
def setDynamic (h : RequestHandler δ ε) (i : ℕ) (dr : DynamicRouterData) : RequestHandler δ ε :=
  { h with dynamicRoutes := h.dynamicRoutes.set i dr }

/-- `request_handler::add_endpoint`. -/
def addEndpoint (cap : Capacity) (h : RequestHandler δ ε) (sptr : ℕ) (method : UInt32)
    (callback : RouterCallback δ ε) : Except Abort (RequestHandler δ ε) := do
  let sr ← at? h.staticRoutes sptr
  if sr.endpointPos = -1 then
    let (pos, h) ← createEndpoint cap h method callback
    return h.setStatic sptr { sr with endpointPos := pos }
  else appendEndpoint cap h method callback

/-- The variables of `finalize` that live from one segment of a route to the
next; `dptr` also lives from one route to the next. -/
structure Cursor where
  prevId : UInt32
  sptr : ℕ
  dptr : Option ℕ
deriving DecidableEq

/-- The body of the loop over the segments of a route. `dynamicNext` tells that
the path goes on with the dynamic prefix. -/
def insertSegment (cap : Capacity) (h : RequestHandler δ ε) (c : Cursor) (substr : Bytes)
    (dynamicNext : Bool) : Except Abort (RequestHandler δ ε × Cursor) := do
  match c.dptr with
  | some d =>
      let dr ← at? h.dynamicRoutes d
      if dr.idPtr ≠ unset then
        -- go back to static, or on to the next dynamic node
        if isDynamic dr.idPtr then
          let _ ← at? h.dynamicRoutes (getPos dr.idPtr)
          return (h, { c with prevId := dr.idPtr, dptr := some (getPos dr.idPtr) })
        else
          let _ ← at? h.staticRoutes dr.idPtr.toNat
          return (h, { prevId := dr.idPtr, sptr := dr.idPtr.toNat, dptr := none })
      else
        let (id, h) ← createStaticRoute cap h
        let name ←
          if dr.name = [] then
            match substring substr 1 substr.length with
            | .ok name => pure name
            | .error code => throw (.error code)
          else pure dr.name
        let h := h.setDynamic d { name := name, idPtr := id }
        if dynamicNext then
          -- append another dynamic route
          let (id, h) ← createDynamicRoute cap h
          let prev := getPos c.prevId
          let dr ← at? h.dynamicRoutes prev
          let h := h.setDynamic prev { dr with idPtr := id }
          return (h, { c with prevId := id, dptr := some (getPos id) })
        else
          let dr ← at? h.dynamicRoutes d
          let _ ← at? h.staticRoutes dr.idPtr.toNat
          return (h, { prevId := dr.idPtr, sptr := dr.idPtr.toNat, dptr := none })
  | none =>
      let sr ← at? h.staticRoutes c.sptr
      let (id, sptr, h) ←
        match sr.map.lookup substr with
        | some id => pure (id, c.sptr, h)
        | none =>
            if dynamicNext then do
              let (id, h) ← createDynamicRoute cap h
              pure (id, c.sptr, h.setStatic c.sptr { sr with map := (substr, id) :: sr.map })
            else do
              let (id, h) ← createStaticRoute cap h
              -- the node is fetched again: the vector has grown
              let prev := c.prevId.toNat
              let sr ← at? h.staticRoutes prev
              pure (id, prev, h.setStatic prev { sr with map := (substr, id) :: sr.map })
      if isDynamic id then
        let _ ← at? h.dynamicRoutes (getPos id)
        return (h, { prevId := id, sptr := sptr, dptr := some (getPos id) })
      else
        let _ ← at? h.staticRoutes id.toNat
        return (h, { prevId := id, sptr := id.toNat, dptr := none })

/-- The loop body of `finalize` between two places of the path. -/
def insertPiece (cap : Capacity) (path : Bytes) (st : RequestHandler δ ε × Cursor)
    (start stop : ℕ) : Except Abort (RequestHandler δ ε × Cursor) :=
  match substring path start stop with
  | .ok substr =>
      insertSegment cap st.1 st.2 substr
        (stop + 1 < path.length ∧ path[stop + 1]? = some dynamicPrefix)
  | .error code => .error (.error code)

/-- The path of a route without its trailing slash. -/
def normalize (path : CString) : Except Abort Bytes :=
  match path.bytes.getLast? with
  | some c => .ok (if c = slash then path.bytes.dropLast else path.bytes)
  | none => .error .outOfRange

/-- The end of a route in `finalize`: a dynamic node gets a static successor, then
the endpoint is added. -/
def finishRoute (cap : Capacity) (h : RequestHandler δ ε) (c : Cursor) (method : UInt32)
    (callback : RouterCallback δ ε) : Except Abort (RequestHandler δ ε × Option ℕ) := do
  let (h, sptr) ←
    match c.dptr with
    | some d => do
        let (id, h) ← createStaticRoute cap h
        let dr ← at? h.dynamicRoutes d
        pure (h.setDynamic d { dr with idPtr := id }, id.toNat)
    | none => pure (h, c.sptr)
  let h ← addEndpoint cap h sptr method callback
  return (h, c.dptr)

/-- One route of the loop of `finalize`: its segments, then its endpoint. -/
def insertRoute (cap : Capacity) (st : RequestHandler δ ε × Option ℕ)
    (route : RouterKey × RouterCallback δ ε) :
    Except Abort (RequestHandler δ ε × Option ℕ) := do
  let (h, dptr) := st
  let path ← normalize route.1.path
  let start := if path[0]? = some slash then 1 else 0
  let (h, c) ← scan slash path path.length (insertPiece cap path) (path.length + 1 - start)
    start start (h, ({ prevId := 0, sptr := 0, dptr := dptr } : Cursor))
  finishRoute cap h c (UInt32.ofInt route.1.method) route.2

/-- `request_handler::finalize`. -/
def finalize (cap : Capacity) (h : RequestHandler δ ε) :
    Except Abort (RequestHandler δ ε) := do
  -- id 0 is the start
  let staticRoutes ← push cap h.staticRoutes {}
  let (h, _) ← h.routers.foldlM (insertRoute cap) ({ h with staticRoutes }, none)
  return { h with routers := [] }

/-- What `handle_request` does: it executes a callback on the request with its
path parameters, or it sets a response. -/
inductive Outcome (δ ε : Type)
  | executed (callback : RouterCallback δ ε) (req : Request)
  | responded (res : Response)

/-- `router_callback::execute` of the callback at a position. -/
def execute (h : RequestHandler δ ε) (pos : ℕ) (req : Request) : Option (Outcome δ ε) :=
  h.callbacks[pos]?.map fun callback => .executed callback req

/-- The loop over the rest of the endpoints; the first number bounds it. -/
def scanEndpoints (h : RequestHandler δ ε) (req : Request) : ℕ → ℕ → Option (Outcome δ ε)
  | 0, _ => some (.responded (stockResponse .notFound))
  | n + 1, start =>
      if start < h.endpoints.length ∧ ¬ isNewEndpoint (UInt32.ofNat start) then do
        let endpoint ← h.endpoints[start]?
        -- the comparison sits inside the call of `get_method`
        if getMethod (if endpoint = req.method.toUInt32 then 1 else 0) ≠ 0 then
          h.execute start req
        else scanEndpoints h req n (start + 1)
      else some (.responded (stockResponse .notFound))

/-- Find the endpoint of the method in the group at `pos`. -/
def selectEndpoint (h : RequestHandler δ ε) (pos : ℕ) (req : Request) :
    Option (Outcome δ ε) := do
  let endpoint ← h.endpoints[pos]?
  if getMethod endpoint = req.method then h.execute pos req
  else h.scanEndpoints req (h.endpoints.length - pos) (pos + 1)

/-- The variables of the walk along a URI. -/
structure WalkState where
  req : Request
  sroute : ℕ
  droute : Option ℕ

/-- The body of the loop over the segments of a URI. It ends the walk with an
outcome, or with `none` on an access outside a vector. -/
def walkSegment (h : RequestHandler δ ε) (st : WalkState) (substr : Bytes) :
    Except (Option (Outcome δ ε)) WalkState :=
  match st.droute with
  | some d =>
      match h.dynamicRoutes[d]? with
      | none => .error none
      | some dr =>
          let req := { st.req with pathParams := st.req.pathParams ++ [⟨dr.name, substr⟩] }
          if isDynamic dr.idPtr then
            if getPos dr.idPtr < h.dynamicRoutes.length then
              .ok { st with req := req, droute := some (getPos dr.idPtr) }
            else .error none
          else if dr.idPtr.toNat < h.staticRoutes.length then
            .ok { req := req, sroute := dr.idPtr.toNat, droute := none }
          else .error none
  | none =>
      match h.staticRoutes[st.sroute]? with
      | none => .error none
      | some sr =>
          match sr.map.lookup substr with
          | none => .error (some (.responded (stockResponse .notFound)))
          | some id =>
              if isDynamic id then
                if getPos id < h.dynamicRoutes.length then
                  .ok { st with droute := some (getPos id) }
                else .error none
              else if id.toNat < h.staticRoutes.length then .ok { st with sroute := id.toNat }
              else .error none

/-- The loop body of `handle_request` between two places of the URI. -/
def walkPiece (h : RequestHandler δ ε) (uri : Bytes) (st : WalkState) (start stop : ℕ) :
    Except (Option (Outcome δ ε)) WalkState :=
  match substring uri start stop with
  | .error _ => .error (some (.responded (stockResponse .internalServerError)))
  | .ok substr => walkSegment h st substr

/-- `request_handler::handle_request`; `none` is an access outside a container. -/
def handleRequest (h : RequestHandler δ ε) (req : Request) : Option (Outcome δ ε) := do
  if req.uri = lit "/" then
    let root ← h.staticRoutes[0]?
    if root.endpointPos = -1 then some (.responded (stockResponse .notFound))
    else h.execute root.endpointPos.toNat req
  else
    let last ← req.uri.getLast?
    let size := req.uri.length - (if last = slash then 1 else 0)
    match scan slash req.uri size (h.walkPiece req.uri) size 1 1
        { req := req, sroute := 0, droute := none } with
    | .error outcome => outcome
    | .ok st =>
        let sroute ← h.staticRoutes[st.sroute]?
        if sroute.endpointPos = -1 then some (.responded (stockResponse .notFound))
        else h.selectEndpoint sroute.endpointPos.toNat st.req

end RequestHandler

end RePlace.Http
