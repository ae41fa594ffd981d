import RePlace.Api.Application
import RePlace.Http.Allocations
import RePlace.Service.Faults

/-!
# The application when it fails

The application with all that can fail while a request is handled: the walk along the URI,
the calls of the service, and the strings of the response. The endpoints ignore the error
codes of the latter, so a response can lack parts of its content or of its cookie. Its
status is the one of the call: it is `200 OK` only when the call has succeeded. A stock
response without room for its headers is an access outside a container.
-/

namespace RePlace.App.Faulty

open Api.Auth (Asks Endpoint asks_cases distinctPaths_routes httpGet httpPost sessionCookieName
  sessionId loginRoute registerRoute logoutRoute userRoute)
open Auth (Answer)
open Auth.Faulty (Call)
open Bytes (lit)
open Http (Header Request Response Router RequestHandler SegmentFaults)

/-! ## Responses -/

/-- The allocations for a response that fail: those of the session cookie, and those of the
parts of the content. -/
structure ReplyFaults where
  name : Allocation := none
  value : Allocation := none
  session : Allocation := none
  semicolon : Allocation := none
  push : Allocation := none
  content : ℕ → Allocation := fun _ => none

/-- The allocations for a stock response that fail: the content, the headers, and their
names and values. -/
structure StockFaults where
  content : Allocation := none
  headers : Allocation := none
  lengthName : Allocation := none
  lengthValue : Allocation := none
  typeName : Allocation := none
  typeValue : Allocation := none

/-- `response::stock_response`. The error codes are ignored, and without room for the headers
the first of them is outside of the vector. -/
def stockResponse (f : StockFaults) (status : Http.StatusType) : Option Response :=
  let content := (copyString f.content [] (Http.stockReply status)).1
  match f.headers with
  | some _ => none
  | none => some {
      status
      headers :=
        [{ name := (copyString f.lengthName [] (lit "Content-Length")).1
           value := (copyString f.lengthValue [] (Http.toDecimal content.length)).1 },
          { name := (copyString f.typeName [] (lit "Content-Type")).1
            value := (copyString f.typeValue [] (lit "text/html")).1 }]
      content }

theorem stockResponse_unfailing (status : Http.StatusType) :
    stockResponse {} status = some (Http.stockResponse status) := rfl

/-- How a request ends that is answered with a stock response. -/
def stockReaction (f : StockFaults) (status : Http.StatusType) : Reaction :=
  match stockResponse f status with
  | none => .outOfRange
  | some res => .responded res

/-- `string::append`. -/
def appendString (alloc : Allocation) (target source : Bytes) : Bytes :=
  match alloc with
  | none => target ++ source
  | some _ => target

/-- The response with a status and a content, when the error code of the copy is ignored. -/
def fill (f : ReplyFaults) (res : Response) (status : Http.StatusType) (content : String) :
    Response :=
  { res with status, content := (copyString (f.content 0) res.content (lit content)).1 }

/-- What `post_login` makes of the response. -/
def loginResponse (f : ReplyFaults) (res : Response) : Except ErrorCode Uuid → Response
  | .error _ => fill f res .unauthorized "Auth Failed"
  | .ok s =>
      let value := (copyString f.value [] sessionCookieName).1
      let cookie : Header :=
        { name := (copyString f.name [] (lit "Set-Cookie")).1
          value := appendString f.semicolon (appendString f.session value s.text.bytes)
            (lit ";") }
      let headers := if f.push.isNone then res.headers ++ [cookie] else res.headers
      fill f { res with headers } .ok "Logged In"

/-- What `post_register` makes of the response. -/
def registerResponse (f : ReplyFaults) (res : Response) : Except ErrorCode Unit → Response
  | .error _ => fill f res .badRequest "Bad Request"
  | .ok () => fill f res .ok "Registered"

/-- What `post_logout` makes of the response. -/
def logoutResponse (f : ReplyFaults) (res : Response) : Except ErrorCode Unit → Response
  | .error _ => fill f res .badRequest "Bad Request"
  | .ok () => fill f res .ok "Logged out"

/-- What `get_user` makes of the response. -/
def userResponse (f : ReplyFaults) (res : Response) : Except ErrorCode User → Response
  | .error _ => fill f res .unauthorized "Unauthorized"
  | .ok user =>
      let res := fill f res .ok "["
      let content := appendString (f.content 1) res.content user.id.buffer
      let content := appendString (f.content 2) content (lit "]: ")
      { res with content := appendString (f.content 3) content user.username }

/-! ## Endpoints -/

/-- `post_login`. -/
def postLogin (f : ReplyFaults) (req : Request) (res : Response) : Endpoint :=
  match req.getBodyParameter (.lit "username"), req.getBodyParameter (.lit "password") with
  | some username, some password =>
      .call (.login username password) fun r => .respond (loginResponse f res r)
  | _, _ => .abort

/-- `post_register`. -/
def postRegister (f : ReplyFaults) (req : Request) (res : Response) : Endpoint :=
  match req.getBodyParameter (.lit "username"), req.getBodyParameter (.lit "password") with
  | some username, some password =>
      .call (.registerUser username password) fun r => .respond (registerResponse f res r)
  | _, _ => .abort

/-- `post_logout`. -/
def postLogout (f : ReplyFaults) (req : Request) (res : Response) : Endpoint :=
  let sessionId := sessionId req.headers
  if sessionId.isEmpty then .respond (fill f res .unauthorized "Unauthorized")
  else .call (.logout sessionId) fun r => .respond (logoutResponse f res r)

/-- `get_user`. -/
def getUser (f : ReplyFaults) (req : Request) (res : Response) : Endpoint :=
  let sessionId := sessionId req.headers
  if sessionId.isEmpty then .respond (fill f res .unauthorized "Unauthorized")
  else .call (.getUser sessionId) fun r => .respond (userResponse f res r)

/-- What a route executes. -/
abbrev Handler := ReplyFaults → Request → Response → Endpoint

/-- The routes of `api::auth::setup`. -/
def routes : List (Router Unit Handler) :=
  [{ method := httpPost, path := .lit "/api/auth/login", data := (), endpoint := postLogin },
    { method := httpPost, path := .lit "/api/auth/register", data := (),
      endpoint := postRegister },
    { method := httpPost, path := .lit "/api/auth/logout", data := (), endpoint := postLogout },
    { method := httpGet, path := .lit "/api/user", data := (), endpoint := getUser }]

/-- The handler that `setup` and `finalize` leave behind. -/
def Ready (h : RequestHandler Unit Handler) : Prop :=
  ∃ cap, Http.RequestHandler.finalize cap (Http.RequestHandler.table routes) = .ok h

/-! ## Requests -/

/-- What fails while a request is handled. -/
structure RequestFaults where
  segments : ℕ → SegmentFaults := fun _ => {}
  user : UserFaults := {}
  db : DbFaults := {}
  store : StoreFaults := {}
  reply : ReplyFaults := {}
  stock : StockFaults := {}

/-- A call of the service with what is come up with for it and what fails in it. -/
def call (f : RequestFaults) (ch : Chance) : Api.Auth.Call → Call
  | .login username password =>
      .login (some username) (some password) ch.sessionId f.user f.db f.store
  | .registerUser username password =>
      .registerUser (some username) (some password) ch.id ch.accepted f.user f.db
  | .logout s => .logout s f.store
  | .getUser s => .getUser s f.store

/-- What has been done for a request. -/
abbrev Output := OutputOf Call

variable (argon2 : Argon2)

/-- The callback of a route runs. -/
def run (f : RequestFaults) (ch : Chance) : World → Endpoint → World × Output :=
  runOver (Auth.Faulty.step argon2) (call f ch)

variable (h : RequestHandler Unit Handler)

/-- `request_handler::handle_request` with the callback that it executes. The responses that
it makes itself are stock responses. -/
def serve (f : RequestFaults) (ch : Chance) (w : World) (req : Request) : World × Output :=
  serveOver (Auth.Faulty.step argon2) (call f ch) (fun res => stockReaction f.stock res.status)
    (fun endpoint req => endpoint f.reply req {}) w (h.handleRequestAlloc f.segments req)

/-- A request whose URI is not empty, with what fails, or the expiry of a session. -/
inductive Input
  | request (req : Request) (hne : req.uri ≠ []) (ch : Chance) (f : RequestFaults)
  | expire (s : Uuid)

/-- One request, or the expiry of a session. -/
def step (w : World) : Input → World × Output
  | .request req _ ch f => serve argon2 h f ch w req
  | .expire s =>
      let (w, answer) := Auth.Faulty.step argon2 w (.expire s)
      (w, ⟨[(.expire s, answer)], none⟩)

/-- The runs of the application, from an empty table and an empty store. -/
abbrev Run : List (Input × Output) → World → Prop := History.Run (step argon2 h) {}

/-- The calls of the service in a history. -/
def calls (hist : List (Input × Output)) : List (Call × Answer) :=
  hist.flatMap fun e => e.2.calls

variable {argon2 h} {hist : List (Input × Output)} {w : World} {req : Request} {ch : Chance}
  {f : RequestFaults}

/-! ## Dispatch -/

theorem keys_routes : routes.map Router.key = (Api.Auth.routes ()).map Router.key := rfl

theorem handleRequest_eq (hready : Ready h) (hne : req.uri ≠ []) :
    h.handleRequest req = some (Http.RequestHandler.routed routes req) := by
  obtain ⟨cap, hok⟩ := hready
  exact Http.RequestHandler.dispatch_distinctPaths
    ((distinctPaths_routes ()).of_keys keys_routes)
    (Http.RequestHandler.finalize_refines hok) hne

/-- A request that asks for a route executes its endpoint. -/
theorem handleRequest_of_asks (hready : Ready h) (hne : req.uri ≠ []) {r : Router Unit Handler}
    {r' : Router Unit Api.Auth.Handler} (hr : r ∈ routes) (hkey : r.key = r'.key)
    (hasks : Asks req r') : h.handleRequest req = some (.executed r.callback req) := by
  have ht := (distinctPaths_routes ()).of_keys keys_routes
  obtain ⟨hmethod, huri⟩ := hasks
  have hpath : r.path = r'.path := congrArg Http.RouterKey.path hkey
  have hfound : Http.RequestHandler.routeOf routes req = some r := by
    refine (Http.RequestHandler.routeOf_eq_some_iff ht).mpr ⟨hr, ?_, ?_⟩
    · rw [(ht.canonical r hr).segments_eq_iff hne, hpath]
      exact huri
    · exact (congrArg Http.RouterKey.method hkey).trans hmethod
  rw [handleRequest_eq hready hne, Http.RequestHandler.routed, hfound]

/-- A request that asks for no route is not found. -/
theorem handleRequest_of_not_asks (hready : Ready h) (hne : req.uri ≠ [])
    (hnone : ∀ r ∈ Api.Auth.routes (), ¬ Asks req r) :
    h.handleRequest req = some (.responded (Http.stockResponse .notFound)) := by
  have ht := (distinctPaths_routes ()).of_keys keys_routes
  have hmissing : Http.RequestHandler.routeOf routes req = none := by
    rw [Option.eq_none_iff_forall_ne_some]
    intro r hfound
    obtain ⟨hr, hseg, hmethod⟩ := (Http.RequestHandler.routeOf_eq_some_iff ht).mp hfound
    have hmem : r.key ∈ (Api.Auth.routes ()).map Router.key :=
      keys_routes ▸ List.mem_map_of_mem hr
    obtain ⟨r', hr', hkey⟩ := List.mem_map.mp hmem
    have hpath : r'.path = r.path := congrArg Http.RouterKey.path hkey
    refine hnone r' hr' ⟨(congrArg Http.RouterKey.method hkey).trans hmethod, ?_⟩
    rw [hpath]
    exact ((ht.canonical r hr).segments_eq_iff hne).mp hseg
  rw [handleRequest_eq hready hne, Http.RequestHandler.routed, hmissing]

/-- The walk along the URI goes through, and the endpoint that is asked for runs. -/
theorem serve_of_through (hready : Ready h) (hne : req.uri ≠ [])
    {r : Router Unit Handler} {r' : Router Unit Api.Auth.Handler} (hr : r ∈ routes)
    (hkey : r.key = r'.key) (hasks : Asks req r')
    (hthrough : h.handleRequestAlloc f.segments req = h.handleRequest req) (w : World) :
    serve argon2 h f ch w req = run argon2 f ch w (r.endpoint f.reply req {}) := by
  rw [serve, hthrough, handleRequest_of_asks hready hne hr hkey hasks]
  rfl

theorem serve_of_failed
    (hfail : h.handleRequestAlloc f.segments req = some Http.RequestHandler.serverError)
    (w : World) : serve argon2 h f ch w req =
      (w, ⟨[], some (stockReaction f.stock .internalServerError)⟩) := by
  rw [serve, hfail]
  rfl

theorem serve_of_not_asks (hready : Ready h) (hne : req.uri ≠ [])
    (hnone : ∀ r ∈ Api.Auth.routes (), ¬ Asks req r)
    (hthrough : h.handleRequestAlloc f.segments req = h.handleRequest req) (w : World) :
    serve argon2 h f ch w req = (w, ⟨[], some (stockReaction f.stock .notFound)⟩) := by
  rw [serve, hthrough, handleRequest_of_not_asks hready hne hnone]
  rfl

/-- A request that asks for a route executes its endpoint, or the walk along its URI fails. -/
theorem serve_of_asks (hready : Ready h) (hne : req.uri ≠ []) {r : Router Unit Handler}
    {r' : Router Unit Api.Auth.Handler} (hr : r ∈ routes) (hkey : r.key = r'.key)
    (hasks : Asks req r') (w : World) :
    serve argon2 h f ch w req = run argon2 f ch w (r.endpoint f.reply req {}) ∨
      serve argon2 h f ch w req =
        (w, ⟨[], some (stockReaction f.stock .internalServerError)⟩) := by
  rcases h.handleRequestAlloc_eq f.segments req with hthrough | ⟨hfail, -⟩
  · exact .inl (serve_of_through hready hne hr hkey hasks hthrough w)
  · exact .inr (serve_of_failed hfail w)

/-! ## What an input does -/

/-- The two parameters, or one of them is missing and an assertion fails. -/
theorem credentials_cases (g : ReplyFaults) (req : Request) :
    (∃ username password, Credentials req username password ∧
      postLogin g req {} = .call (.login username password)
        (fun r => .respond (loginResponse g {} r)) ∧
      postRegister g req {} = .call (.registerUser username password)
        (fun r => .respond (registerResponse g {} r))) ∨
    postLogin g req {} = .abort ∧ postRegister g req {} = .abort := by
  unfold Credentials postLogin postRegister
  cases req.getBodyParameter (.lit "username") with
  | none => exact .inr ⟨rfl, rfl⟩
  | some username =>
      cases req.getBodyParameter (.lit "password") with
      | none => exact .inr ⟨rfl, rfl⟩
      | some password => exact .inl ⟨username, password, ⟨rfl, rfl⟩, rfl, rfl⟩

/-- How `get_user` ends. -/
def userReaction (g : ReplyFaults) : Option (Except ErrorCode User) → Reaction
  | none => .outOfRange
  | some r => .responded (userResponse g {} r)

/-- What an input does in a world. -/
inductive Does (argon2 : Argon2) (w : World) : Input → World × Output → Prop
  | expire (s : Uuid) : Does argon2 w (.expire s)
      ((Auth.Faulty.step argon2 w (.expire s)).1, ⟨[(.expire s, .expired)], none⟩)
  | refused {req hne ch f reaction}
      (hstatus : ∀ res, reaction = Reaction.responded res → res.status ≠ .ok) :
      Does argon2 w (.request req hne ch f) (w, ⟨[], some reaction⟩)
  | login {req hne ch f username password w' r} (hasks : Asks req (loginRoute ()))
      (hcred : Credentials req username password)
      (hcall : Auth.Faulty.login argon2 w (some username) (some password) ch.sessionId f.user
        f.db f.store = (w', r)) :
      Does argon2 w (.request req hne ch f)
        (w', ⟨[(.login (some username) (some password) ch.sessionId f.user f.db f.store,
          .loggedIn r)], some (.responded (loginResponse f.reply {} r))⟩)
  | register {req hne ch f username password w' r} (hasks : Asks req (registerRoute ()))
      (hcred : Credentials req username password)
      (hcall : Auth.Faulty.registerUser argon2 w (some username) (some password) ch.id
        ch.accepted f.user f.db = (w', r)) :
      Does argon2 w (.request req hne ch f)
        (w', ⟨[(.registerUser (some username) (some password) ch.id ch.accepted f.user f.db,
          .registered r)], some (.responded (registerResponse f.reply {} r))⟩)
  | logout {req hne ch f w' r} (hasks : Asks req (logoutRoute ()))
      (hcall : Auth.Faulty.logout w (sessionId req.headers) f.store = (w', r)) :
      Does argon2 w (.request req hne ch f)
        (w', ⟨[(.logout (sessionId req.headers) f.store, .loggedOut r)],
          some (.responded (logoutResponse f.reply {} r))⟩)
  | user {req hne ch f r} (hasks : Asks req (userRoute ()))
      (hcall : Auth.Faulty.getUser w (sessionId req.headers) f.store = r) :
      Does argon2 w (.request req hne ch f)
        (w, ⟨[(.getUser (sessionId req.headers) f.store, .gotUser r)],
          some (userReaction f.reply r)⟩)

theorem run_getUser (w : World) (s : Uuid) : run argon2 f ch w
      (.call (.getUser s) fun r => .respond (userResponse f.reply {} r)) =
    (w, ⟨[(.getUser s f.store, .gotUser (Auth.Faulty.getUser w s f.store))],
      some (userReaction f.reply (Auth.Faulty.getUser w s f.store))⟩) := by
  rw [run, runOver]
  simp only [call, Auth.Faulty.step, result_getUser]
  cases Auth.Faulty.getUser w s f.store <;> rfl

section Requests

variable {hne : req.uri ≠ []}

theorem stockReaction_status (g : StockFaults) {status : Http.StatusType} {res : Response}
    (h : stockReaction g status = .responded res) : res.status = status := by
  unfold stockReaction stockResponse at h
  cases hroom : g.headers with
  | none =>
      rw [hroom] at h
      obtain rfl := Reaction.responded.inj h
      rfl
  | some code =>
      rw [hroom] at h
      cases h

theorem does_stock {status : Http.StatusType} (hstatus : status ≠ .ok) (w : World) :
    Does argon2 w (.request req hne ch f)
      (w, ⟨[], some (stockReaction f.stock status)⟩) := by
  refine .refused fun res hres => ?_
  rw [stockReaction_status f.stock hres]
  exact hstatus

theorem does_noSession (w : World) : Does argon2 w (.request req hne ch f)
    (w, ⟨[], some (.responded (fill f.reply {} .unauthorized "Unauthorized"))⟩) := by
  refine .refused fun res hres => ?_
  rw [← Reaction.responded.inj hres]
  exact nofun

theorem does_postLogin (hasks : Asks req (loginRoute ())) (w : World) :
    Does argon2 w (.request req hne ch f) (run argon2 f ch w (postLogin f.reply req {})) := by
  rcases credentials_cases f.reply req with ⟨_, _, hcred, hlogin, -⟩ | ⟨hlogin, -⟩
  · rw [hlogin]
    exact .login hasks hcred rfl
  · rw [hlogin]
    exact .refused fun res hres => by cases hres

theorem does_postRegister (hasks : Asks req (registerRoute ())) (w : World) :
    Does argon2 w (.request req hne ch f) (run argon2 f ch w (postRegister f.reply req {})) := by
  rcases credentials_cases f.reply req with ⟨_, _, hcred, -, hregister⟩ | ⟨-, hregister⟩
  · rw [hregister]
    exact .register hasks hcred rfl
  · rw [hregister]
    exact .refused fun res hres => by cases hres

theorem does_postLogout (hasks : Asks req (logoutRoute ())) (w : World) :
    Does argon2 w (.request req hne ch f) (run argon2 f ch w (postLogout f.reply req {})) := by
  unfold postLogout
  by_cases hs : (sessionId req.headers).isEmpty
  · rw [if_pos hs]
    exact does_noSession w
  · rw [if_neg hs]
    exact .logout hasks rfl

theorem does_getUser (hasks : Asks req (userRoute ())) (w : World) :
    Does argon2 w (.request req hne ch f) (run argon2 f ch w (getUser f.reply req {})) := by
  unfold getUser
  by_cases hs : (sessionId req.headers).isEmpty
  · rw [if_pos hs]
    exact does_noSession w
  · rw [if_neg hs, run_getUser]
    exact .user hasks rfl

/-- The endpoint that is asked for runs, or the walk along the URI fails. -/
theorem does_of_asks (hready : Ready h) {r : Router Unit Handler}
    {r' : Router Unit Api.Auth.Handler} (hr : r ∈ routes) (hkey : r.key = r'.key)
    (hasks : Asks req r') {w : World}
    (hrun : Does argon2 w (.request req hne ch f)
      (run argon2 f ch w (r.endpoint f.reply req {}))) :
    Does argon2 w (.request req hne ch f) (step argon2 h w (.request req hne ch f)) := by
  rw [step]
  rcases @serve_of_asks argon2 h req ch f hready hne r r' hr hkey hasks w with hsame | hfail
  · rw [hsame]
    exact hrun
  · rw [hfail]
    exact does_stock (by decide) w

end Requests

/-- Everything that an input can do. -/
theorem step_does (hready : Ready h) (w : World) (a : Input) :
    Does argon2 w a (step argon2 h w a) := by
  cases a with
  | expire s => exact .expire s
  | request req hne ch f =>
      rcases asks_cases () req with hasks | hasks | hasks | hasks | hnone
      · exact does_of_asks hready (.head _) rfl hasks (does_postLogin hasks w)
      · exact does_of_asks hready (.tail _ (.head _)) rfl hasks (does_postRegister hasks w)
      · exact does_of_asks hready (.tail _ (.tail _ (.head _))) rfl hasks
          (does_postLogout hasks w)
      · exact does_of_asks hready (.tail _ (.tail _ (.tail _ (.head _)))) rfl hasks
          (does_getUser hasks w)
      · rw [step]
        rcases h.handleRequestAlloc_eq f.segments req with hthrough | ⟨hfail, -⟩
        · rw [serve_of_not_asks hready hne hnone hthrough]
          exact does_stock (by decide) w
        · rw [serve_of_failed hfail]
          exact does_stock (by decide) w

end RePlace.App.Faulty
