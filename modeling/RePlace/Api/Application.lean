import RePlace.Api.Execution
import RePlace.Service.SessionLife

/-!
# The application

The request handler, the endpoints and the service together: a request is routed, the
endpoint that is executed calls the service, and the service works on the table of
users and the session store. Each input of the machine is a request, with what the
database and `generate_uuidv4` come up with for it, or the expiry of a session. Every
run of the application is a run of the service (`calls_run`).
-/

namespace RePlace.App

open Api.Auth
open Bytes (lit)
open Auth (Action Answer)
open Http (Request Response RequestHandler)

/-- What the database and `generate_uuidv4` come up with for a request. -/
structure Chance where
  id : Uuid
  accepted : Bool
  sessionId : Uuid

/-- A call of the service with what is come up with for it. -/
def action (ch : Chance) : Call → Action
  | .login username password => .login (some username) (some password) ch.sessionId
  | .registerUser username password =>
      .registerUser (some username) (some password) ch.id ch.accepted
  | .logout s => .logout s
  | .getUser s => .getUser s

/-- What has been done for a request. -/
abbrev Output := OutputOf Action

variable (argon2 : Argon2)

/-- The callback of a route runs. -/
def run (ch : Chance) : World → Endpoint → World × Output :=
  runOver (Auth.step argon2) (action ch)

variable (h : RequestHandler Unit Handler)

/-- `request_handler::handle_request` with the callback that it executes. -/
def serve (ch : Chance) (w : World) (req : Request) : World × Output :=
  serveOver (Auth.step argon2) (action ch) .responded (fun endpoint req => endpoint req {}) w
    (h.handleRequest req)

/-- A request whose URI is not empty, or the expiry of a session. -/
inductive Input
  | request (req : Request) (hne : req.uri ≠ []) (ch : Chance)
  | expire (s : Uuid)

/-- One request, or the expiry of a session. -/
def step (w : World) : Input → World × Output
  | .request req _ ch => serve argon2 h ch w req
  | .expire s =>
      let (w, answer) := Auth.step argon2 w (.expire s)
      (w, ⟨[(.expire s, answer)], none⟩)

/-- The runs of the application, from an empty table and an empty store. -/
abbrev Run : List (Input × Output) → World → Prop := History.Run (step argon2 h) {}

/-- The calls of the service in a history. -/
def calls (hist : List (Input × Output)) : List (Action × Answer) := hist.flatMap fun e => e.2.calls

@[simp] theorem calls_nil : calls [] = [] := rfl

@[simp] theorem calls_concat (hist : List (Input × Output)) (e : Input × Output) :
    calls (hist ++ [e]) = calls hist ++ e.2.calls := by
  simp [calls]

variable {argon2 h} {hist : List (Input × Output)} {w : World} {req : Request} {ch : Chance}

/-! ## The service -/

/-- A run of the application is a run of the service with its calls. -/
theorem calls_run (hrun : Run argon2 h hist w) : Auth.Run argon2 (calls hist) w := by
  refine hrun.induction (K := fun hist w => Auth.Run argon2 (calls hist) w) .start ?_
  intro hist w a ih
  rw [calls_concat]
  cases a with
  | request req hne ch =>
      exact serveOver_calls (K := Auth.Run argon2) (fun _ _ c hpast => hpast.next c) _ _ ih _
  | expire s => exact ih.next (.expire s)

/-! ## What a request does -/

/-- The endpoint of the route that a request asks for runs. -/
theorem serve_of_asks (hready : Ready h ()) (hne : req.uri ≠ []) {r : Http.Router Unit Handler}
    (hr : r ∈ routes ()) (hasks : Asks req r) (w : World) :
    serve argon2 h ch w req = run argon2 ch w (r.endpoint req {}) := by
  rw [serve, handleRequest_eq hready hne, Http.RequestHandler.routed,
    (routeOf_eq_some_iff hne).mpr ⟨hr, hasks⟩]
  rfl

/-- A request that asks for no route does nothing. -/
theorem serve_of_not_asks (hready : Ready h ()) (hne : req.uri ≠ [])
    (hnone : ∀ r ∈ routes (), ¬ Asks req r) (w : World) : serve argon2 h ch w req =
      (w, ⟨[], some (.responded (Http.stockResponse .notFound))⟩) := by
  rw [serve, handleRequest_eq hready hne, Http.RequestHandler.routed,
    (routeOf_eq_none_iff hne).mpr hnone]
  rfl

/-! ## The endpoints -/

/-- What `post_login` answers. -/
def loginResponse : Except ErrorCode Uuid → Response
  | .error _ => { status := .unauthorized, content := lit "Auth Failed" }
  | .ok s =>
      { status := .ok
        headers := [{ name := lit "Set-Cookie",
                      value := sessionCookieName ++ s.text.bytes ++ lit ";" }]
        content := lit "Logged In" }

/-- What `post_register` answers. -/
def registerResponse : Except ErrorCode Unit → Response
  | .error _ => { status := .badRequest, content := lit "Bad Request" }
  | .ok () => { status := .ok, content := lit "Registered" }

/-- What `post_logout` answers. -/
def logoutResponse : Except ErrorCode Unit → Response
  | .error _ => { status := .badRequest, content := lit "Bad Request" }
  | .ok () => { status := .ok, content := lit "Logged out" }

/-- What `post_logout` and `get_user` answer without a session id. -/
def unauthorized : Response where
  status := .unauthorized
  content := lit "Unauthorized"

/-- What `get_user` answers. -/
def userResponse : Except ErrorCode User → Response
  | .error _ => unauthorized
  | .ok user =>
      { status := .ok, content := lit "[" ++ user.id.buffer ++ lit "]: " ++ user.username }

/-- How `get_user` ends. -/
def userReaction : Option (Except ErrorCode User) → Reaction
  | none => .outOfRange
  | some r => .responded (userResponse r)

theorem call_congr {c : Call} {next next' : c.Result → Endpoint} (h : ∀ r, next r = next' r) :
    Endpoint.call c next = .call c next' := congrArg _ (funext h)

theorem run_postLogin {username password : CString}
    (husername : req.getBodyParameter (.lit "username") = some username)
    (hpassword : req.getBodyParameter (.lit "password") = some password) :
    run argon2 ch w (postLogin req {}) =
      let (w', r) := Auth.login argon2 w (some username) (some password) ch.sessionId
      (w', ⟨[(.login (some username) (some password) ch.sessionId, .loggedIn r)],
        some (.responded (loginResponse r))⟩) := by
  have hcall : postLogin req {} = .call (.login username password) fun r =>
      .respond (loginResponse r) := by
    rw [postLogin, husername, hpassword]
    exact call_congr fun r : Except ErrorCode Uuid => by cases r <;> rfl
  rw [hcall]
  rfl

theorem run_postRegister {username password : CString}
    (husername : req.getBodyParameter (.lit "username") = some username)
    (hpassword : req.getBodyParameter (.lit "password") = some password) :
    run argon2 ch w (postRegister req {}) =
      let (w', r) := Auth.registerUser argon2 w (some username) (some password) ch.id ch.accepted
      (w', ⟨[(.registerUser (some username) (some password) ch.id ch.accepted, .registered r)],
        some (.responded (registerResponse r))⟩) := by
  have hcall : postRegister req {} = .call (.registerUser username password) fun r =>
      .respond (registerResponse r) := by
    rw [postRegister, husername, hpassword]
    exact call_congr fun r : Except ErrorCode Unit => by cases r <;> rfl
  rw [hcall]
  rfl

theorem run_postLogout (hs : (sessionId req.headers).isEmpty = false) :
    run argon2 ch w (postLogout req {}) =
      let (w', r) := Auth.logout w (sessionId req.headers)
      (w', ⟨[(.logout (sessionId req.headers), .loggedOut r)],
        some (.responded (logoutResponse r))⟩) := by
  have hcall : postLogout req {} = .call (.logout (sessionId req.headers)) fun r =>
      .respond (logoutResponse r) := by
    rw [postLogout, if_neg (by simp [hs])]
    exact call_congr fun r : Except ErrorCode Unit => by cases r <;> rfl
  rw [hcall]
  rfl

theorem run_getUser (hs : (sessionId req.headers).isEmpty = false) :
    run argon2 ch w (getUser req {}) =
      (w, ⟨[(.getUser (sessionId req.headers), .gotUser (Auth.getUser w (sessionId req.headers)))],
        some (userReaction (Auth.getUser w (sessionId req.headers)))⟩) := by
  have hcall : getUser req {} = .call (.getUser (sessionId req.headers)) fun r =>
      .respond (userResponse r) := by
    rw [getUser, if_neg (by simp [hs])]
    exact call_congr fun r : Except ErrorCode User => by cases r <;> rfl
  rw [hcall, run, runOver]
  simp only [action, Auth.step, result_getUser]
  cases Auth.getUser w (sessionId req.headers) <;> rfl

/-! ## Steps -/

/-- The two parameters of a login and of a registration. -/
def Credentials (req : Request) (username password : CString) : Prop :=
  req.getBodyParameter (.lit "username") = some username ∧
    req.getBodyParameter (.lit "password") = some password

/-- A request has the two parameters, or one of them is missing. -/
theorem credentials_cases (req : Request) :
    (∃ username password, Credentials req username password) ∨
      (∀ username password, ¬ Credentials req username password) ∧
        postLogin req {} = .abort ∧ postRegister req {} = .abort := by
  unfold Credentials postLogin postRegister
  cases req.getBodyParameter (.lit "username") with
  | none => exact .inr ⟨by simp, rfl, rfl⟩
  | some username =>
      cases req.getBodyParameter (.lit "password") with
      | none => exact .inr ⟨by simp, rfl, rfl⟩
      | some password => exact .inl ⟨username, password, rfl, rfl⟩

section Requests

variable {hne : req.uri ≠ []}

theorem step_of_asks (hready : Ready h ()) {r : Http.Router Unit Handler}
    (hr : r ∈ routes ()) (hasks : Asks req r)
    (w : World) : step argon2 h w (.request req hne ch) = run argon2 ch w (r.endpoint req {}) :=
  serve_of_asks hready hne hr hasks w

theorem step_login (hready : Ready h ()) (hasks : Asks req (loginRoute ()))
    {username password : CString}
    (hcred : Credentials req username password) (w : World) :
    step argon2 h w (.request req hne ch) =
      let (w', r) := Auth.login argon2 w (some username) (some password) ch.sessionId
      (w', ⟨[(.login (some username) (some password) ch.sessionId, .loggedIn r)],
        some (.responded (loginResponse r))⟩) :=
  (step_of_asks hready (by simp [routes]) hasks w).trans (run_postLogin hcred.1 hcred.2)

theorem step_register (hready : Ready h ()) (hasks : Asks req (registerRoute ()))
    {username password : CString}
    (hcred : Credentials req username password) (w : World) :
    step argon2 h w (.request req hne ch) =
      let (w', r) := Auth.registerUser argon2 w (some username) (some password) ch.id ch.accepted
      (w', ⟨[(.registerUser (some username) (some password) ch.id ch.accepted, .registered r)],
        some (.responded (registerResponse r))⟩) :=
  (step_of_asks hready (by simp [routes]) hasks w).trans (run_postRegister hcred.1 hcred.2)

theorem step_logout (hready : Ready h ()) (hasks : Asks req (logoutRoute ()))
    (hs : (sessionId req.headers).isEmpty = false) (w : World) :
    step argon2 h w (.request req hne ch) =
      let (w', r) := Auth.logout w (sessionId req.headers)
      (w', ⟨[(.logout (sessionId req.headers), .loggedOut r)],
        some (.responded (logoutResponse r))⟩) :=
  (step_of_asks hready (by simp [routes]) hasks w).trans (run_postLogout hs)

theorem step_user (hready : Ready h ()) (hasks : Asks req (userRoute ()))
    (hs : (sessionId req.headers).isEmpty = false) (w : World) :
    step argon2 h w (.request req hne ch) =
      (w, ⟨[(.getUser (sessionId req.headers), .gotUser (Auth.getUser w (sessionId req.headers)))],
        some (userReaction (Auth.getUser w (sessionId req.headers)))⟩) :=
  (step_of_asks hready (by simp [routes]) hasks w).trans (run_getUser hs)

/-- Without the two parameters an assertion fails. -/
theorem step_noCredentials (hready : Ready h ())
    (hasks : Asks req (loginRoute ()) ∨ Asks req (registerRoute ()))
    (hmissing : ∀ username password, ¬ Credentials req username password) (w : World) :
    step argon2 h w (.request req hne ch) = (w, ⟨[], some .assertion⟩) := by
  obtain ⟨username, password, hcred⟩ | ⟨-, hlogin, hregister⟩ := credentials_cases req
  · exact absurd hcred (hmissing username password)
  · rcases hasks with hasks | hasks
    · refine (step_of_asks hready (by simp [routes]) hasks w).trans ?_
      change run argon2 ch w (postLogin req {}) = _
      rw [hlogin, run, runOver]
    · refine (step_of_asks hready (by simp [routes]) hasks w).trans ?_
      change run argon2 ch w (postRegister req {}) = _
      rw [hregister, run, runOver]

/-- Without a session id neither a logout nor `get_user` calls the service. -/
theorem step_noSession (hready : Ready h ())
    (hasks : Asks req (logoutRoute ()) ∨ Asks req (userRoute ()))
    (hs : (sessionId req.headers).isEmpty = true) (w : World) :
    step argon2 h w (.request req hne ch) = (w, ⟨[], some (.responded unauthorized)⟩) := by
  rcases hasks with hasks | hasks
  · refine (step_of_asks hready (by simp [routes]) hasks w).trans ?_
    have hreply : postLogout req {} = .respond unauthorized := by rw [postLogout, if_pos hs]; rfl
    change run argon2 ch w (postLogout req {}) = _
    rw [hreply, run, runOver]
  · refine (step_of_asks hready (by simp [routes]) hasks w).trans ?_
    have hreply : getUser req {} = .respond unauthorized := by rw [getUser, if_pos hs]; rfl
    change run argon2 ch w (getUser req {}) = _
    rw [hreply, run, runOver]

end Requests

/-- What an input does in a world. -/
inductive Does (argon2 : Argon2) (w : World) : Input → World × Output → Prop
  | expire (s : Uuid) : Does argon2 w (.expire s)
      ((Auth.step argon2 w (.expire s)).1, ⟨[(.expire s, .expired)], none⟩)
  | notFound {req hne ch} (hnone : ∀ r ∈ routes (), ¬ Asks req r) :
      Does argon2 w (.request req hne ch)
        (w, ⟨[], some (.responded (Http.stockResponse .notFound))⟩)
  | noCredentials {req hne ch} (hasks : Asks req (loginRoute ()) ∨ Asks req (registerRoute ()))
      (hmissing : ∀ username password, ¬ Credentials req username password) :
      Does argon2 w (.request req hne ch) (w, ⟨[], some .assertion⟩)
  | login {req hne ch username password w' r} (hasks : Asks req (loginRoute ()))
      (hcred : Credentials req username password)
      (hcall : Auth.login argon2 w (some username) (some password) ch.sessionId = (w', r)) :
      Does argon2 w (.request req hne ch)
        (w', ⟨[(.login (some username) (some password) ch.sessionId, .loggedIn r)],
          some (.responded (loginResponse r))⟩)
  | register {req hne ch username password w' r} (hasks : Asks req (registerRoute ()))
      (hcred : Credentials req username password)
      (hcall : Auth.registerUser argon2 w (some username) (some password) ch.id ch.accepted =
        (w', r)) :
      Does argon2 w (.request req hne ch)
        (w', ⟨[(.registerUser (some username) (some password) ch.id ch.accepted, .registered r)],
          some (.responded (registerResponse r))⟩)
  | noSession {req hne ch} (hasks : Asks req (logoutRoute ()) ∨ Asks req (userRoute ()))
      (hs : (sessionId req.headers).isEmpty = true) :
      Does argon2 w (.request req hne ch) (w, ⟨[], some (.responded unauthorized)⟩)
  | logout {req hne ch w' r} (hasks : Asks req (logoutRoute ()))
      (hs : (sessionId req.headers).isEmpty = false)
      (hcall : Auth.logout w (sessionId req.headers) = (w', r)) :
      Does argon2 w (.request req hne ch)
        (w', ⟨[(.logout (sessionId req.headers), .loggedOut r)],
          some (.responded (logoutResponse r))⟩)
  | user {req hne ch r} (hasks : Asks req (userRoute ()))
      (hs : (sessionId req.headers).isEmpty = false)
      (hcall : Auth.getUser w (sessionId req.headers) = r) :
      Does argon2 w (.request req hne ch)
        (w, ⟨[(.getUser (sessionId req.headers), .gotUser r)], some (userReaction r)⟩)

/-- Everything that an input can do. -/
theorem step_does (hready : Ready h ()) (w : World) (a : Input) :
    Does argon2 w a (step argon2 h w a) := by
  cases a with
  | expire s => exact .expire s
  | request req hne ch =>
      have hsession := Bool.eq_false_or_eq_true (sessionId req.headers).isEmpty
      rcases asks_cases () req with hasks | hasks | hasks | hasks | hnone
      · obtain ⟨username, password, hcred⟩ | ⟨hmissing, -⟩ := credentials_cases req
        · rw [step_login hready hasks hcred]
          exact .login hasks hcred rfl
        · rw [step_noCredentials hready (.inl hasks) hmissing]
          exact .noCredentials (.inl hasks) hmissing
      · obtain ⟨username, password, hcred⟩ | ⟨hmissing, -⟩ := credentials_cases req
        · rw [step_register hready hasks hcred]
          exact .register hasks hcred rfl
        · rw [step_noCredentials hready (.inr hasks) hmissing]
          exact .noCredentials (.inr hasks) hmissing
      · rcases hsession with hs | hs
        · rw [step_noSession hready (.inl hasks) hs]
          exact .noSession (.inl hasks) hs
        · rw [step_logout hready hasks hs]
          exact .logout hasks hs rfl
      · rcases hsession with hs | hs
        · rw [step_noSession hready (.inr hasks) hs]
          exact .noSession (.inr hasks) hs
        · rw [step_user hready hasks hs]
          exact .user hasks hs rfl
      · rw [step, serve_of_not_asks hready hne hnone]
        exact .notFound hnone

end RePlace.App
