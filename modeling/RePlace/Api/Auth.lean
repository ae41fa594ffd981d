import RePlace.Data.Restart
import RePlace.Http.Request
import RePlace.Service.Auth

/-!
# The auth endpoints

The endpoints of `api/auth.hpp`. An endpoint reads the request, calls the service
at most once and fills in the response; it is written as an `Endpoint`, which
shows the call and says for every answer of the service how it goes on.
-/

namespace RePlace.Api.Auth

open Bytes (lit)
open Http (Header Request Response)

/-- A call of the service. -/
inductive Call
  | login (username password : CString)
  | registerUser (username password : CString)
  | logout (sessionId : Uuid)
  | getUser (sessionId : Uuid)
deriving DecidableEq

/-- What a call returns. -/
def Call.Result : Call → Type
  | .login _ _ => Except ErrorCode Uuid
  | .registerUser _ _ => Except ErrorCode Unit
  | .logout _ => Except ErrorCode Unit
  | .getUser _ => Except ErrorCode User

/-- What an endpoint does: an assertion fails, the response is ready, or the
service is called. -/
inductive Endpoint
  | abort
  | respond (res : Response)
  | call (c : Call) (next : c.Result → Endpoint)

/-- The first call of an endpoint. -/
def Endpoint.firstCall : Endpoint → Option Call
  | .call c _ => some c
  | _ => none

/-! ## The session cookie -/

/-- `SESSION_COOKIE_NAME`. -/
def sessionCookieName : Bytes := lit "rp-session="

/-- The loop of `post_logout` and `get_user` over the headers: the first `cookie`
header is searched, and the id is read behind as many bytes as have been counted. -/
def sessionId : List Header → Uuid
  | [] => .empty
  | header :: rest =>
      if header.name ≠ lit "cookie" then sessionId rest
      else
        match Restart.restart sessionCookieName header.value 0 with
        | none => .empty
        | some k => .ofCString (.ofBytes (header.value.drop k))

/-! ## Endpoints -/

/-- The response with a status and a content. -/
def reply (res : Response) (status : Http.StatusType) (content : String) : Endpoint :=
  .respond { res with status, content := lit content }

/-- `post_login`. -/
def postLogin (req : Request) (res : Response) : Endpoint :=
  match req.getBodyParameter (.lit "username"), req.getBodyParameter (.lit "password") with
  | some username, some password =>
      .call (.login username password) fun
        | .error _ => reply res .unauthorized "Auth Failed"
        | .ok s =>
            let cookie : Header :=
              { name := lit "Set-Cookie",
                value := sessionCookieName ++ s.text.bytes ++ lit ";" }
            reply { res with headers := res.headers ++ [cookie] } .ok "Logged In"
  | _, _ => .abort

/-- `post_register`. -/
def postRegister (req : Request) (res : Response) : Endpoint :=
  match req.getBodyParameter (.lit "username"), req.getBodyParameter (.lit "password") with
  | some username, some password =>
      .call (.registerUser username password) fun
        | .error _ => reply res .badRequest "Bad Request"
        | .ok () => reply res .ok "Registered"
  | _, _ => .abort

/-- `post_logout`. -/
def postLogout (req : Request) (res : Response) : Endpoint :=
  let sessionId := sessionId req.headers
  if sessionId.isEmpty then reply res .unauthorized "Unauthorized"
  else
    .call (.logout sessionId) fun
      | .error _ => reply res .badRequest "Bad Request"
      | .ok () => reply res .ok "Logged out"

/-- `get_user`. -/
def getUser (req : Request) (res : Response) : Endpoint :=
  let sessionId := sessionId req.headers
  if sessionId.isEmpty then reply res .unauthorized "Unauthorized"
  else
    .call (.getUser sessionId) fun
      | .error _ => reply res .unauthorized "Unauthorized"
      | .ok user =>
          .respond { res with
            status := .ok
            content := lit "[" ++ user.id.buffer ++ lit "]: " ++ user.username }

end RePlace.Api.Auth
