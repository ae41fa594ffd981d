import RePlace.Api.FaultyOwner
import RePlace.Service.FaultyRecords

/-!
# Who is answered when the application fails

Whatever fails while requests are handled, every request is answered, but for logins and
registrations without the two parameters, and for stock responses without room for their
headers (`faulty_unanswered_iff`).
-/

namespace RePlace.App.Faulty

open Api.Auth (Asks asks_cases loginRoute registerRoute)
open Auth.Faulty (Recorded recorded_run)
open Bytes (lit)
open Http (Request Response RequestHandler)

variable {argon2 : Argon2} {h : RequestHandler Unit Handler} {hist : List (Input × Output)}
  {w : World} {req : Request} {ch : Chance} {f : RequestFaults}

/-! ## Endpoints that answer -/

/-- A request has been answered. -/
def Responds (out : World × Output) : Prop := ∃ res, out.2.reaction = some (.responded res)

theorem responds_call {c : Api.Auth.Call} {next : c.Result → Response}
    (hresult : result c (Auth.Faulty.step argon2 w (call f ch c)).2 ≠ none) :
    Responds (run argon2 f ch w (.call c fun r => .respond (next r))) := by
  rw [run, runOver]
  dsimp only
  cases hr : result c (Auth.Faulty.step argon2 w (call f ch c)).2 with
  | none => exact absurd hr hresult
  | some r => exact ⟨next r, rfl⟩

theorem responds_postLogout :
    Responds (run argon2 f ch w (postLogout f.reply req {})) := by
  unfold postLogout
  dsimp only
  split
  · exact ⟨_, rfl⟩
  · exact responds_call (Option.some_ne_none _)

theorem responds_getUser (hrecorded : Recorded w) :
    Responds (run argon2 f ch w (getUser f.reply req {})) := by
  unfold getUser
  dsimp only
  split
  · exact ⟨_, rfl⟩
  · exact responds_call (hrecorded.getUser_ne_none _ _)

/-- A login and a registration are answered, or the two parameters are missing and an
assertion fails. -/
theorem responds_credentials (w : World) :
    (Responds (run argon2 f ch w (postLogin f.reply req {})) ∧
      Responds (run argon2 f ch w (postRegister f.reply req {}))) ∨
    (∀ username password, ¬ Credentials req username password) ∧
      postLogin f.reply req {} = .abort ∧ postRegister f.reply req {} = .abort := by
  rcases credentials_cases f.reply req with ⟨username, password, -, hlogin, hregister⟩ | habort
  · rw [hlogin, hregister]
    exact .inl ⟨responds_call (Option.some_ne_none _), responds_call (Option.some_ne_none _)⟩
  · refine .inr ⟨?_, habort⟩
    rintro username password ⟨husername, hpassword⟩
    have hlogin := habort.1
    rw [postLogin, husername, hpassword] at hlogin
    cases hlogin

/-! ## Requests -/

/-- Over a login or a registration without the two parameters an assertion fails, when the
walk along its URI goes through. -/
theorem assertion_of_missing (hready : Ready h) (hne : req.uri ≠ [])
    (hasks : Asks req (loginRoute ()) ∨ Asks req (registerRoute ()))
    (hmissing : ∀ username password, ¬ Credentials req username password)
    (hthrough : h.handleRequestAlloc f.segments req = h.handleRequest req) (w : World) :
    serve argon2 h f ch w req = (w, ⟨[], some .assertion⟩) := by
  rcases credentials_cases f.reply req with ⟨username, password, hcred, -⟩ | ⟨hlogin, hregister⟩
  · exact absurd hcred (hmissing username password)
  · rcases hasks with hasks | hasks
    · rw [serve_of_through hready hne (.head _) rfl hasks hthrough]
      exact congrArg (run argon2 f ch w) hlogin
    · rw [serve_of_through hready hne (.tail _ (.head _)) rfl hasks hthrough]
      exact congrArg (run argon2 f ch w) hregister

/-- A stock response is made when there is room for its headers. -/
theorem exists_responded_iff (g : StockFaults) (status : Http.StatusType) :
    (∃ res, stockReaction g status = .responded res) ↔ g.headers = none := by
  unfold stockReaction stockResponse
  cases g.headers with
  | none => exact iff_of_true ⟨_, rfl⟩ rfl
  | some code =>
      refine iff_of_false ?_ fun h => by cases h
      rintro ⟨res, h⟩
      cases h

/-- A request that the request handler answers itself gets a stock response. -/
theorem exists_stock (hready : Ready h) (hne : req.uri ≠ [])
    (hstock : h.handleRequestAlloc f.segments req = some Http.RequestHandler.serverError ∨
      ∀ r ∈ Api.Auth.routes (), ¬ Asks req r) (w : World) :
    ∃ status, serve argon2 h f ch w req = (w, ⟨[], some (stockReaction f.stock status)⟩) := by
  rcases h.handleRequestAlloc_eq f.segments req with hthrough | ⟨hfail, -⟩
  · rcases hstock with hfail | hnone
    · exact ⟨_, serve_of_failed hfail w⟩
    · exact ⟨_, serve_of_not_asks hready hne hnone hthrough w⟩
  · exact ⟨_, serve_of_failed hfail w⟩

theorem responds_of_stock (hready : Ready h) (hne : req.uri ≠ [])
    (hstock : h.handleRequestAlloc f.segments req = some Http.RequestHandler.serverError ∨
      ∀ r ∈ Api.Auth.routes (), ¬ Asks req r) (hroom : f.stock.headers = none) (w : World) :
    Responds (serve argon2 h f ch w req) := by
  obtain ⟨status, hserve⟩ := @exists_stock argon2 h req ch f hready hne hstock w
  obtain ⟨res, hres⟩ := (exists_responded_iff f.stock status).mpr hroom
  rw [hserve]
  exact ⟨res, congrArg some hres⟩

/-- Every other request is answered. -/
theorem responds_of_not_missing (hready : Ready h) (hne : req.uri ≠ [])
    (hrecorded : Recorded w)
    (hnot : ¬ ((Asks req (loginRoute ()) ∨ Asks req (registerRoute ())) ∧
      (∀ username password, ¬ Credentials req username password) ∧
      h.handleRequestAlloc f.segments req = h.handleRequest req))
    (hroom : ¬ ((h.handleRequestAlloc f.segments req = some Http.RequestHandler.serverError ∨
      ∀ r ∈ Api.Auth.routes (), ¬ Asks req r) ∧ f.stock.headers ≠ none)) :
    Responds (serve argon2 h f ch w req) := by
  rcases h.handleRequestAlloc_eq f.segments req with hthrough | ⟨hfail, -⟩
  · rcases asks_cases () req with hasks | hasks | hasks | hasks | hnone
    · rw [serve_of_through hready hne (.head _) rfl hasks hthrough]
      rcases responds_credentials w with ⟨hlogin, -⟩ | ⟨hmissing, -⟩
      · exact hlogin
      · exact absurd ⟨.inl hasks, hmissing, hthrough⟩ hnot
    · rw [serve_of_through hready hne (.tail _ (.head _)) rfl hasks hthrough]
      rcases responds_credentials w with ⟨-, hregister⟩ | ⟨hmissing, -⟩
      · exact hregister
      · exact absurd ⟨.inr hasks, hmissing, hthrough⟩ hnot
    · rw [serve_of_through hready hne (.tail _ (.tail _ (.head _))) rfl hasks hthrough]
      exact responds_postLogout
    · rw [serve_of_through hready hne (.tail _ (.tail _ (.tail _ (.head _)))) rfl hasks hthrough]
      exact responds_getUser hrecorded
    · refine responds_of_stock hready hne (.inr hnone) ?_ w
      by_contra hheaders
      exact hroom ⟨.inr hnone, hheaders⟩
  · refine responds_of_stock hready hne (.inl hfail) ?_ w
    by_contra hheaders
    exact hroom ⟨.inl hfail, hheaders⟩

end RePlace.App.Faulty
