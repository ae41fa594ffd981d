import RePlace.Api.OneCall
import RePlace.Api.Sessions
import RePlace.Data.Simulation
import RePlace.Service.Isolation

/-!
# Users do not get in each other's way

The requests of a user are those that come with the username or with a session of the user.
In every run they are a run of the application by themselves, with the very same responses
(`isolation`): what a user sees is what it would see without any other user.
-/

namespace RePlace.App

open Api.Auth
open Auth (Action Alone alone_init step_own step_other)
open Bytes (lit)
open Http (Request RequestHandler)

variable {argon2 : Argon2} {h : RequestHandler Unit Handler} {hist : List (Input × Output)}
  {w : World} {u : CString} {own : Uuid → Bool}

/-- The request comes with the username, or with a session of the user. -/
def Input.isOwn (u : CString) (own : Uuid → Bool) : Input → Bool
  | .request req _ _ =>
      if Asks req (loginRoute ()) ∨ Asks req (registerRoute ()) then
        req.getBodyParameter (.lit "username") = some u
      else own (sessionId req.headers)
  | .expire s => own s

/-- The session ids that are generated for the logins of the user, and no others, are its
own. -/
def Input.Owns (u : CString) (own : Uuid → Bool) : Input → Prop
  | .request req _ ch => Asks req (loginRoute ()) → ∀ username password,
      Credentials req username password → (own ch.sessionId = true ↔ username = u)
  | .expire _ => True

/-- A request is the user's when its call is. -/
theorem isOwn_of_makes {a : Input} {x : Action} (hx : Makes a x) :
    a.isOwn u own = x.isOwn u own := by
  cases hx with
  | login hasks hcred =>
      rw [Input.isOwn, if_pos (.inl hasks), hcred.1]
      rfl
  | register hasks hcred =>
      rw [Input.isOwn, if_pos (.inr hasks), hcred.1]
      rfl
  | @logout req hne ch hasks hs =>
      rw [Input.isOwn, if_neg (not_asks_credentials hne (.inl hasks))]
      rfl
  | @user req hne ch hasks hs =>
      rw [Input.isOwn, if_neg (not_asks_credentials hne (.inr hasks))]
      rfl
  | expire s => rfl

theorem owns_of_makes {a : Input} {x : Action} (hx : Makes a x) (howns : a.Owns u own) :
    x.Owns u own := by
  cases hx with
  | login hasks hcred => simpa [Action.Owns] using howns hasks _ _ hcred
  | register hasks hcred => trivial
  | logout hasks hs => trivial
  | user hasks hs => trivial
  | expire s => trivial

/-- In every run the requests of a user are a run by themselves, with the same responses: no
other user changes what it sees. -/
theorem isolation (hready : Ready h ()) (hrun : Run argon2 h hist w)
    (howns : ∀ e ∈ hist, e.1.Owns u own) :
    ∃ v, Run argon2 h (hist.filter fun e => e.1.isOwn u own) v ∧ Alone u own w v := by
  refine hrun.project alone_init (fun w v a _ halone hown => ?_)
    (fun w v a howns halone hother => ?_) howns
  · rcases makes_cases a with ⟨x, hx⟩ | ⟨req, hne, ch, rfl, hnone⟩
    · rw [isOwn_of_makes hx] at hown
      obtain ⟨hanswer, hnext⟩ := @step_own argon2 u own w v halone x hown
      rw [step_of_makes hready hx, step_of_makes hready hx, hanswer]
      exact ⟨rfl, hnext⟩
    · rw [step_of_not_makes hready hnone, step_of_not_makes hready hnone]
      exact ⟨rfl, halone⟩
  · rcases makes_cases a with ⟨x, hx⟩ | ⟨req, hne, ch, rfl, hnone⟩
    · rw [isOwn_of_makes hx] at hother
      rw [step_of_makes hready hx]
      exact step_other halone (owns_of_makes hx howns) hother
    · rw [step_of_not_makes hready hnone]
      exact halone

/-- A registration of `bob`. -/
def bobRequest : Request where
  uri := lit "/api/auth/register"
  method := 3
  bodyParams := .object [(lit "username", .string (lit "bob")),
    (lit "password", .string (lit "password"))]

theorem bobRequest_uri : bobRequest.uri ≠ [] := by decide

/-- `bob` registers after `alice` has logged in. -/
def twoUsers : List (Input × Output) :=
  sampleHist ++ [(.request bobRequest bobRequest_uri ⟨Auth.sampleSession, true, .empty⟩,
    ⟨[(.registerUser (some (.lit "bob")) (some (.lit "password")) Auth.sampleSession true,
      .registered (.ok ()))], some (.responded (registerResponse (.ok ())))⟩)]

/-- `alice` without `bob`. -/
theorem isolation_sample :
    ∃ w, Run sampleArgon2 sampleApp twoUsers w ∧ ∃ v, Run sampleArgon2 sampleApp
      (twoUsers.filter fun e => e.1.isOwn (.lit "alice") (· = Auth.sampleSession)) v ∧
        Alone (.lit "alice") (· = Auth.sampleSession) w v := by
  have hrun : Run sampleArgon2 sampleApp twoUsers _ := .next (.next (.next .start _) _) _
  refine ⟨_, hrun, isolation ready_sampleApp hrun fun e he => ?_⟩
  have hcases : e = sampleHist[0] ∨ e = sampleHist[1] ∨ e = twoUsers[2] := by
    simpa [twoUsers, sampleHist] using he
  rcases hcases with rfl | rfl | rfl
  · intro hasks
    exact absurd hasks (by decide)
  · rintro - username password ⟨husername, -⟩
    obtain rfl : CString.lit "alice" = username := Option.some.inj husername
    exact iff_of_true rfl rfl
  · intro hasks
    exact absurd hasks (by decide)

end RePlace.App
