import RePlace.Api.Application

/-!
# One call for each input

Every input of the application is one call of the service, or none: which one it is, and how
it is replied to, does not depend on the world. So what holds of the calls of the service
in any world holds of the requests.
-/

namespace RePlace.App

open Api.Auth
open Auth (Action Answer)
open Http (Request RequestHandler)

variable {argon2 : Argon2} {h : RequestHandler Unit Handler} {w : World}

/-- The call that an input makes. -/
inductive Makes : Input → Action → Prop
  | login {req hne ch username password} (hasks : Asks req (loginRoute ()))
      (hcred : Credentials req username password) :
      Makes (.request req hne ch) (.login (some username) (some password) ch.sessionId)
  | register {req hne ch username password} (hasks : Asks req (registerRoute ()))
      (hcred : Credentials req username password) :
      Makes (.request req hne ch)
        (.registerUser (some username) (some password) ch.id ch.accepted)
  | logout {req hne ch} (hasks : Asks req (logoutRoute ()))
      (hs : (sessionId req.headers).isEmpty = false) :
      Makes (.request req hne ch) (.logout (sessionId req.headers))
  | user {req hne ch} (hasks : Asks req (userRoute ()))
      (hs : (sessionId req.headers).isEmpty = false) :
      Makes (.request req hne ch) (.getUser (sessionId req.headers))
  | expire (s : Uuid) : Makes (.expire s) (.expire s)

/-- An input makes a call, or it is a request that does nothing. -/
theorem makes_cases (a : Input) : (∃ x, Makes a x) ∨
    ∃ req hne ch, a = .request req hne ch ∧ ∀ x, ¬ Makes a x := by
  by_cases hmakes : ∃ x, Makes a x
  · exact .inl hmakes
  · cases a with
    | request req hne ch => exact .inr ⟨req, hne, ch, rfl, not_exists.mp hmakes⟩
    | expire s => exact absurd ⟨_, .expire s⟩ hmakes

/-- How an answer of the service is replied to. -/
def reactionTo : Answer → Option Reaction
  | .registered r => some (.responded (registerResponse r))
  | .loggedIn r => some (.responded (loginResponse r))
  | .loggedOut r => some (.responded (logoutResponse r))
  | .gotUser r => some (userReaction r)
  | .expired => none

instance (req : Request) (r : Http.Router Unit Handler) : Decidable (Asks req r) :=
  inferInstanceAs (Decidable (_ ∧ (_ ∨ _)))

/-- How a request without a call is replied to. -/
def plainReaction (req : Request) : Reaction :=
  if Asks req (loginRoute ()) ∨ Asks req (registerRoute ()) then .assertion
  else if Asks req (logoutRoute ()) ∨ Asks req (userRoute ()) then .responded unauthorized
  else .responded (Http.stockResponse .notFound)

/-- What an input does that makes a call. -/
theorem step_of_makes (hready : Ready h ()) {a : Input} {x : Action} (hx : Makes a x)
    (w : World) : step argon2 h w a = ((Auth.step argon2 w x).1,
      ⟨[(x, (Auth.step argon2 w x).2)], reactionTo (Auth.step argon2 w x).2⟩) := by
  cases hx with
  | login hasks hcred =>
      rw [step_login hready hasks hcred]
      rfl
  | register hasks hcred =>
      rw [step_register hready hasks hcred]
      rfl
  | logout hasks hs =>
      rw [step_logout hready hasks hs]
      rfl
  | user hasks hs =>
      rw [step_user hready hasks hs]
      rfl
  | expire s => rfl

/-- A request asks for one route at most. -/
theorem asks_unique {req : Request} (hne : req.uri ≠ []) {r r' : Http.Router Unit Handler}
    (hr : r ∈ routes ()) (hr' : r' ∈ routes ()) (hasks : Asks req r) (hasks' : Asks req r') :
    r = r' :=
  Option.some.inj (((routeOf_eq_some_iff hne).mpr ⟨hr, hasks⟩).symm.trans
    ((routeOf_eq_some_iff hne).mpr ⟨hr', hasks'⟩))

/-- A request with a session is no login and no registration. -/
theorem not_asks_credentials {req : Request} (hne : req.uri ≠ [])
    (hasks : Asks req (logoutRoute ()) ∨ Asks req (userRoute ())) :
    ¬ (Asks req (loginRoute ()) ∨ Asks req (registerRoute ())) := by
  have hpaths : ∀ r ∈ [logoutRoute (), userRoute ()], ∀ r' ∈ [loginRoute (), registerRoute ()],
      r ∈ routes () ∧ r' ∈ routes () ∧ r.path ≠ r'.path := by
    simp only [routes, List.mem_cons, List.not_mem_nil, or_false]
    rintro r (rfl | rfl) r' (rfl | rfl) <;> exact ⟨by simp, by simp, by decide⟩
  have hall : ∀ r ∈ [logoutRoute (), userRoute ()], ∀ r' ∈ [loginRoute (), registerRoute ()],
      Asks req r → ¬ Asks req r' := by
    intro r hr r' hr' hasks hasks'
    obtain ⟨hmem, hmem', hpath⟩ := hpaths r hr r' hr'
    exact hpath (congrArg Http.Router.path (asks_unique hne hmem hmem' hasks hasks'))
  rintro (hasks' | hasks') <;> rcases hasks with hasks | hasks <;>
    exact hall _ (by simp) _ (by simp) hasks hasks'

/-- What a request does that makes no call. -/
theorem step_of_not_makes (hready : Ready h ()) {req : Request} {hne : req.uri ≠ []}
    {ch : Chance} (hnone : ∀ x, ¬ Makes (.request req hne ch) x) (w : World) :
    step argon2 h w (.request req hne ch) = (w, ⟨[], some (plainReaction req)⟩) := by
  rw [plainReaction]
  by_cases hcreds : Asks req (loginRoute ()) ∨ Asks req (registerRoute ())
  · rw [if_pos hcreds]
    refine step_noCredentials hready hcreds (fun username password hcred => ?_) w
    rcases hcreds with hasks | hasks
    · exact hnone _ (.login hasks hcred)
    · exact hnone _ (.register hasks hcred)
  · rw [if_neg hcreds]
    by_cases hsession : Asks req (logoutRoute ()) ∨ Asks req (userRoute ())
    · rw [if_pos hsession]
      refine step_noSession hready hsession ?_ w
      by_contra hs
      rw [Bool.not_eq_true] at hs
      rcases hsession with hasks | hasks
      · exact hnone _ (.logout hasks hs)
      · exact hnone _ (.user hasks hs)
    · rw [if_neg hsession, step]
      rw [not_or] at hcreds hsession
      rcases asks_cases () req with hasks | hasks | hasks | hasks | hnone
      · exact absurd hasks hcreds.1
      · exact absurd hasks hcreds.2
      · exact absurd hasks hsession.1
      · exact absurd hasks hsession.2
      · rw [serve_of_not_asks hready hne hnone]

end RePlace.App
