import RePlace.Api.Setup

/-!
# Executing requests

What becomes of a request when the request handler has come to its outcome: the callback
of the route runs and calls a service, or there is a response already. The service is given
by its step, because the endpoints run over several: the service as it is, the one whose
calls fail, and the one with the clock of the store.
-/

namespace RePlace.App

open Api.Auth
open Auth (Answer)
open Http (Request Response)
open Http.RequestHandler (Outcome)

/-- What the endpoint gets from the answer to its call; `none` is an access outside a
container. -/
def result : (c : Call) → Answer → Option c.Result
  | .login _ _, .loggedIn result => some result
  | .registerUser _ _, .registered result => some result
  | .logout _, .loggedOut result => some result
  | .getUser _, .gotUser result => result
  | _, _ => none

theorem result_getUser (s : Uuid) (r : Option (Except ErrorCode User)) :
    result (.getUser s) (.gotUser r) = r := rfl

/-- How a request ends. -/
inductive Reaction
  | responded (res : Response)
  /-- An assertion of the JSON library fails. -/
  | assertion
  | outOfRange
deriving DecidableEq

/-- What has been done for a request: the calls of the service and how it ends. -/
structure OutputOf (κ : Type) where
  calls : List (κ × Answer)
  reaction : Option Reaction

section Service

variable {ω κ η : Type} (step : ω → κ → ω × Answer) (call : Call → κ)

/-- The callback of a route runs over a service with this step, whose calls are made of
those of the endpoint. -/
def runOver : ω → Endpoint → ω × OutputOf κ
  | w, .abort => (w, ⟨[], some .assertion⟩)
  | w, .respond res => (w, ⟨[], some (.responded res)⟩)
  | w, .call c next =>
      let (w, answer) := step w (call c)
      match result c answer with
      | none => (w, ⟨[(call c, answer)], some .outOfRange⟩)
      | some r =>
          let (w, out) := runOver w (next r)
          (w, ⟨(call c, answer) :: out.calls, out.reaction⟩)

/-- What is done for the outcome of `request_handler::handle_request`. -/
def serveOver (stock : Response → Reaction) (execute : η → Request → Endpoint) (w : ω) :
    Option (Outcome Unit η) → ω × OutputOf κ
  | none => (w, ⟨[], some .outOfRange⟩)
  | some (.responded res) => (w, ⟨[], some (stock res)⟩)
  | some (.executed callback req) => runOver step call w (execute callback.endpoint req)

variable {step call} {K : List (κ × Answer) → ω → Prop} {past : List (κ × Answer)} {w : ω}

/-- What each call of the service preserves, the calls of an endpoint preserve. -/
theorem runOver_calls
    (hstep : ∀ past w c, K past w → K (past ++ [(c, (step w c).2)]) (step w c).1)
    (hpast : K past w) (e : Endpoint) :
    K (past ++ (runOver step call w e).2.calls) (runOver step call w e).1 := by
  induction e generalizing past w with
  | abort => simpa [runOver] using hpast
  | respond res => simpa [runOver] using hpast
  | call c next ih =>
      have hnext := hstep past w (call c) hpast
      rw [runOver]
      cases hresult : result c (step w (call c)).2 with
      | none => simpa only [hresult] using hnext
      | some r =>
          simpa only [hresult, List.append_assoc, List.singleton_append] using ih r hnext

theorem serveOver_calls
    (hstep : ∀ past w c, K past w → K (past ++ [(c, (step w c).2)]) (step w c).1)
    (stock : Response → Reaction) (execute : η → Request → Endpoint) (hpast : K past w)
    (outcome : Option (Outcome Unit η)) :
    K (past ++ (serveOver step call stock execute w outcome).2.calls)
      (serveOver step call stock execute w outcome).1 := by
  cases outcome with
  | none => simpa [serveOver] using hpast
  | some outcome =>
      cases outcome with
      | responded res => simpa [serveOver] using hpast
      | executed callback req => exact runOver_calls hstep hpast _

/-- Over a service that does the same in its own states, an endpoint does the same. -/
theorem runOver_map {ω' : Type} {step' : ω' → κ → ω' × Answer} {f : ω → ω'}
    (hstep : ∀ w c, step' (f w) c = (f (step w c).1, (step w c).2)) (w : ω) (e : Endpoint) :
    runOver step' call (f w) e =
      (f (runOver step call w e).1, (runOver step call w e).2) := by
  induction e generalizing w with
  | abort => rfl
  | respond res => rfl
  | call c next ih =>
      rw [runOver, runOver, hstep]
      dsimp only
      cases result c (step w (call c)).2 with
      | none => rfl
      | some r =>
          dsimp only
          rw [ih]

theorem serveOver_map {ω' : Type} {step' : ω' → κ → ω' × Answer} {f : ω → ω'}
    (hstep : ∀ w c, step' (f w) c = (f (step w c).1, (step w c).2))
    (stock : Response → Reaction) (execute : η → Request → Endpoint) (w : ω)
    (outcome : Option (Outcome Unit η)) :
    serveOver step' call stock execute (f w) outcome =
      (f (serveOver step call stock execute w outcome).1,
        (serveOver step call stock execute w outcome).2) := by
  cases outcome with
  | none => rfl
  | some outcome =>
      cases outcome with
      | responded res => rfl
      | executed callback req => exact runOver_map hstep w _

end Service

end RePlace.App
