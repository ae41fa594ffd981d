import RePlace.Api.Sessions
import RePlace.Service.TimedRefinement

/-!
# The application with a clock

The application over a session store in which texts expire. A request is answered as the
application without a clock answers it over what is seen of the store in its second
(`step_seen`). In every run a page is shown exactly while a session of its account has been
opened less than an hour ago and has not been ended since (`timed_session_replies`).
-/

namespace RePlace.App.Timed

open Api.Auth (Asks Endpoint Handler Ready sessionId loginRoute logoutRoute userRoute)
open Auth (Account Action Answer Distinct)
open Auth.Timed (step_view invariant_step)
open History (Since since_congr since_flatMap since_singleton not_since_nil)
open Http (Request RequestHandler)

variable (argon2 : Argon2)

/-- The table of users, the session store, and the second of the last input. -/
abbrev World := Auth.Timed.World

/-- A call of the service in the second of the world. -/
def callNow (w : World) (a : Action) : World × Answer :=
  let (w, _, answer) := Auth.Timed.step argon2 w (0, a)
  (w, answer)

/-- `request_handler::handle_request` with the callback that it executes. It calls the
service in the second of the request. -/
def serve (h : RequestHandler Unit Handler) (ch : Chance) (w : World) (req : Request) :
    World × Output :=
  serveOver (callNow argon2) (action ch) .responded (fun endpoint req => endpoint req {}) w
    (h.handleRequest req)

variable (h : RequestHandler Unit Handler)

/-- Some seconds pass. -/
def later (w : World) (elapsed : ℕ) : World := { w with now := w.now + elapsed }

/-- One request some seconds after the one before it, or a session that the store drops. -/
def step (w : World) (a : ℕ × Input) : World × (ℕ × Output) :=
  let w := later w a.1
  match a.2 with
  | .request req _ ch =>
      let (w', out) := serve argon2 h ch w req
      (w', w.now, out)
  | .expire s =>
      let (w', answer) := callNow argon2 w (.expire s)
      (w', w.now, ⟨[(.expire s, answer)], none⟩)

/-- An entry of a history: an input with the seconds since the last one, and its output with
the second. -/
abbrev Entry := (ℕ × Input) × (ℕ × Output)

/-- The runs of the application, from an empty table and an empty store. -/
abbrev Run : List Entry → World → Prop := History.Run (step argon2 h) {}

/-- The input and its output. -/
def untimed (e : Entry) : Input × Output := (e.1.2, e.2.2)

/-- Some calls in a second. -/
def timed (now : ℕ) (cs : List (Action × Answer)) : List Auth.Timed.Entry :=
  cs.map fun c => ((0, c.1), (now, c.2))

/-- The calls of the service in a history. -/
def calls (hist : List Entry) : List Auth.Timed.Entry :=
  hist.flatMap fun e => timed e.2.1 e.2.2.calls

/-- A login for the account has been answered with the cookie of the session less than an
hour before the second, and the session has not ended since. -/
def Open (t : ℕ) (hist : List Entry) (s : Uuid) (acc : Account) : Prop :=
  Since (fun pre e => (LoggedIn s acc.username (untimed e) ∧ Member (pre.map untimed) acc) ∧
    t < e.2.1 + SessionValkey.expiry) (fun e => Ended s (untimed e)) hist

/-- What is seen of the world in its second. -/
def seen (w : World) : RePlace.World := ⟨w.users, w.sessions.view w.now⟩

variable {argon2 h} {hist : List Entry} {w : World} {req : Request} {hne : req.uri ≠ []}
  {ch : Chance}

/-! ## What is seen -/

theorem call_now (w : World) (a : Action) : (Auth.Timed.step argon2 w (0, a)).1.now = w.now := by
  cases a <;> rfl

theorem call_second (w : World) (a : Action) :
    (Auth.Timed.step argon2 w (0, a)).2.1 = w.now := by
  cases a <;> rfl

theorem call_seen (w : World) (a : Action) :
    Auth.step argon2 (seen w) a = (seen (callNow argon2 w a).1, (callNow argon2 w a).2) := by
  have hnow : (callNow argon2 w a).1.now = w.now := call_now w a
  rw [seen, seen, hnow]
  exact step_view w 0 a

/-- An input does what it does without a clock, over what is seen in its second. -/
theorem step_seen (w : World) (a : ℕ × Input) :
    App.step argon2 h (seen (later w a.1)) a.2 =
      (seen (step argon2 h w a).1, (step argon2 h w a).2.2) := by
  obtain ⟨elapsed, a⟩ := a
  cases a with
  | expire s => rw [App.step, step, call_seen]
  | request req hne ch =>
      exact serveOver_map call_seen .responded (fun endpoint req => endpoint req {})
        (later w elapsed) (h.handleRequest req)

theorem stepped_of_run (hrun : Run argon2 h hist w) {e : Entry} (he : e ∈ hist) :
    Stepped argon2 h (untimed e) := by
  obtain ⟨w', hw'⟩ := hrun.exists_state he
  exact ⟨seen (later w' e.1.1), by rw [untimed, hw', step_seen]⟩

/-! ## The calls behind it -/

theorem calls_untimed (hist : List Entry) :
    (calls hist).map Auth.Timed.untimed = App.calls (hist.map untimed) := by
  have htimed : ∀ now cs, (timed now cs).map Auth.Timed.untimed = cs := by
    intro now cs
    rw [timed, List.map_map]
    exact List.map_id _
  simp only [calls, App.calls, List.map_flatMap, List.flatMap_map, htimed, untimed]

/-- A call goes on from the calls before it in the same second. -/
theorem invariant_callNow {past : List Auth.Timed.Entry} {cs : List (Action × Answer)} {now : ℕ}
    (h : w.now = now ∧ Auth.Timed.Invariant argon2 (past ++ timed now cs) w) (a : Action) :
    (callNow argon2 w a).1.now = now ∧
      Auth.Timed.Invariant argon2 (past ++ timed now (cs ++ [(a, (callNow argon2 w a).2)]))
        (callNow argon2 w a).1 := by
  obtain ⟨rfl, hpast⟩ := h
  have hnext := invariant_step hpast (0, a)
  have hentry : (Auth.Timed.step argon2 w (0, a)).2 =
      (w.now, (Auth.Timed.step argon2 w (0, a)).2.2) := Prod.ext (call_second w a) rfl
  rw [hentry, List.append_assoc] at hnext
  refine ⟨call_now w a, ?_⟩
  rw [timed, List.map_append]
  exact hnext

/-- At every second the service stands as after the calls of the run. -/
theorem invariant_run (hrun : Run argon2 h hist w) :
    Auth.Timed.Invariant argon2 (calls hist) w := by
  refine hrun.induction (K := fun hist w => Auth.Timed.Invariant argon2 (calls hist) w)
    Auth.Timed.invariant_init ?_
  intro hist w a ih
  have hlater : Auth.Timed.Invariant argon2 (calls hist) (later w a.1) :=
    ih.later (Nat.le_add_right _ _)
  rw [calls, List.flatMap_append, List.flatMap_singleton, ← calls]
  obtain ⟨elapsed, a⟩ := a
  cases a with
  | expire s => exact invariant_step hlater (0, .expire s)
  | request req hne ch =>
      have hstart : Auth.Timed.Invariant argon2 (calls hist ++ timed (later w elapsed).now [])
          (later w elapsed) := by
        simpa [timed] using hlater
      exact (serveOver_calls (K := fun cs v => v.now = (later w elapsed).now ∧
          Auth.Timed.Invariant argon2 (calls hist ++ timed (later w elapsed).now cs) v)
        (fun _ _ a h => invariant_callNow h a) .responded (fun endpoint req => endpoint req {})
        ⟨rfl, hstart⟩ (h.handleRequest req)).2

/-- A session is open for the clients when it is open for the service. -/
theorem open_calls_iff (hready : Ready h ()) (hrun : Run argon2 h hist w) {t : ℕ} {s : Uuid}
    {acc : Account} : Auth.Timed.Open t (calls hist) s acc ↔ Open t hist s acc := by
  have hstep : ∀ e ∈ hist, Stepped argon2 h (untimed e) := fun e he => stepped_of_run hrun he
  rw [Auth.Timed.open_iff_since, calls, since_flatMap, Open]
  refine since_congr (fun pre e he hpre => ?_) fun e he => ?_
  · have hmember : Member (pre.map untimed) acc ↔
        Auth.Registered ((calls pre).map Auth.Timed.untimed) acc := by
      rw [calls_untimed]
      refine @member_iff_registered argon2 _ _ hready (fun e' he' => ?_) _
      obtain ⟨e'', he'', rfl⟩ := List.mem_map.mp he'
      exact hstep e'' (hpre.subset he'')
    rw [loggedIn_iff hready (hstep e he), hmember]
    obtain hnil | ⟨x, hx⟩ : e.2.2.calls = [] ∨ ∃ x, e.2.2.calls = [x] := by
      have hlen := calls_length_le hready (hstep e he)
      rcases Nat.le_one_iff_eq_zero_or_eq_one.mp hlen with hzero | hone
      · exact .inl (List.length_eq_zero_iff.mp hzero)
      · exact .inr (List.length_eq_one_iff.mp hone)
    · simp [hnil, not_since_nil, timed, untimed]
    · rw [hx, timed, List.map_singleton, since_singleton, List.append_nil]
      simp only [Auth.Opens, List.mem_singleton, @eq_comm _ _ x, calls, untimed, hx]
      rfl
  · rw [ended_iff hready (hstep e he)]
    simp [timed, untimed, Auth.Timed.untimed]

/-! ## Replies -/

/-- What the service finds in a second are the sessions that are open then. -/
theorem finds_open (hready : Ready h ()) (hrun : Run argon2 h hist w)
    (hdist : Distinct (App.calls (hist.map untimed))) (elapsed : ℕ) :
    Finds (seen (later w elapsed)) (Open (w.now + elapsed) hist) := by
  have hinv := invariant_run hrun
  rw [← calls_untimed] at hdist
  have ht : w.now ≤ w.now + elapsed := Nat.le_add_right _ _
  have hget : ∀ s, Auth.getUser (seen (later w elapsed)) s =
      SessionValkey.getUserAt (w.now + elapsed) w.sessions s :=
    fun s => (SessionValkey.getUserAt_eq _ _ s).symm
  refine ⟨fun {s acc} hopen => ?_, fun {s acc} hopen => ?_, fun {s} hnone => ?_, fun s => ?_⟩
  · have hlive := Auth.Timed.live_due_iff.mpr ((open_calls_iff hready hrun).mpr hopen)
    exact ((Auth.Timed.distinct_due hdist _).full s (Auth.mem_generated_of_live hlive)).not_isEmpty
  · rw [hget]
    exact hinv.getUser_of_open hdist ht ((open_calls_iff hready hrun).mpr hopen)
  · refine ⟨.valkeyTypeError, ?_⟩
    rw [hget]
    exact hinv.getUser_of_not_open hdist ht
      fun acc hopen => hnone acc ((open_calls_iff hready hrun).mp hopen)
  · have hlogout := hinv.logout_ok_iff hdist ht s
    simp only [open_calls_iff hready hrun, SessionValkey.removeSessionAt_eq] at hlogout
    exact hlogout

/-- In every run, at every later second, the page of an account is what `get_user` answers
exactly when a login for the account has been answered less than an hour ago with the
session id that it reads off the first cookie header, and the session has not been logged
out or dropped since, and otherwise it answers `Unauthorized`; a logout is answered
`Logged out` for exactly these sessions. -/
theorem timed_session_replies (hready : Ready h ()) (hrun : Run argon2 h hist w)
    (hdist : Distinct (App.calls (hist.map untimed))) (elapsed : ℕ) (req : Request)
    (hne : req.uri ≠ []) (ch : Chance) :
    (Asks req (userRoute ()) →
      (∀ acc : Account, (step argon2 h w (elapsed, .request req hne ch)).2.2.reaction =
          some (.responded (userResponse (.ok acc.user))) ↔
        Open (w.now + elapsed) hist (sessionId req.headers) acc) ∧
      ((step argon2 h w (elapsed, .request req hne ch)).2.2.reaction =
          some (.responded unauthorized) ↔
        ∀ acc, ¬ Open (w.now + elapsed) hist (sessionId req.headers) acc)) ∧
    (Asks req (logoutRoute ()) →
      ((step argon2 h w (elapsed, .request req hne ch)).2.2.reaction =
          some (.responded (logoutResponse (.ok ()))) ↔
        ∃ acc, Open (w.now + elapsed) hist (sessionId req.headers) acc)) := by
  have hseen := @step_seen argon2 h w (elapsed, .request req hne ch)
  have hreplies := @Finds.replies argon2 h _ req hne ch _
    (finds_open hready hrun hdist elapsed) hready
  rw [hseen] at hreplies
  exact hreplies

/-- `alice` has registered, and half an hour later she has logged in. -/
def sampleHist : List Entry :=
  [((0, .request (sampleRequest "/api/auth/register") registerRequest_uri
        ⟨Auth.sampleId, true, .empty⟩),
      (0, ⟨[(Auth.sampleRegister (.lit "password"), .registered (.ok ()))],
        some (.responded (registerResponse (.ok ())))⟩)),
    ((1800, .request (sampleRequest "/api/auth/login") loginRequest_uri
        ⟨.empty, true, Auth.sampleSession⟩),
      (1800, ⟨[(.login (some (.lit "alice")) (some (.lit "password")) Auth.sampleSession,
          .loggedIn (.ok Auth.sampleSession))],
        some (.responded (loginResponse (.ok Auth.sampleSession)))⟩))]

/-- An hour after the login her session is not open any more. -/
theorem timed_session_replies_sample :
    ∃ w, Run sampleArgon2 Api.Auth.sampleApp sampleHist w ∧
      ∀ acc, ¬ Open (w.now + 3600) sampleHist Auth.sampleSession acc := by
  have hrun : Run sampleArgon2 Api.Auth.sampleApp sampleHist _ := .next (.next .start _) _
  have hall := timed_session_replies Api.Auth.ready_sampleApp hrun ⟨by decide, by decide⟩ 3600
    (pageRequest Auth.sampleSession) (by decide) ⟨.empty, true, .empty⟩
  exact ⟨_, hrun, (hall.1 ⟨rfl, .inl rfl⟩).2.mp rfl⟩

end RePlace.App.Timed
