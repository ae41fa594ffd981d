import RePlace.Api.FaultyApplication
import RePlace.Api.Sessions
import RePlace.Service.FaultySessions

/-!
# Who sees a page when the application fails

Whatever fails in the application, whoever is answered `200 OK` to `get_user` has sent the
session id of a login with the password of the account, and no logout with it has been
answered `200 OK` since (`faulty_page_owner`). The page can lack parts of the account, but
it shows nothing else.
-/

namespace RePlace.App.Faulty

open Api.Auth (Asks Endpoint sessionId loginRoute registerRoute logoutRoute userRoute)
open Auth (Answer Closes)
open Auth.Faulty (Call Fresh live_of_getUser login_of_live)
open Bytes (lit)
open History (exists_flatMap_split)
open Http (Request Response RequestHandler)

variable {argon2 : Argon2} {h : RequestHandler Unit Handler} {hist : List (Input × Output)}
  {w : World} {req : Request} {hne : req.uri ≠ []} {ch : Chance} {f : RequestFaults}
  {e : Input × Output} {s : Uuid}

/-! ## What clients see -/

/-- A login with the username and the password, for which the session id has come up and
whose call has been executed. -/
def LoggedInWith (s : Uuid) (username password : CString) (e : Input × Output) : Prop :=
  (∃ req hne ch f, e.1 = .request req hne ch f ∧ Asks req (loginRoute ()) ∧
    Credentials req username password ∧ ch.sessionId = s) ∧ ∃ c ∈ e.2.calls, c.1.executed = true

/-- A registration of the username and the password, for which the id has come up. -/
def RegistersWith (id : Uuid) (username password : CString) (e : Input × Output) : Prop :=
  ∃ req hne ch f, e.1 = .request req hne ch f ∧ Asks req (registerRoute ()) ∧
    Credentials req username password ∧ ch.id = id

/-- A logout with the session has been answered `200 OK`, or the session has expired. -/
def Ended (s : Uuid) (e : Input × Output) : Prop :=
  (∃ req hne ch f res, e.1 = .request req hne ch f ∧ Asks req (logoutRoute ()) ∧
    sessionId req.headers = s ∧ e.2.reaction = some (.responded res) ∧ res.status = .ok) ∨
  e.1 = .expire s

/-! ## The calls behind it -/

/-- A run of the application is a run of the service with its calls. -/
theorem calls_run (hrun : Run argon2 h hist w) : Auth.Faulty.Run argon2 (calls hist) w := by
  refine hrun.induction (K := fun hist w => Auth.Faulty.Run argon2 (calls hist) w) .start ?_
  intro hist w a ih
  rw [calls, List.flatMap_append, List.flatMap_singleton, ← calls]
  cases a with
  | expire s => exact ih.next (.expire s)
  | request req hne ch f =>
      exact serveOver_calls (K := Auth.Faulty.Run argon2) (fun _ _ c hpast => hpast.next c) _ _ ih _

theorem logoutResponse_status (g : ReplyFaults) (res : Response) (r : Except ErrorCode Unit) :
    (logoutResponse g res r).status = .ok ↔ r = .ok () := by
  cases r with
  | error code => exact iff_of_false (by simp [logoutResponse, fill]) nofun
  | ok _ => exact iff_of_true rfl rfl

theorem userResponse_status (g : ReplyFaults) (res : Response) (r : Except ErrorCode User) :
    (userResponse g res r).status = .ok ↔ ∃ user, r = .ok user := by
  cases r with
  | error code => exact iff_of_false (by simp [userResponse, fill]) nofun
  | ok user => exact iff_of_true rfl ⟨user, rfl⟩

theorem appendString_sublist (alloc : Allocation) {target target' : Bytes}
    (h : target.Sublist target') (source : Bytes) :
    (appendString alloc target source).Sublist (target' ++ source) := by
  cases alloc with
  | none => exact h.append_right source
  | some code => exact h.trans (List.sublist_append_left _ _)

/-- A page shows parts of the account. -/
theorem userResponse_content (g : ReplyFaults) (user : User) :
    (userResponse g {} (.ok user)).content.Sublist
      (lit "[" ++ user.id.buffer ++ lit "]: " ++ user.username) := by
  have hcopy : (copyString (g.content 0) [] (lit "[")).1.Sublist (lit "[") := by
    cases g.content 0 with
    | none => exact .refl _
    | some code => exact List.nil_sublist _
  exact appendString_sublist _ (appendString_sublist _ (appendString_sublist _ hcopy _) _) _

/-- A request that is answered `200 OK` has run the endpoint that it asks for. -/
theorem step_of_ok (hready : Ready h) {r : Http.Router Unit Handler}
    {r' : Http.Router Unit Api.Auth.Handler} (hr : r ∈ routes) (hkey : r.key = r'.key)
    (hasks : Asks req r') {res : Response}
    (hres : (step argon2 h w (.request req hne ch f)).2.reaction = some (.responded res))
    (hok : res.status = .ok) :
    step argon2 h w (.request req hne ch f) =
      run argon2 f ch w (r.endpoint f.reply req {}) := by
  rw [step] at hres ⊢
  rcases @serve_of_asks argon2 h req ch f hready hne r r' hr hkey hasks w with hrun | hfail
  · exact hrun
  · rw [hfail] at hres
    rw [stockReaction_status f.stock (Option.some.inj hres)] at hok
    cases hok

/-- A page is the answer to a call of `get_user`. -/
theorem getUser_of_page (hready : Ready h) (hasks : Asks req (userRoute ())) {res : Response}
    (hpage : (step argon2 h w (.request req hne ch f)).2.reaction = some (.responded res))
    (hok : res.status = .ok) :
    ∃ user, Auth.Faulty.getUser w (sessionId req.headers) f.store = some (.ok user) ∧
      res = userResponse f.reply {} (.ok user) := by
  have hrun := step_of_ok hready (.tail _ (.tail _ (.tail _ (.head _)))) rfl hasks hpage hok
  rw [hrun] at hpage
  change (run argon2 f ch w (getUser f.reply req {})).2.reaction = _ at hpage
  unfold getUser at hpage
  by_cases hs : (sessionId req.headers).isEmpty
  · rw [if_pos hs] at hpage
    obtain rfl := Reaction.responded.inj (Option.some.inj hpage)
    cases hok
  · rw [if_neg hs, run_getUser] at hpage
    have hreaction := Option.some.inj hpage
    cases hget : Auth.Faulty.getUser w (sessionId req.headers) f.store with
    | none =>
        rw [hget] at hreaction
        cases hreaction
    | some r =>
        rw [hget] at hreaction
        obtain rfl := Reaction.responded.inj hreaction
        obtain ⟨user, rfl⟩ := (userResponse_status _ _ _).mp hok
        exact ⟨user, rfl, rfl⟩

/-- A logout answered `200 OK`, or an expiry, closes the session. -/
theorem closes_of_ended (hready : Ready h) {a : Input}
    (hended : Ended s (a, (step argon2 h w a).2)) :
    ∃ c ∈ (step argon2 h w a).2.calls, Closes s (c.1.action, c.2) := by
  rcases hended with ⟨req, hne, ch, f, res, ha, hasks, hs, hreaction, hok⟩ | ha
  · obtain rfl : a = .request req hne ch f := ha
    dsimp only at hreaction
    have hrun := step_of_ok hready (.tail _ (.tail _ (.head _))) rfl hasks hreaction hok
    rw [hrun] at hreaction ⊢
    change (run argon2 f ch w (postLogout f.reply req {})).2.reaction = _ at hreaction
    change ∃ c ∈ (run argon2 f ch w (postLogout f.reply req {})).2.calls, _
    unfold postLogout at hreaction ⊢
    by_cases hnone : (sessionId req.headers).isEmpty
    · rw [if_pos hnone] at hreaction
      obtain rfl := Reaction.responded.inj (Option.some.inj hreaction)
      cases hok
    · rw [if_neg hnone] at hreaction ⊢
      obtain rfl := Reaction.responded.inj (Option.some.inj hreaction)
      have hlogout := (logoutResponse_status _ _ _).mp hok
      refine ⟨_, List.mem_singleton_self _, .inl ?_⟩
      rw [← hs]
      exact congrArg (fun r => (Auth.Action.logout (sessionId req.headers),
        Answer.loggedOut r)) hlogout
  · obtain rfl : a = .expire s := ha
    exact ⟨_, List.mem_singleton_self _, .inr rfl⟩

/-- Where a login is called, the entry is a request for it, and it is its only call. -/
theorem login_of_call (hready : Ready h) {a : Input} {xs ys : List (Call × Answer)}
    {c : Call × Answer} {username password : CString}
    (hcalls : (step argon2 h w a).2.calls = xs ++ c :: ys)
    (hc : c.1.action = .login (some username) (some password) s) :
    xs = [] ∧ ∃ req hne ch f, a = .request req hne ch f ∧ Asks req (loginRoute ()) ∧
      Credentials req username password ∧ ch.sessionId = s := by
  have hdoes := @step_does argon2 h hready w a
  generalize step argon2 h w a = result at hdoes hcalls
  have hsingle : ∀ c' : Call × Answer, [c'] = xs ++ c :: ys → xs = [] ∧ c = c' := by
    intro c' heq
    cases xs with
    | nil => exact ⟨rfl, (List.cons.inj heq).1.symm⟩
    | cons x xs => simp at heq
  cases hdoes with
  | expire s' =>
      obtain ⟨-, rfl⟩ := hsingle _ hcalls
      cases hc
  | refused hstatus => simp at hcalls
  | login hasks hcred hcall =>
      obtain ⟨hnil, rfl⟩ := hsingle _ hcalls
      obtain ⟨hname, htext, hs⟩ := Auth.Action.login.inj hc
      obtain rfl := Option.some.inj hname
      obtain rfl := Option.some.inj htext
      exact ⟨hnil, _, _, _, _, rfl, hasks, hcred, hs⟩
  | register hasks hcred hcall =>
      obtain ⟨-, rfl⟩ := hsingle _ hcalls
      cases hc
  | logout hasks hcall =>
      obtain ⟨-, rfl⟩ := hsingle _ hcalls
      cases hc
  | user hasks hcall =>
      obtain ⟨-, rfl⟩ := hsingle _ hcalls
      cases hc

/-- Where a registration is called, the entry is a request for it. -/
theorem registers_of_call (hready : Ready h) {a : Input} {c : Call × Answer} {id : Uuid}
    {accepted : Bool} {username password : CString} (hc : c ∈ (step argon2 h w a).2.calls)
    (haction : c.1.action = .registerUser (some username) (some password) id accepted) :
    ∃ req hne ch f, a = .request req hne ch f ∧ Asks req (registerRoute ()) ∧
      Credentials req username password ∧ ch.id = id := by
  have hdoes := @step_does argon2 h hready w a
  generalize step argon2 h w a = result at hdoes hc
  cases hdoes with
  | expire s' =>
      obtain rfl := List.mem_singleton.mp hc
      cases haction
  | refused hstatus => cases hc
  | login hasks hcred hcall =>
      obtain rfl := List.mem_singleton.mp hc
      cases haction
  | register hasks hcred hcall =>
      obtain rfl := List.mem_singleton.mp hc
      obtain ⟨hname, htext, hid, -⟩ := Auth.Action.registerUser.inj haction
      obtain rfl := Option.some.inj hname
      obtain rfl := Option.some.inj htext
      exact ⟨_, _, _, _, rfl, hasks, hcred, hid⟩
  | logout hasks hcall =>
      obtain rfl := List.mem_singleton.mp hc
      cases haction
  | user hasks hcall =>
      obtain rfl := List.mem_singleton.mp hc
      cases haction

/-! ## The owner -/

/-- Whatever fails, `200 OK` is answered to `get_user` only with the session id of an
executed login whose password starts with the one of an earlier registration of its
username, and since this login no logout with the session has been answered `200 OK`, and it
has not expired. The page shows nothing but parts of this account. -/
theorem faulty_page_owner (hlaw : argon2.Lawful) (hempty : argon2.RefusesEmpty)
    (hready : Ready h) (hrun : Run argon2 h hist w) (hfresh : Fresh (calls hist))
    {pre post : List (Input × Output)} (hhist : hist = pre ++ e :: post)
    (hreq : e.1 = .request req hne ch f) (hasks : Asks req (userRoute ())) {res : Response}
    (hpage : e.2.reaction = some (.responded res)) (hok : res.status = .ok) :
    ∃ before login after username password id, pre = before ++ login :: after ∧
      LoggedInWith (sessionId req.headers) username password login ∧
      (∃ registration ∈ before, RegistersWith id username (password.take 60) registration) ∧
      (∀ e' ∈ after, ¬ Ended (sessionId req.headers) e') ∧
      res.content.Sublist (lit "[" ++ id.buffer ++ lit "]: " ++ username.bytes) := by
  subst hhist
  obtain ⟨w₁, hrun₁, he⟩ := hrun.of_append
  rw [hreq] at he
  rw [he] at hpage
  obtain ⟨user, hget, rfl⟩ := getUser_of_page hready hasks hpage hok
  have hfresh₁ : Fresh (calls pre) := by
    have hsub : ((calls pre).flatMap fun e => Auth.Faulty.uuids e.1.action).Sublist
        ((calls (pre ++ e :: post)).flatMap fun e => Auth.Faulty.uuids e.1.action) := by
      rw [calls, calls, List.flatMap_append, List.flatMap_append]
      exact List.sublist_append_left _ _
    exact ⟨fun u hu => hfresh.full u (hsub.subset hu), hfresh.nodup.sublist hsub⟩
  obtain ⟨es, v, acc, hes, hlived, hlive, rfl⟩ :=
    live_of_getUser hempty (calls_run hrun₁) hfresh₁ hget
  obtain ⟨past, c, later, password, hsplit, haction, hdone, hregistered, hopen⟩ :=
    login_of_live hlaw hes hlived hlive
  obtain ⟨before, login, after, xs, ys, rfl, hcalls, rfl, rfl⟩ := exists_flatMap_split hsplit
  obtain ⟨w₂, hrun₂, hlogin⟩ := hrun₁.of_append
  rw [hlogin] at hcalls
  obtain ⟨rfl, hrequest⟩ := login_of_call hready hcalls haction
  refine ⟨before, login, after, acc.username, password, acc.id, rfl, ⟨hrequest, c, ?_, hdone⟩,
    ?_, ?_, userResponse_content _ _⟩
  · rw [hlogin, hcalls]
    simp
  · obtain ⟨c', hc', accepted, haction'⟩ := hregistered
    rw [List.append_nil] at hc'
    obtain ⟨registration, hmem, hc'⟩ := List.mem_flatMap.mp hc'
    obtain ⟨w₃, hout⟩ := hrun₂.exists_state hmem
    rw [hout] at hc'
    exact ⟨registration, hmem, registers_of_call hready hc' haction'⟩
  · intro e' he' hended
    obtain ⟨w₃, hout⟩ := hrun₁.exists_state (e := e') (by simp [he'])
    obtain ⟨c', hc', hcloses⟩ := @closes_of_ended argon2 h w₃ (sessionId req.headers) hready e'.1
      (by rwa [← hout])
    rw [← hout] at hc'
    exact hopen c' (List.mem_append_right _ (List.mem_flatMap.mpr ⟨e', he', hc'⟩)) hcloses

/-- The handler that `setup` and `finalize` build. -/
def sampleApp : RequestHandler Unit Handler where
  staticRoutes := Api.Auth.sampleApp.staticRoutes
  endpoints := Api.Auth.sampleApp.endpoints
  callbacks := [⟨(), postLogin⟩, ⟨(), postLogout⟩, ⟨(), postRegister⟩, ⟨(), getUser⟩]

theorem ready_sampleApp : Ready sampleApp := ⟨⟨16, by decide⟩, rfl⟩

/-- The first part of a content cannot be copied. -/
def sampleFaults : RequestFaults where
  reply := { content := fun k => if k = 0 then some .badAllocation else none }

/-- `alice` has registered and has logged in; the answer to the login was left without its
content. -/
def sampleHist : List (Input × Output) :=
  [(.request (sampleRequest "/api/auth/register") registerRequest_uri
        ⟨Auth.sampleId, true, .empty⟩ {},
      ⟨[(.registerUser (some (.lit "alice")) (some (.lit "password")) Auth.sampleId true {} {},
          .registered (.ok ()))], some (.responded (registerResponse {} {} (.ok ())))⟩),
    (.request (sampleRequest "/api/auth/login") loginRequest_uri
        ⟨.empty, true, Auth.sampleSession⟩ sampleFaults,
      ⟨[(.login (some (.lit "alice")) (some (.lit "password")) Auth.sampleSession {} {} {},
          .loggedIn (.ok Auth.sampleSession))],
        some (.responded (loginResponse sampleFaults.reply {} (.ok Auth.sampleSession)))⟩)]

/-- `alice` is shown her page without its first bracket. -/
theorem faulty_page_owner_sample :
    ∃ before login after username password id, sampleHist = before ++ login :: after ∧
      LoggedInWith Auth.sampleSession username password login ∧
      (∃ registration ∈ before, RegistersWith id username (password.take 60) registration) ∧
      (∀ e' ∈ after, ¬ Ended Auth.sampleSession e') ∧
      (userResponse sampleFaults.reply {}
          (.ok { id := Auth.sampleId, username := lit "alice" })).content.Sublist
        (lit "[" ++ id.buffer ++ lit "]: " ++ username.bytes) := by
  have hrun : Run sampleArgon2 sampleApp (sampleHist ++
      [(.request (pageRequest Auth.sampleSession) (by decide) ⟨.empty, true, .empty⟩
        sampleFaults, _)]) _ :=
    .next (.next (.next .start _) _) _
  exact @faulty_page_owner _ _ _ _ (pageRequest Auth.sampleSession) (by decide) _ _ _
    sampleArgon2_lawful sampleArgon2_refusesEmpty ready_sampleApp hrun
    ⟨by decide, by decide⟩ _ [] rfl rfl ⟨rfl, .inl rfl⟩ _ rfl rfl

end RePlace.App.Faulty
