import RePlace.Api.Application

/-!
# Sessions over HTTP

What clients see of a session. It is opened by a login that is answered with its
cookie, and it ends with a logout that is answered `Logged out` or when it expires.
In every run `get_user` answers with the page of an account exactly while a session of
the account is open (`session_replies`).
-/

namespace RePlace.App

open Api.Auth
open Auth (Account Action Answer Distinct Live sampleId sampleSession)
open Bytes (lit)
open History (Since since_congr since_flatMap since_singleton not_since_nil)
open Http (Request Response RequestHandler)

variable {argon2 : Argon2} {h : RequestHandler Unit Handler} {hist : List (Input × Output)}
  {w : World} {req : Request} {hne : req.uri ≠ []} {ch : Chance} {e : Input × Output}

/-! ## What clients see -/

/-- A login for the username has been answered with the cookie of the session. -/
def LoggedIn (s : Uuid) (username : CString) (e : Input × Output) : Prop :=
  ∃ req hne ch password, e.1 = .request req hne ch ∧ Asks req (loginRoute ()) ∧
    Credentials req username password ∧ e.2.reaction = some (.responded (loginResponse (.ok s)))

/-- A registration of the account with the password has been answered `Registered`. -/
def RegisteredWith (acc : Account) (password : CString) (e : Input × Output) : Prop :=
  ∃ req hne ch, e.1 = .request req hne ch ∧ Asks req (registerRoute ()) ∧
    Credentials req acc.username password ∧ ch.id = acc.id ∧
    e.2.reaction = some (.responded (registerResponse (.ok ())))

/-- A logout with the session has been answered `Logged out`, or it has expired. -/
def Ended (s : Uuid) (e : Input × Output) : Prop :=
  (∃ req hne ch, e.1 = .request req hne ch ∧ Asks req (logoutRoute ()) ∧
    sessionId req.headers = s ∧ e.2.reaction = some (.responded (logoutResponse (.ok ())))) ∨
  e.1 = .expire s

/-- The account has been registered. -/
def Member (hist : List (Input × Output)) (acc : Account) : Prop :=
  ∃ password, ∃ e ∈ hist, RegisteredWith acc password e

/-- A login for the account has been answered with the cookie of the session, and the
session has not ended since. -/
def Open (hist : List (Input × Output)) (s : Uuid) (acc : Account) : Prop :=
  Since (fun pre e => LoggedIn s acc.username e ∧ Member pre acc) (Ended s) hist

/-! ## The calls behind it -/

theorem loginResponse_ok_injective {s : Uuid} {r : Except ErrorCode Uuid}
    (heq : loginResponse r = loginResponse (.ok s)) : r = .ok s := by
  cases r with
  | error code => cases heq
  | ok s' =>
      have hvalue := congrArg (fun res : Response => res.headers.map Http.Header.value) heq
      simp only [loginResponse, List.map_cons, List.map_nil, List.cons.injEq, and_true] at hvalue
      have htext := List.append_cancel_left (List.append_cancel_right hvalue)
      rw [Uuid.ext (CString.ext htext)]

theorem registerResponse_ok {r : Except ErrorCode Unit}
    (heq : registerResponse r = registerResponse (.ok ())) : r = .ok () := by
  cases r with
  | error code => cases heq
  | ok _ => rfl

theorem logoutResponse_ok {r : Except ErrorCode Unit}
    (heq : logoutResponse r = logoutResponse (.ok ())) : r = .ok () := by
  cases r with
  | error code => cases heq
  | ok _ => rfl

/-- An entry is what some step has made of its input. -/
def Stepped (argon2 : Argon2) (h : RequestHandler Unit Handler) (e : Input × Output) : Prop :=
  ∃ w, e.2 = (step argon2 h w e.1).2

theorem loggedIn_iff (hready : Ready h ()) (he : Stepped argon2 h e) {s : Uuid}
    {username : CString} : LoggedIn s username e ↔
      ∃ password newId, (Action.login (some username) password newId, .loggedIn (.ok s)) ∈
        e.2.calls := by
  obtain ⟨a, out⟩ := e
  obtain ⟨w, hw⟩ := he
  obtain rfl : out = (step argon2 h w a).2 := hw
  constructor
  · rintro ⟨req, hne, ch, password, rfl, hasks, hcred, hreaction⟩
    rw [step_login hready hasks hcred] at hreaction ⊢
    have hok := loginResponse_ok_injective (by simpa using hreaction)
    exact ⟨some password, ch.sessionId, by simp [hok]⟩
  · rintro ⟨password, newId, hmem⟩
    have hdoes := @step_does argon2 h hready w a
    generalize step argon2 h w a = result at hdoes hmem ⊢
    cases hdoes with
    | login hasks hcred hcall =>
        simp only [List.mem_singleton, Prod.mk.injEq, Action.login.injEq, Option.some.injEq,
          Answer.loggedIn.injEq] at hmem
        obtain ⟨⟨rfl, -, -⟩, rfl⟩ := hmem
        exact ⟨_, _, _, _, rfl, hasks, hcred, rfl⟩
    | _ => simp at hmem

theorem registeredWith_iff (hready : Ready h ()) (he : Stepped argon2 h e) {acc : Account}
    {password : Option CString} : (∃ p, password = some p ∧ RegisteredWith acc p e) ↔
      ∃ accepted, (Action.registerUser (some acc.username) password acc.id accepted,
        .registered (.ok ())) ∈ e.2.calls := by
  obtain ⟨a, out⟩ := e
  obtain ⟨w, hw⟩ := he
  obtain rfl : out = (step argon2 h w a).2 := hw
  constructor
  · rintro ⟨p, rfl, req, hne, ch, rfl, hasks, hcred, hid, hreaction⟩
    rw [step_register hready hasks hcred] at hreaction ⊢
    have hok := registerResponse_ok (by simpa using hreaction)
    exact ⟨ch.accepted, by simp [← hid, hok]⟩
  · rintro ⟨accepted, hmem⟩
    have hdoes := @step_does argon2 h hready w a
    generalize step argon2 h w a = result at hdoes hmem ⊢
    cases hdoes with
    | register hasks hcred hcall =>
        simp only [List.mem_singleton, Prod.mk.injEq, Action.registerUser.injEq,
          Option.some.injEq, Answer.registered.injEq] at hmem
        obtain ⟨⟨rfl, rfl, hid, -⟩, rfl⟩ := hmem
        exact ⟨_, rfl, _, _, _, rfl, hasks, hcred, hid.symm, rfl⟩
    | _ => simp at hmem

theorem ended_iff (hready : Ready h ()) (he : Stepped argon2 h e) {s : Uuid} :
    Ended s e ↔ ∃ x ∈ e.2.calls, Auth.Closes s x := by
  obtain ⟨a, out⟩ := e
  obtain ⟨w, hw⟩ := he
  obtain rfl : out = (step argon2 h w a).2 := hw
  constructor
  · rintro (⟨req, hne, ch, rfl, hasks, rfl, hreaction⟩ | rfl)
    · rcases Bool.eq_false_or_eq_true (sessionId req.headers).isEmpty with hs | hs
      · rw [step_noSession hready (.inl hasks) hs] at hreaction
        cases hreaction
      · rw [step_logout hready hasks hs] at hreaction ⊢
        have hok := logoutResponse_ok (by simpa using hreaction)
        exact ⟨_, List.mem_singleton_self _, .inl (by rw [hok])⟩
    · exact ⟨_, List.mem_singleton_self _, .inr rfl⟩
  · rintro ⟨x, hmem, hclose⟩
    have hdoes := @step_does argon2 h hready w a
    generalize step argon2 h w a = result at hdoes hmem ⊢
    cases hdoes with
    | logout hasks hs hcall =>
        obtain rfl := List.mem_singleton.mp hmem
        rcases hclose with hclose | hclose
        · simp only [Prod.mk.injEq, Action.logout.injEq, Answer.loggedOut.injEq] at hclose
          obtain ⟨hs, rfl⟩ := hclose
          exact .inl ⟨_, _, _, rfl, hasks, hs, rfl⟩
        · simp at hclose
    | expire s' =>
        obtain rfl := List.mem_singleton.mp hmem
        obtain rfl : s' = s := by simpa [Auth.Closes] using hclose
        exact .inr rfl
    | _ => simp_all [Auth.Closes]

/-- No input makes more than one call. -/
theorem calls_length_le (hready : Ready h ()) (he : Stepped argon2 h e) :
    e.2.calls.length ≤ 1 := by
  obtain ⟨a, out⟩ := e
  obtain ⟨w, hw⟩ := he
  obtain rfl : out = (step argon2 h w a).2 := hw
  have hdoes := @step_does argon2 h hready w a
  generalize step argon2 h w a = result at hdoes ⊢
  cases hdoes <;> simp

theorem stepped_of_run (hrun : Run argon2 h hist w) (he : e ∈ hist) : Stepped argon2 h e :=
  hrun.exists_state he

theorem member_iff_registered (hready : Ready h ()) (hstep : ∀ e ∈ hist, Stepped argon2 h e)
    {acc : Account} : Member hist acc ↔ Auth.Registered (calls hist) acc := by
  constructor
  · rintro ⟨password, e, he, hreg⟩
    obtain ⟨accepted, hmem⟩ := (registeredWith_iff hready (hstep e he)).mp ⟨password, rfl, hreg⟩
    exact ⟨some password, accepted, List.mem_flatMap.mpr ⟨e, he, hmem⟩⟩
  · rintro ⟨password, accepted, hmem⟩
    obtain ⟨e, he, hmem⟩ := List.mem_flatMap.mp hmem
    obtain ⟨p, -, hreg⟩ := (registeredWith_iff hready (hstep e he)).mpr ⟨accepted, hmem⟩
    exact ⟨p, e, he, hreg⟩

/-- A session is open when it is live for the service. -/
theorem live_calls_iff (hready : Ready h ()) (hrun : Run argon2 h hist w) {s : Uuid}
    {acc : Account} : Live (calls hist) s acc ↔ Open hist s acc := by
  have hstep : ∀ e ∈ hist, Stepped argon2 h e := fun e he => stepped_of_run hrun he
  rw [Live, calls, since_flatMap, Open]
  refine since_congr (fun pre e he hpre => ?_) fun e he => (ended_iff hready (hstep e he)).symm
  have hmember : Member pre acc ↔ Auth.Registered (calls pre) acc :=
    member_iff_registered hready fun e he => hstep e (hpre.subset he)
  rw [loggedIn_iff hready (hstep e he), hmember]
  obtain hnil | ⟨x, hx⟩ : e.2.calls = [] ∨ ∃ x, e.2.calls = [x] := by
    have hlen := calls_length_le hready (hstep e he)
    rcases Nat.le_one_iff_eq_zero_or_eq_one.mp hlen with hzero | hone
    · exact .inl (List.length_eq_zero_iff.mp hzero)
    · exact .inr (List.length_eq_one_iff.mp hone)
  · simp [hnil, not_since_nil]
  · rw [hx, since_singleton, List.append_nil]
    simp only [Auth.Opens, List.mem_singleton, eq_comm, calls]

/-- The uuids of a history are those of what it begins with and more. -/
theorem distinct_of_append {pre post : List (Input × Output)}
    (h : Distinct (calls (pre ++ post))) : Distinct (calls pre) := by
  have hgen : Auth.generated (calls (pre ++ post)) =
      Auth.generated (calls pre) ++ Auth.generated (calls post) := by
    simp [calls, Auth.generated]
  refine ⟨fun u hu => h.full u ?_, ?_⟩
  · rw [hgen]
    exact List.mem_append_left _ hu
  · have hnodup := h.nodup
    rw [hgen] at hnodup
    exact hnodup.of_append_left

/-! ## Replies -/

theorem buffer_injective {s t : Uuid} (heq : s.buffer = t.buffer) : s = t := by
  have hread := fun u : Uuid => Bytes.beforeNul_append u.text.nulFree
    (List.replicate (Uuid.size - u.text.bytes.length) 0)
  have hzeros : ∀ n, Bytes.beforeNul (List.replicate n 0) = [] := by
    intro n
    cases n <;> simp [Bytes.beforeNul, List.replicate_succ]
  refine Uuid.ext (CString.ext ?_)
  have hs := hread s
  rw [← Uuid.buffer, heq, Uuid.buffer, hread t, hzeros, hzeros, List.append_nil,
    List.append_nil] at hs
  exact hs.symm

/-- Pages tell accounts apart. -/
theorem userResponse_injective {acc acc' : Account}
    (heq : userResponse (.ok acc.user) = userResponse (.ok acc'.user)) : acc = acc' := by
  have hlen : ∀ u : Uuid, u.buffer.length = Uuid.size := by
    intro u
    have := u.length_le
    simp only [Uuid.buffer, List.length_append, List.length_replicate, Uuid.size]
    omega
  have hcontent := congrArg Response.content heq
  simp only [userResponse, Auth.Account.user, List.append_assoc] at hcontent
  obtain ⟨hid, hname⟩ := List.append_inj (List.append_cancel_left hcontent)
    ((hlen _).trans (hlen _).symm)
  obtain ⟨id, username⟩ := acc
  obtain ⟨id', username'⟩ := acc'
  obtain rfl : id = id' := buffer_injective hid
  obtain rfl : username = username' := CString.ext (List.append_cancel_left hname)
  rfl

/-- An open session has an id. -/
theorem Open.not_isEmpty (hready : Ready h ()) (hrun : Run argon2 h hist w)
    (hdist : Distinct (calls hist)) {s : Uuid} {acc : Account} (hopen : Open hist s acc) :
    s.isEmpty = false :=
  (hdist.full s (Auth.mem_generated_of_live ((live_calls_iff hready hrun).mpr hopen))).not_isEmpty

/-- The service finds these sessions, for these accounts, and a logout succeeds for them. -/
structure Finds (w : World) (P : Uuid → Account → Prop) : Prop where
  full {s acc} (h : P s acc) : s.isEmpty = false
  found {s acc} (h : P s acc) : Auth.getUser w s = some (.ok acc.user)
  notFound {s} (h : ∀ acc, ¬ P s acc) : ∃ code, Auth.getUser w s = some (.error code)
  logout s : (Auth.logout w s).2 = .ok () ↔ ∃ acc, P s acc

/-- What the service finds are the open sessions. -/
theorem finds_open (hready : Ready h ()) (hrun : Run argon2 h hist w)
    (hdist : Distinct (calls hist)) : Finds w (Open hist) where
  full hopen := hopen.not_isEmpty hready hrun hdist
  found hopen :=
    Auth.getUser_of_live (calls_run hrun) hdist ((live_calls_iff hready hrun).mpr hopen)
  notFound {s} hnone := by
    refine ⟨.valkeyTypeError, SessionValkey.getUser_of_none ?_⟩
    rw [Option.eq_none_iff_forall_ne_some]
    intro json hjson
    obtain ⟨acc, hlive, -⟩ := ((Auth.stored_of_run (calls_run hrun) hdist).at_key s json).mp hjson
    exact hnone acc ((live_calls_iff hready hrun).mp hlive)
  logout s := by
    simp only [← live_calls_iff hready hrun]
    exact Auth.logout_ok_iff_live (calls_run hrun) hdist s

section Finds

variable {P : Uuid → Account → Prop}

theorem Finds.getUser_cases (hfinds : Finds w P) (s : Uuid) :
    (∃ acc, P s acc ∧ Auth.getUser w s = some (.ok acc.user)) ∨
      (∀ acc, ¬ P s acc) ∧ ∃ code, Auth.getUser w s = some (.error code) := by
  by_cases hfound : ∃ acc, P s acc
  · obtain ⟨acc, hacc⟩ := hfound
    exact .inl ⟨acc, hacc, hfinds.found hacc⟩
  · exact .inr ⟨not_exists.mp hfound, hfinds.notFound (not_exists.mp hfound)⟩

/-- `get_user` answers with the page of the account whose session id it reads off the
cookie header, and `Unauthorized` when there is none. -/
theorem Finds.user_replies (hfinds : Finds w P) (hready : Ready h ())
    (hasks : Asks req (userRoute ())) :
    (∃ acc, P (sessionId req.headers) acc ∧
        (step argon2 h w (.request req hne ch)).2.reaction =
          some (.responded (userResponse (.ok acc.user)))) ∨
      (∀ acc, ¬ P (sessionId req.headers) acc) ∧
        (step argon2 h w (.request req hne ch)).2.reaction = some (.responded unauthorized) := by
  rcases Bool.eq_false_or_eq_true (sessionId req.headers).isEmpty with hs | hs
  · refine .inr ⟨fun acc hacc => ?_, by rw [step_noSession hready (.inr hasks) hs]⟩
    rw [hfinds.full hacc] at hs
    cases hs
  · simp only [step_user hready hasks hs]
    rcases hfinds.getUser_cases (sessionId req.headers) with
      ⟨acc, hacc, hget⟩ | ⟨hnone, code, hget⟩
    · exact .inl ⟨acc, hacc, by rw [hget]; rfl⟩
    · exact .inr ⟨hnone, by rw [hget]; rfl⟩

/-- Whoever is shown a page has a session of its account. -/
theorem Finds.of_page (hfinds : Finds w P) (hready : Ready h ())
    (hasks : Asks req (userRoute ())) {acc : Account}
    (hpage : (step argon2 h w (.request req hne ch)).2.reaction =
      some (.responded (userResponse (.ok acc.user)))) : P (sessionId req.headers) acc := by
  rcases @user_replies argon2 h w req hne ch P hfinds hready hasks with
    ⟨acc', hacc, hpage'⟩ | ⟨-, hpage'⟩
  · obtain heq := Reaction.responded.inj (Option.some.inj (hpage.symm.trans hpage'))
    rwa [userResponse_injective heq]
  · have heq := Reaction.responded.inj (Option.some.inj (hpage.symm.trans hpage'))
    cases congrArg Response.status heq

/-- A logout is answered `Logged out` when the session that it reads off the cookie header
is found. -/
theorem Finds.logout_replies (hfinds : Finds w P) (hready : Ready h ())
    (hasks : Asks req (logoutRoute ())) :
    (step argon2 h w (.request req hne ch)).2.reaction =
        some (.responded (logoutResponse (.ok ()))) ↔
      ∃ acc, P (sessionId req.headers) acc := by
  rcases Bool.eq_false_or_eq_true (sessionId req.headers).isEmpty with hs | hs
  · rw [step_noSession hready (.inl hasks) hs]
    refine iff_of_false (fun heq => by cases heq) ?_
    rintro ⟨acc, hacc⟩
    rw [hfinds.full hacc] at hs
    cases hs
  · simp only [step_logout hready hasks hs, ← hfinds.logout, Option.some.injEq,
      Reaction.responded.injEq]
    exact ⟨logoutResponse_ok, fun hok => by rw [hok]⟩

/-- What `get_user` and a logout answer in a world. -/
theorem Finds.replies (hfinds : Finds w P) (hready : Ready h ()) :
    (Asks req (userRoute ()) →
      (∀ acc : Account, (step argon2 h w (.request req hne ch)).2.reaction =
          some (.responded (userResponse (.ok acc.user))) ↔ P (sessionId req.headers) acc) ∧
      ((step argon2 h w (.request req hne ch)).2.reaction = some (.responded unauthorized) ↔
        ∀ acc, ¬ P (sessionId req.headers) acc)) ∧
    (Asks req (logoutRoute ()) →
      ((step argon2 h w (.request req hne ch)).2.reaction =
          some (.responded (logoutResponse (.ok ()))) ↔
        ∃ acc, P (sessionId req.headers) acc)) := by
  refine ⟨fun hasks => ?_, hfinds.logout_replies hready⟩
  have hstatus : ∀ acc : Account, userResponse (.ok acc.user) ≠ unauthorized := by
    intro acc heq
    cases congrArg Response.status heq
  rcases @user_replies argon2 h w req hne ch P hfinds hready hasks with
    ⟨acc, hacc, hpage⟩ | ⟨hnone, hpage⟩
  · rw [hpage]
    simp only [Option.some.injEq, Reaction.responded.injEq, hstatus, false_iff, not_forall,
      not_not]
    refine ⟨fun acc' => ⟨fun heq => userResponse_injective heq ▸ hacc, fun hacc' => ?_⟩, acc, hacc⟩
    have hget := hfinds.found hacc
    rw [hfinds.found hacc'] at hget
    rw [Except.ok.inj (Option.some.inj hget)]
  · rw [hpage]
    simp only [Option.some.injEq, Reaction.responded.injEq, true_iff]
    refine ⟨fun acc => ?_, hnone⟩
    exact iff_of_false (fun heq => hstatus acc heq.symm) (hnone acc)

end Finds

/-- In every run the page of an account is what `get_user` answers exactly while the
session whose id it reads off the first cookie header is open for the account, and
otherwise it answers `Unauthorized`; a logout is answered `Logged out` exactly while the
session is open. -/
theorem session_replies (hready : Ready h ()) (hrun : Run argon2 h hist w)
    (hdist : Distinct (calls hist)) (req : Request) (hne : req.uri ≠ []) (ch : Chance) :
    (Asks req (userRoute ()) →
      (∀ acc : Account, (step argon2 h w (.request req hne ch)).2.reaction =
          some (.responded (userResponse (.ok acc.user))) ↔
        Open hist (sessionId req.headers) acc) ∧
      ((step argon2 h w (.request req hne ch)).2.reaction = some (.responded unauthorized) ↔
        ∀ acc, ¬ Open hist (sessionId req.headers) acc)) ∧
    (Asks req (logoutRoute ()) →
      ((step argon2 h w (.request req hne ch)).2.reaction =
          some (.responded (logoutResponse (.ok ()))) ↔
        ∃ acc, Open hist (sessionId req.headers) acc)) :=
  (finds_open hready hrun hdist).replies hready

/-! ## Requests that fail -/

/-- A logout that fails finds no session, and drops none. -/
theorem logout_error {w w' : World} {s : Uuid} {code : ErrorCode}
    (hcall : Auth.logout w s = (w', .error code)) : w' = w := by
  have hnone : w.sessions (SessionValkey.key s) = none := by
    rw [Option.eq_none_iff_forall_ne_some]
    intro json hjson
    have hok := (Auth.logout_ok_iff w s).mpr ⟨json, hjson⟩
    rw [hcall] at hok
    cases hok
  have hworld := Auth.logout_fst w s
  rw [hcall, ← hnone, Function.update_eq_self] at hworld
  exact hworld

/-- A request that is not answered with `200 OK` has changed nothing, whatever the world
is: not when it fails, and not when the process ends over it. -/
theorem failed_unchanged (hready : Ready h ()) (hne : req.uri ≠ []) (ch : Chance) (w : World)
    (hfailed : ∀ res, (step argon2 h w (.request req hne ch)).2.reaction =
      some (.responded res) → res.status ≠ .ok) :
    (step argon2 h w (.request req hne ch)).1 = w := by
  have hdoes := @step_does argon2 h hready w (.request req hne ch)
  generalize step argon2 h w (.request req hne ch) = result at hdoes hfailed ⊢
  cases hdoes with
  | @login _ _ _ username password w' r _ _ hcall =>
      rcases @Auth.login_cases argon2 w (some username) (some password) ch.sessionId with
        ⟨_, _, _, -, -, -, -, -, hok⟩ | ⟨code, herr⟩
      · obtain ⟨-, rfl⟩ := Prod.mk.inj (hok.symm.trans hcall)
        exact absurd rfl (hfailed _ rfl)
      · exact (Prod.mk.inj (herr.symm.trans hcall)).1.symm
  | @register _ _ _ username password w' r _ _ hcall =>
      rcases @Auth.registerUser_cases argon2 w (some username) (some password) ch.id
          ch.accepted with ⟨_, _, _, -, -, -, -, -, -, -, -, hok⟩ | ⟨code, herr⟩
      · obtain ⟨-, rfl⟩ := Prod.mk.inj (hok.symm.trans hcall)
        exact absurd rfl (hfailed _ rfl)
      · exact (Prod.mk.inj (herr.symm.trans hcall)).1.symm
  | @logout _ _ _ w' r _ _ hcall =>
      cases r with
      | ok _ => exact absurd rfl (hfailed _ rfl)
      | error code => exact logout_error hcall
  | _ => rfl

/-- In every run the only requests that are not answered are logins and registrations
without a text for the username and one for the password: over them the process ends. -/
theorem unanswered_iff (hready : Ready h ()) (hrun : Run argon2 h hist w)
    (hdist : Distinct (calls hist)) (hne : req.uri ≠ []) (ch : Chance) :
    (∀ res, (step argon2 h w (.request req hne ch)).2.reaction ≠ some (.responded res)) ↔
      (Asks req (loginRoute ()) ∨ Asks req (registerRoute ())) ∧
        ∀ username password, ¬ Credentials req username password := by
  constructor
  · intro hnone
    have hdoes := @step_does argon2 h hready w (.request req hne ch)
    generalize step argon2 h w (.request req hne ch) = result at hdoes hnone
    cases hdoes with
    | noCredentials hasks hmissing => exact ⟨hasks, hmissing⟩
    | user hasks hs hcall =>
        rcases (finds_open hready hrun hdist).getUser_cases (sessionId req.headers) with
          ⟨acc, -, hget⟩ | ⟨-, code, hget⟩
        · rw [← hcall, hget] at hnone
          exact absurd rfl (hnone _)
        · rw [← hcall, hget] at hnone
          exact absurd rfl (hnone _)
    | _ => exact absurd rfl (hnone _)
  · rintro ⟨hasks, hmissing⟩ res hres
    rw [step_noCredentials hready hasks hmissing] at hres
    cases hres

/-! ## A sample -/

/-- A request with a username and a password. -/
def sampleRequest (path : String) : Request where
  uri := lit path
  method := 3
  bodyParams := .object [(lit "username", .string (lit "alice")),
    (lit "password", .string (lit "password"))]

theorem registerRequest_uri : (sampleRequest "/api/auth/register").uri ≠ [] := by decide

theorem loginRequest_uri : (sampleRequest "/api/auth/login").uri ≠ [] := by decide

/-- A request for the page of the account with the cookie of a session. -/
def pageRequest (s : Uuid) : Request where
  uri := lit "/api/user"
  method := 1
  headers := [{ name := lit "cookie", value := sessionCookieName ++ s.text.bytes }]

/-- `alice` has registered and has logged in. -/
def sampleHist : List (Input × Output) :=
  [(.request (sampleRequest "/api/auth/register") (by decide) ⟨sampleId, true, .empty⟩,
      ⟨[(Auth.sampleRegister (.lit "password"), .registered (.ok ()))],
        some (.responded (registerResponse (.ok ())))⟩),
    (.request (sampleRequest "/api/auth/login") (by decide) ⟨.empty, true, sampleSession⟩,
      ⟨[(.login (some (.lit "alice")) (some (.lit "password")) sampleSession,
          .loggedIn (.ok sampleSession))],
        some (.responded (loginResponse (.ok sampleSession)))⟩)]

/-- `alice` logs in before she has registered. -/
theorem failed_unchanged_sample :
    (step sampleArgon2 sampleApp {} (.request (sampleRequest "/api/auth/login") (by decide)
      ⟨.empty, true, sampleSession⟩)).1 = {} :=
  failed_unchanged ready_sampleApp (by decide) ⟨.empty, true, sampleSession⟩ {} fun res hres => by
    obtain rfl : loginResponse (.error .repoUserNotFound) = res :=
      Reaction.responded.inj (Option.some.inj hres)
    decide

/-- A login without a body, after `alice` has logged in. -/
theorem unanswered_sample :
    ∃ w, Run sampleArgon2 sampleApp sampleHist w ∧
      ∀ res, (step sampleArgon2 sampleApp w (.request { uri := lit "/api/auth/login", method := 3 }
        (by decide) ⟨.empty, true, .empty⟩)).2.reaction ≠ some (.responded res) := by
  have hrun : Run sampleArgon2 sampleApp sampleHist _ := .next (.next .start _) _
  refine ⟨_, hrun, (unanswered_iff ready_sampleApp hrun ⟨by decide, by decide⟩ (by decide)
    ⟨.empty, true, .empty⟩).mpr ⟨.inl ⟨rfl, .inl rfl⟩, ?_⟩⟩
  rintro username password ⟨husername, -⟩
  cases husername

theorem session_replies_sample :
    ∃ w, Run sampleArgon2 sampleApp sampleHist w ∧
      (step sampleArgon2 sampleApp w
          (.request (pageRequest sampleSession) (by decide) ⟨.empty, true, .empty⟩)).2.reaction =
        some (.responded (userResponse (.ok (Account.user ⟨sampleId, .lit "alice"⟩)))) ∧
      Open sampleHist sampleSession ⟨sampleId, .lit "alice"⟩ := by
  have hrun : Run sampleArgon2 sampleApp sampleHist _ := .next (.next .start _) _
  have hall := session_replies ready_sampleApp hrun ⟨by decide, by decide⟩
    (pageRequest sampleSession) (by decide) ⟨.empty, true, .empty⟩
  have hasks : Asks (pageRequest sampleSession) (userRoute ()) := ⟨rfl, .inl rfl⟩
  exact ⟨_, hrun, rfl, ((hall.1 hasks).1 _).mp rfl⟩

end RePlace.App
