import RePlace.Api.Accounts
import RePlace.Api.ContentLength
import RePlace.Api.Site
import RePlace.Http.Framing

/-!
# Exchanges over the wire

What a client of the site sends and gets back, while others send as well. A message
that is sent in one piece or in many is handled once, and what is written for it is
read back as the response of the application (`exchange`). What holds of the
application holds of the connections: the page of an account is written to those only
off whose cookie header a session id is read that a connection of the account has been
given (`site_owner`).
-/

namespace RePlace.Site

open Api.Auth
open App (Chance Credentials Input Output RegisteredWith loginResponse userResponse
  registerResponse)
open Auth (Account Distinct)
open Bytes (lit)
open Http (Carries Cut Json LLHttp Message Request Response RequestHandler Served doRead
  readResponse statusLine written)

variable {σ : Type} {L : LLHttp σ} {parse : CString → Json} {argon2 : Argon2}
  {h : RequestHandler Unit Handler} {events : List Event} {log : List Entry} {s : Site σ}

/-- The connection has handled the request, and it is answered with the response. -/
def Answered (L : LLHttp σ) (parse : CString → Json) (h : RequestHandler Unit Handler)
    (events : List Event) (s : Site σ) (i : ℕ) (req : Request) (res : Response) : Prop :=
  ∃ conn outcome, s.clients[i]? = some ⟨conn, some res⟩ ∧
    doRead L parse h (.new L) (readsOf i events) = some (.handled req outcome [])

/-- What has been done is done for the connection whose request it is. -/
theorem entry_unique (hnodup : (numbers log).Nodup) {i : ℕ} {x y : Input × Output}
    (hx : (some i, x) ∈ log) (hy : (some i, y) ∈ log) : x = y := by
  have hpairs := List.pairwise_filterMap.mp hnodup
  by_contra hne
  have : Std.Symm fun a a' : Entry => ∀ b, a.1 = some b → ∀ b', a'.1 = some b' → b ≠ b' :=
    ⟨fun a a' h b hb b' hb' => (h b' hb' b hb).symm⟩
  exact hpairs.forall hx hy (by simpa using hne) i rfl i rfl rfl

theorem answered_of_mem (hrun : Run L parse argon2 h events log s) {i : ℕ} {req : Request}
    {hne : req.uri ≠ []} {ch : App.Chance} {out : Output}
    (hmem : (some i, .request req hne ch, out) ∈ log) :
    ∃ res, out.reaction = some (.responded res) ∧ Answered L parse h events s i req res := by
  have hinv := invariant_run hrun
  have hi : i ∈ numbers log := List.mem_filterMap.mpr ⟨_, hmem, rfl⟩
  obtain ⟨⟨conn, res⟩, hget⟩ : ∃ client, s.clients[i]? = some client :=
    ⟨_, List.getElem?_eq_getElem (hinv.lt_of_mem hi)⟩
  cases hinv.answers i _ hget with
  | reading _ hlog => exact absurd hi hlog
  | rejected _ hlog => exact absurd hi hlog
  | @answered _ req' outcome hne' ch' out' res hread hlog hout =>
      obtain ⟨heq, rfl⟩ := Prod.mk.inj (entry_unique hinv.nodup hlog hmem)
      obtain ⟨rfl, -⟩ := Input.request.inj heq
      exact ⟨res, hout, conn, outcome, hget, hread⟩

/-- What has been done for a connection that is answered. -/
theorem Answered.exists_entry (hrun : Run L parse argon2 h events log s) {i : ℕ} {req : Request}
    {res : Response} (hans : Answered L parse h events s i req res) :
    ∃ hne ch out, (some i, .request req hne ch, out) ∈ log ∧
      out.reaction = some (.responded res) := by
  obtain ⟨conn, outcome, hclient, hread⟩ := hans
  cases (invariant_run hrun).answers i _ hclient with
  | rejected hread' _ => cases hread.symm.trans hread'
  | @answered _ req' outcome' hne ch out _ hread' hlog hout =>
      obtain ⟨rfl, -⟩ := Served.handled.inj (Option.some.inj (hread.symm.trans hread'))
      exact ⟨hne, ch, out, hlog, hout⟩

/-- A request of the application was made by some connection. -/
theorem exists_number (hrun : Run L parse argon2 h events log s) {req : Request}
    {hne : req.uri ≠ []} {ch : Chance} {out : Output}
    (hmem : (.request req hne ch, out) ∈ log.map Prod.snd) :
    ∃ i, (some i, .request req hne ch, out) ∈ log := by
  obtain ⟨⟨number, entry⟩, he, rfl⟩ := List.mem_map.mp hmem
  cases number with
  | some i => exact ⟨i, he⟩
  | none =>
      obtain ⟨session, hexpire⟩ := (invariant_run hrun).expiries _ he rfl
      cases hexpire

/-- An entry of the application is the answer to some connection. -/
theorem exists_answered (hrun : Run L parse argon2 h events log s) {e : Input × Output}
    (he : e ∈ log.map Prod.snd) {req : Request} {hne : req.uri ≠ []} {ch : Chance}
    (hreq : e.1 = .request req hne ch) {res : Response}
    (hres : e.2.reaction = some (.responded res)) :
    ∃ i, Answered L parse h events s i req res := by
  obtain ⟨a, out⟩ := e
  obtain rfl : a = .request req hne ch := hreq
  obtain ⟨i, hmem⟩ := exists_number hrun he
  obtain ⟨res', hout, hans⟩ := answered_of_mem hrun hmem
  obtain rfl : res' = res := by simpa [hout] using hres
  exact ⟨i, hans⟩

/-- Whenever the page of an account is the answer to a connection, another connection has
been answered with the session id that is read off its cookie header, to a login with the
password that a third one has registered for the account. -/
theorem site_owner (hlaw : argon2.Lawful) (hready : Ready h ())
    (hrun : Run L parse argon2 h events log s) (hdist : Distinct (App.calls (log.map Prod.snd)))
    {i : ℕ} {req : Request} {acc : Account} (hasks : Asks req (userRoute ()))
    (hans : Answered L parse h events s i req (userResponse (.ok acc.user))) :
    ∃ j k login registration password,
      Answered L parse h events s j login (loginResponse (.ok (sessionId req.headers))) ∧
      Asks login (loginRoute ()) ∧ Credentials login acc.username password ∧
      Answered L parse h events s k registration (registerResponse (.ok ())) ∧
      Asks registration (registerRoute ()) ∧
      Credentials registration acc.username (password.take 60) := by
  obtain ⟨hne, ch, out, hmem, hout⟩ := hans.exists_entry hrun
  have hworld := (invariant_run hrun).world
  obtain ⟨pre, post, hsplit⟩ := List.append_of_mem (List.mem_map_of_mem (f := Prod.snd) hmem)
  rw [hsplit] at hworld hdist
  obtain ⟨w, hpast, hstep⟩ := hworld.of_append
  obtain rfl : out = (App.step argon2 h w (.request req hne ch)).2 := hstep
  have hfinds := App.finds_open hready hpast (App.distinct_of_append hdist)
  have hopen := hfinds.of_page hready hasks hout
  obtain ⟨before, login, after, req', hne', ch', password, rfl, hlogin, hasks', hcred, hreply,
    ⟨e, he, req'', hne'', ch'', hreg, hasks'', hcred'', -, hreply'⟩, -⟩ :=
      App.owner_of_open hlaw hready hpast hopen
  have hbefore : ∀ x, x = login ∨ x ∈ before → x ∈ log.map Prod.snd := by
    rintro x (rfl | hx)
    · simp [hsplit]
    · simp [hsplit, hx]
  obtain ⟨j, hj⟩ := exists_answered hrun (hbefore login (.inl rfl)) hlogin hreply
  obtain ⟨k, hk⟩ := exists_answered hrun (hbefore e (.inr he)) hreg hreply'
  exact ⟨j, k, req', req'', password, hj, hasks', hcred, hk, hasks'', hcred''⟩

/-! ## Messages and responses -/

/-- The headers of a stock response are sound. -/
theorem clean_stockResponse (status : Http.StatusType) :
    ∀ header ∈ (Http.stockResponse status).headers, header.Clean := by
  intro header hmem
  simp only [Http.stockResponse, List.mem_cons, List.not_mem_nil, or_false] at hmem
  rcases hmem with rfl | rfl
  · exact Http.lengthHeader_clean (Http.stockReply status)
  · exact ⟨by decide, by decide⟩

/-- Every response of the application has headers that a reader gets back. -/
theorem clean_of_step (hready : Ready h ()) {w : World} {a : Input} {res : Response}
    (hids : ∀ u ∈ Auth.generated (App.step argon2 h w a).2.calls, u.Textual)
    (hres : (App.step argon2 h w a).2.reaction = some (.responded res)) :
    ∀ header ∈ res.headers, header.Clean := by
  have hdoes := @App.step_does argon2 h hready w a
  generalize App.step argon2 h w a = result at hdoes hids hres
  cases hdoes with
  | expire s => cases hres
  | notFound _ =>
      obtain rfl := App.Reaction.responded.inj (Option.some.inj hres)
      exact clean_stockResponse _
  | noCredentials _ _ => cases hres
  | @login _ _ _ _ _ _ r _ _ _ =>
      obtain rfl := App.Reaction.responded.inj (Option.some.inj hres)
      cases r with
      | error code => simp [loginResponse]
      | ok s =>
          have htext : s.Textual := hids s (by simp [Auth.generated, Auth.generatedBy])
          intro header hmem
          obtain rfl := List.mem_singleton.mp hmem
          exact clean_sessionCookie htext
  | @register _ _ _ _ _ _ r _ _ _ =>
      obtain rfl := App.Reaction.responded.inj (Option.some.inj hres)
      cases r <;> simp [registerResponse]
  | noSession _ _ =>
      obtain rfl := App.Reaction.responded.inj (Option.some.inj hres)
      simp [App.unauthorized]
  | @logout _ _ _ _ r _ _ _ =>
      obtain rfl := App.Reaction.responded.inj (Option.some.inj hres)
      cases r <;> simp [App.logoutResponse]
  | @user _ _ _ r _ _ _ =>
      cases r with
      | none => cases hres
      | some r =>
          obtain rfl := App.Reaction.responded.inj (Option.some.inj hres)
          cases r <;> simp [userResponse, App.unauthorized]

/-- A client that sends one message, in whatever pieces, is answered once all of it has
been read, if the process gets that far: the request that is handled carries the message,
it is handled once, and what is written is read back as the response of the application to
it. -/
theorem exchange (hready : Ready h ()) (hrun : Run L parse argon2 h events log s)
    (hids : ∀ u ∈ Auth.generated (App.calls (log.map Prod.snd)), u.Textual)
    {i : ℕ} {client : Client σ} (hi : s.clients[i]? = some client) {lead : Bytes} {msg : Message}
    (hL : L.Reads lead [msg]) (hcut : Cut (lead ++ msg.text) (readsOf i events))
    (hfirst : ∀ r, (readsOf i events).head? = some r → lead.length < r.length) :
    ∃ req hne ch out res before after, Carries req msg ∧
      log = before ++ (some i, .request req hne ch, out) :: after ∧
      (∀ e ∈ before ++ after, e.1 ≠ some i) ∧ out.reaction = some (.responded res) ∧
      client.res = some res ∧
      ∀ more, readResponse (written res ++ more) =
        some (statusLine res.status, res.headers, res.content) := by
  obtain ⟨req, outcome, hread, hne, hcarries⟩ :=
    @Http.handledOnce_of_lt _ _ _ L parse h _ _ _ hL hcut hfirst
  have hinv := invariant_run hrun
  obtain ⟨conn, res⟩ := client
  obtain ⟨res, rfl⟩ : ∃ res', res = some res' := by
    cases hinv.answers i _ hi with
    | reading hread' _ => cases hread.symm.trans hread'
    | rejected _ _ => exact ⟨_, rfl⟩
    | answered _ _ _ => exact ⟨_, rfl⟩
  have hans : Answered L parse h events s i req res := ⟨conn, outcome, hi, hread⟩
  obtain ⟨hne', ch, out, hmem, hout⟩ := hans.exists_entry hrun
  obtain ⟨before, after, hsplit⟩ := List.append_of_mem hmem
  refine ⟨req, hne', ch, out, res, before, after, hcarries, hsplit, ?_, hout, rfl, ?_⟩
  · intro e he hei
    have hnodup := hinv.nodup
    rw [hsplit, numbers_append, numbers, numbers, List.filterMap_cons, List.nodup_middle] at hnodup
    refine (List.nodup_cons.mp hnodup).1 ?_
    rw [← List.filterMap_append]
    exact List.mem_filterMap.mpr ⟨e, he, hei⟩
  · have hentry := List.mem_map_of_mem (f := Prod.snd) hmem
    obtain ⟨w, hw⟩ := App.stepped_of_run hinv.world hentry
    obtain rfl : out = (App.step argon2 h w (.request req hne' ch)).2 := hw
    refine Http.readResponse_written (clean_of_step hready (fun u hu => hids u ?_) hout)
    obtain ⟨x, hx, hu⟩ := List.mem_flatMap.mp hu
    exact List.mem_flatMap.mpr ⟨x, List.mem_flatMap.mpr ⟨_, hentry, hx⟩, hu⟩

/-! ## Samples -/

/-- A parser that has been seen to take whole messages: the text of each, its method
and the callbacks. -/
def playback (script : List (Bytes × UInt8 × List Http.Event)) : LLHttp (Option UInt8) where
  init := none
  execute _ bytes :=
    match script.lookup bytes with
    | some (method, events) => ⟨some method, events, 0⟩
    | none => ⟨none, [], 1⟩
  finish method := if method.isSome then 0 else 2
  method method := method.getD 0

/-- A document with a username and a password. -/
def sampleBody : Bytes := lit "\x7b\"username\":\"alice\",\"password\":\"password\"\x7d"

def sampleParse (text : CString) : Json :=
  if text.bytes = sampleBody then
    .object [(lit "username", .string (lit "alice")), (lit "password", .string (lit "password"))]
  else .null

/-- A message that posts the document, and what the parser makes of it. -/
def samplePost (path : String) : Bytes × UInt8 × List Http.Event :=
  (lit "POST " ++ lit path ++ lit " HTTP/1.0\r\nContent-Type: application/json\r\n" ++
      lit "Content-Length: 42\r\n\r\n" ++ sampleBody, 3,
    [.url (lit path), .urlComplete, .headerField (lit "Content-Type"), .headerFieldComplete,
      .headerValue (lit "application/json"), .headerValueComplete,
      .headerField (lit "Content-Length"), .headerFieldComplete, .headerValue (lit "42"),
      .headerValueComplete, .body sampleBody])

/-- A message that asks for the page with the cookie of a session. -/
def sampleGet (s : Uuid) : Bytes × UInt8 × List Http.Event :=
  (lit "GET /api/user HTTP/1.0\r\nCookie: rp-session=" ++ s.text.bytes ++ lit "\r\n\r\n", 1,
    [.url (lit "/api/user"), .urlComplete, .headerField (lit "Cookie"), .headerFieldComplete,
      .headerValue (lit "rp-session=" ++ s.text.bytes), .headerValueComplete])

def sampleScript : List (Bytes × UInt8 × List Http.Event) :=
  [samplePost "/api/auth/register", samplePost "/api/auth/login", sampleGet Auth.sampleSession]

/-- Of two connections that are read by turns each is answered. -/
theorem exchange_sample :
    ∃ log s client, Run Http.sampleRecording.parser (fun _ => .null) sampleArgon2 sampleApp
        sampleEvents log s ∧ s.clients[0]? = some client ∧
      ∃ req hne ch out res before after, Carries req Http.sampleMessage ∧
        log = before ++ (some 0, .request req hne ch, out) :: after ∧
        (∀ e ∈ before ++ after, e.1 ≠ some 0) ∧ out.reaction = some (.responded res) ∧
        client.res = some res ∧ ∀ more, readResponse (written res ++ more) =
          some (statusLine res.status, res.headers, res.content) := by
  have hrun : Run Http.sampleRecording.parser (fun _ => .null) sampleArgon2 sampleApp
      sampleEvents _ _ :=
    .next (.next (.next (.next (.next (.next (.next .start _ rfl) _ rfl) _ rfl) _ rfl) _ rfl)
      _ rfl) _ rfl
  refine ⟨_, _, _, hrun, rfl, exchange ready_sampleApp hrun
    (fun u hu => (List.not_mem_nil (show u ∈ [] from hu)).elim) rfl
    Http.reads_sampleRecording ⟨by decide, by decide⟩ fun r hr => ?_⟩
  obtain rfl : lit "\r\nGET" = r := Option.some.inj hr
  decide

/-- Three connections: one registers `alice`, one logs in, one asks for her page. -/
def ownerEvents : List Event :=
  [.accept true, .accept true, .accept true,
    .read 2 (samplePost "/api/auth/register").1 ⟨Auth.sampleId, true, .empty⟩,
    .read 0 (samplePost "/api/auth/login").1 ⟨.empty, true, Auth.sampleSession⟩,
    .read 1 (sampleGet Auth.sampleSession).1 ⟨.empty, true, .empty⟩]

/-- `alice` is shown her page on a connection of its own. -/
theorem site_owner_sample :
    ∃ log s, Run (playback sampleScript) sampleParse sampleArgon2 sampleApp ownerEvents log s ∧
      ∃ j k login registration password,
        Answered (playback sampleScript) sampleParse sampleApp ownerEvents s j login
          (loginResponse (.ok Auth.sampleSession)) ∧
        Asks login (loginRoute ()) ∧ Credentials login (.lit "alice") password ∧
        Answered (playback sampleScript) sampleParse sampleApp ownerEvents s k registration
          (registerResponse (.ok ())) ∧
        Asks registration (registerRoute ()) ∧
        Credentials registration (.lit "alice") (password.take 60) := by
  have hrun : Run (playback sampleScript) sampleParse sampleArgon2 sampleApp ownerEvents _ _ :=
    .next (.next (.next (.next (.next (.next .start _ rfl) _ rfl) _ rfl) _ rfl) _ rfl) _ rfl
  exact ⟨_, _, hrun, @site_owner _ _ _ _ _ _ _ _ sampleArgon2_lawful ready_sampleApp hrun
    ⟨by decide, by decide⟩ 1 (App.pageRequest Auth.sampleSession)
    ⟨Auth.sampleId, .lit "alice"⟩ ⟨rfl, .inl rfl⟩ ⟨_, _, rfl, rfl⟩⟩

end RePlace.Site
