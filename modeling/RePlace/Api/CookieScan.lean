import RePlace.Api.SessionCookie

/-!
# The scan for the session cookie

Which ids the endpoints take from cookie headers of any form. The scan looks for
the text `rp-session=` and does not see where a cookie begins or ends: it can stop
inside another cookie, and what is read as the id need not be the value of any.
-/

namespace RePlace.Api.Auth

open Bytes (lit)
open Http (Header Request Response)
open RePlace.Auth (sampleSession)

/-! ## Cookies -/

/-- A piece of a cookie header without the spaces around it. -/
def trimSpaces (piece : Bytes) : Bytes :=
  ((piece.dropWhile (· = 0x20)).reverse.dropWhile (· = 0x20)).reverse

/-- A piece of a cookie header: the name is what stands before the first `=`. -/
def Cookie.ofPiece (piece : Bytes) : Option Cookie :=
  match piece.dropWhile (· ≠ 0x3D) with
  | [] => none
  | _ :: value => some { name := piece.takeWhile (· ≠ 0x3D), value }

/-- The pairs of a cookie header: its pieces between semicolons. -/
def cookiePairs (value : Bytes) : List Cookie :=
  (value.splitOn 0x3B).filterMap fun piece => Cookie.ofPiece (trimSpaces piece)

/-- The value of the first `cookie` header. -/
def cookieValue (headers : List Header) : Option Bytes :=
  (headers.find? fun h => h.name = lit "cookie").map Header.value

/-- The header has a session cookie with this value. -/
def HasSessionCookie (headers : List Header) (v : Bytes) : Prop :=
  ∃ value, cookieValue headers = some value ∧ ⟨lit "rp-session", v⟩ ∈ cookiePairs value

/-- The endpoints call the service with the whole value of a session cookie only,
and answer 401 where there is none with a value. -/
structure AcceptsOnlySession (req : Request) (res : Response) : Prop where
  logout : ∀ call, (postLogout req res).firstCall = some call →
    ∃ s, call = .logout s ∧ s.text.bytes ≠ [] ∧ HasSessionCookie req.headers s.text.bytes
  getUser : ∀ call, (getUser req res).firstCall = some call →
    ∃ s, call = .getUser s ∧ s.text.bytes ≠ [] ∧ HasSessionCookie req.headers s.text.bytes
  unauthorized : (∀ v, HasSessionCookie req.headers v → v = []) →
    postLogout req res = reply res .unauthorized "Unauthorized" ∧
      Auth.getUser req res = reply res .unauthorized "Unauthorized"

/-! ## What is read -/

/-- The text that the scan takes for the id: at most 36 bytes from the twelfth on. -/
def scannedText (value : Bytes) : Bytes :=
  (Bytes.beforeNul (value.drop sessionCookieName.length)).take Uuid.size

theorem sessionId_of_none {headers : List Header} (h : cookieValue headers = none) :
    sessionId headers = .empty := by
  rw [cookieValue, Option.map_eq_none_iff] at h
  induction headers with
  | nil => rfl
  | cons first rest ih =>
      by_cases hname : first.name = lit "cookie"
      · simp [hname] at h
      · simp only [sessionId, hname, ne_eq, not_false_eq_true, if_true]
        exact ih (by simpa [List.find?_cons, hname] using h)

/-- The id is what stands in a fixed place of the first `cookie` header, as soon as
the scan comes to the name of the cookie. -/
theorem sessionId_of_some {headers : List Header} {value : Bytes}
    (h : cookieValue headers = some value) :
    (Restart.Reached sessionCookieName value →
        (sessionId headers).text.bytes = scannedText value) ∧
      (¬ Restart.Reached sessionCookieName value → sessionId headers = .empty) := by
  rw [cookieValue, Option.map_eq_some_iff] at h
  obtain ⟨header, hfind, rfl⟩ := h
  have hname : sessionCookieName ≠ [] := by decide
  rw [← Restart.restart_eq_some_iff hname]
  refine ⟨fun hfound => ?_, fun hlost => ?_⟩
  · rw [sessionId_eq hfind hfound]
    rfl
  · have hnone : Restart.restart sessionCookieName header.value 0 = none := by
      by_contra hne
      obtain ⟨n, hn⟩ := Option.ne_none_iff_exists'.mp hne
      exact hlost (Restart.restart_eq_length hn ▸ hn)
    induction headers with
    | nil => simp at hfind
    | cons first rest ih =>
        by_cases hfirst : first.name = lit "cookie"
        · obtain rfl : first = header := by simpa [List.find?_cons, hfirst] using hfind
          simp only [sessionId, hfirst, ne_eq, not_true_eq_false, if_false, hnone]
        · simp only [sessionId, hfirst, ne_eq, not_false_eq_true, if_true]
          exact ih (by simpa [List.find?_cons, hfirst] using hfind)

/-- The endpoints are sound exactly when the id is empty or a whole session cookie. -/
theorem acceptsOnlySession_iff (req : Request) (res : Response) :
    AcceptsOnlySession req res ↔ (sessionId req.headers).text.bytes = [] ∨
      HasSessionCookie req.headers (sessionId req.headers).text.bytes := by
  by_cases hempty : (sessionId req.headers).text.bytes = []
  · have htrue : (sessionId req.headers).isEmpty = true := by simp [Uuid.isEmpty, hempty]
    refine iff_of_true ⟨?_, ?_, ?_⟩ (.inl hempty)
    · simp [postLogout, htrue, reply, Endpoint.firstCall]
    · simp [Auth.getUser, htrue, reply, Endpoint.firstCall]
    · simp [postLogout, Auth.getUser, htrue]
  · have hfalse : (sessionId req.headers).isEmpty = false := by simp [Uuid.isEmpty, hempty]
    have hlogout : (postLogout req res).firstCall = some (.logout (sessionId req.headers)) := by
      simp [postLogout, hfalse, Endpoint.firstCall]
    have hget : (Auth.getUser req res).firstCall = some (.getUser (sessionId req.headers)) := by
      simp [Auth.getUser, hfalse, Endpoint.firstCall]
    simp only [hempty, false_or]
    constructor
    · intro h
      obtain ⟨s, hs, -, hcookie⟩ := h.logout _ hlogout
      rwa [Call.logout.inj hs]
    · intro hcookie
      refine ⟨fun call h => ?_, fun call h => ?_, fun h => absurd (h _ hcookie) hempty⟩
      · exact ⟨_, (Option.some.inj (hlogout.symm.trans h)).symm, hempty, hcookie⟩
      · exact ⟨_, (Option.some.inj (hget.symm.trans h)).symm, hempty, hcookie⟩

/-- The scan accepts only the session cookie exactly when there is no cookie header,
or the scan does not come to the name, or the text it takes for the id is empty or
the whole value of a session cookie. -/
theorem cookie_scan_iff (req : Request) (res : Response) :
    AcceptsOnlySession req res ↔
      ∀ value, cookieValue req.headers = some value →
        Restart.Reached sessionCookieName value →
          scannedText value = [] ∨ ⟨lit "rp-session", scannedText value⟩ ∈ cookiePairs value := by
  rw [acceptsOnlySession_iff]
  cases hvalue : cookieValue req.headers with
  | none =>
      rw [sessionId_of_none hvalue]
      exact iff_of_true (.inl rfl) (by simp)
  | some value =>
      obtain ⟨hfound, hlost⟩ := sessionId_of_some hvalue
      by_cases hreached : Restart.Reached sessionCookieName value
      · simp [HasSessionCookie, hvalue, hfound hreached, hreached]
      · rw [hlost hreached]
        refine iff_of_true (.inl rfl) ?_
        rintro value' heq h
        exact absurd (Option.some.inj heq ▸ h) hreached

/-- A request whose only cookie has another name that ends like that of the session
cookie. -/
def sampleImpostor : Request := requestWith [⟨lit "xrp-session", sampleSession.text.bytes⟩]

/-- The impostor is no session cookie, but the service is called. -/
theorem cookie_scan_fails :
    (∀ v, ¬ HasSessionCookie sampleImpostor.headers v) ∧
      ∃ s, (postLogout sampleImpostor {}).firstCall = some (.logout s) ∧
        (Auth.getUser sampleImpostor {}).firstCall = some (.getUser s) ∧
        s.text.bytes = lit "=" ++ sampleSession.text.bytes.dropLast := by
  refine ⟨?_, _, rfl, rfl, by decide⟩
  rintro v ⟨value, hvalue, hmem⟩
  obtain rfl := Option.some.inj hvalue
  have hpairs : cookiePairs (cookieHeader [⟨lit "xrp-session", sampleSession.text.bytes⟩]) =
      [⟨lit "xrp-session", sampleSession.text.bytes⟩] := by decide
  have hname : lit "rp-session" = lit "xrp-session" :=
    congrArg Cookie.name (List.mem_singleton.mp (hpairs ▸ hmem))
  exact absurd hname (by decide)

end RePlace.Api.Auth
